import OsdpMaster.Status

/-!
The status operations statement by statement. `ack` and `nak` run in the poll thread
and the control branch of `message_for_slave` in the one of MQTT, without a lock, so
that `declare_online` may publish what the other thread has made untrue.
-/

namespace OsdpMaster.StatusThreads
open OsdpMaster.Slave OsdpMaster.SlavePoll OsdpMaster.SlaveRun OsdpMaster.Status OsdpMaster.Lib.Trace

section Threads

/-- What the poll thread has come to; `acking` in `ack`, which goes on after `declare_online`. -/
inductive PollAt
  | outside
  /-- Before `enabled()`. -/
  | declaring (tf acking : Bool)
  /-- Before `mosquitto_publish`. -/
  | publishing (val : Bytes) (acking : Bool)
  /-- Before `m_retry = 0`. -/
  | zeroing
  deriving DecidableEq

inductive MessageAt
  | outside
  /-- Before the command is looked at; `o` is what `offline()` was. -/
  | writing (cmd : Bytes) (o : Bool)
  | declaring (tf : Bool)
  | publishing (val : Bytes)
  deriving DecidableEq

structure State where
  slave : OsdpSlave
  poll : PollAt
  message : MessageAt
  deriving DecidableEq

/-- An operation begins, or a thread goes on with the one it is in. -/
inductive Action
  | ack
  | nak (now : Timespec)
  | control (cmd : Bytes)
  | poll
  | message
  deriving DecidableEq

def publish (slave : OsdpSlave) (val : Bytes) : Publication := ⟨statusTopic slave, val.length, val, 1, true⟩

def beginAck (s : State) : State :=
  let slave := { s.slave with txseq := nextSeq s.slave.txseq }
  if offline slave then { s with slave := slave, poll := .declaring true true }
  else { s with slave := { slave with retry := 0 } }

def beginNak (s : State) (now : Timespec) : State :=
  if offline s.slave then s
  else
    let slave := { s.slave with retry := s.slave.retry + 1 }
    if offline slave then { s with slave := slave, poll := .declaring false false }
    else { s with slave := { slave with nextPoll := some (pollAfter now) } }

def goOn (s : State) : Option (State × List Publication) :=
  match s.poll with
  | .outside => none
  | .declaring tf acking => some ({ s with poll := .publishing (statusValue s.slave.enabled tf) acking }, [])
  | .publishing val acking => some ({ s with poll := if acking then .zeroing else .outside }, [publish s.slave val])
  | .zeroing => some ({ s with slave := { s.slave with retry := 0 }, poll := .outside }, [])

/-- What a command writes, and the argument of `declare_online`. -/
def obey (slave : OsdpSlave) (cmd : Bytes) (o : Bool) : OsdpSlave × Bool :=
  if cmd = ascii "DISABLE" then ({ slave with enabled := false }, o)
  else if cmd = ascii "ENABLE" then ({ slave with enabled := true }, true)
  else (slave, o)

def handle (s : State) : Option (State × List Publication) :=
  match s.message with
  | .outside => none
  | .writing cmd o => some ({ s with slave := (obey s.slave cmd o).1, message := .declaring (obey s.slave cmd o).2 }, [])
  | .declaring tf => some ({ s with message := .publishing (statusValue s.slave.enabled tf) }, [])
  | .publishing val => some ({ s with message := .outside }, [publish s.slave val])

def step (s : State) : Action → Option (State × List Publication)
  | .ack => if s.poll = .outside then some (beginAck s, []) else none
  | .nak now => if s.poll = .outside then some (beginNak s now, []) else none
  | .control cmd => if s.message = .outside then some ({ s with message := .writing cmd (offline s.slave) }, []) else none
  | .poll => goOn s
  | .message => handle s

def threads (slave : OsdpSlave) : System State Action Publication where
  start := ⟨slave, .outside, .outside⟩
  startup := [declareOnline slave (!offline slave)]
  step := step

def commandOf : Action → Option Bytes
  | .control cmd => some cmd
  | _ => none

def Fit (s : State) (_ : List Publication) (action : Action) : Prop := ∀ cmd ∈ commandOf action, Fitting s.slave cmd

/-- Also, the threads are not both in an operation that publishes. -/
structure Apart (s : State) (history : List Publication) (action : Action) : Prop where
  apart : ∀ reached ∈ step s action, reached.1.poll = .outside ∨ reached.1.message = .outside
  fitting : Fit s history action

instance (s : State) (history : List Publication) (action : Action) : Decidable (Apart s history action) :=
  decidable_of_iff ((∀ reached ∈ step s action, reached.1.poll = .outside ∨ reached.1.message = .outside) ∧
      ∀ cmd ∈ commandOf action, Fitting s.slave cmd)
    ⟨fun ⟨apart, fitting⟩ => ⟨apart, fitting⟩, fun allowed => ⟨allowed.apart, allowed.fitting⟩⟩

end Threads

section Whole

def restOfPoll (slave : OsdpSlave) : PollAt → OsdpSlave × List Publication
  | .outside => (slave, [])
  | .declaring tf acking => (if acking then { slave with retry := 0 } else slave, [declareOnline slave tf])
  | .publishing val acking => (if acking then { slave with retry := 0 } else slave, [publish slave val])
  | .zeroing => ({ slave with retry := 0 }, [])

def restOfMessage (slave : OsdpSlave) : MessageAt → OsdpSlave × List Publication
  | .outside => (slave, [])
  | .writing cmd o => ((obey slave cmd o).1, [declareOnline (obey slave cmd o).1 (obey slave cmd o).2])
  | .declaring tf => (slave, [declareOnline slave tf])
  | .publishing val => (slave, [publish slave val])

/-- An operation that nothing interrupts is the whole one. -/
theorem rest_beginAck (s : State) (outside : s.poll = .outside) :
    restOfPoll (beginAck s).slave (beginAck s).poll = Slave.ack s.slave := by
  simp only [beginAck, Slave.ack]
  split
  · rfl
  · rw [outside]
    rfl

theorem rest_beginNak (s : State) (now : Timespec) (outside : s.poll = .outside) :
    restOfPoll (beginNak s now).slave (beginNak s now).poll = Slave.nak s.slave now := by
  simp only [beginNak, Slave.nak]
  split
  · rw [outside]
    rfl
  · split
    · rfl
    · rw [outside]
      rfl

theorem rest_control (slave : OsdpSlave) (cmd : Bytes) :
    restOfMessage slave (.writing cmd (offline slave)) = Slave.control slave cmd := by
  simp only [restOfMessage, obey, Slave.control]
  split
  · rfl
  · split <;> rfl

/-- What is left of the operation in progress, if at most one of the threads is in one. -/
def rest (s : State) : OsdpSlave × List Publication :=
  match s.message with
  | .outside => restOfPoll s.slave s.poll
  | _ => restOfMessage s.slave s.message

theorem rest_outside {s : State} (outside : s.message = .outside) : rest s = restOfPoll s.slave s.poll := by
  rw [rest, outside]

theorem rest_inside {s : State} (inside : s.message ≠ .outside) : rest s = restOfMessage s.slave s.message := by
  rw [rest]
  split
  next outside => exact absurd outside inside
  · rfl

variable {s s' : State} {published : List Publication}

theorem rest_goOn (outside : s.message = .outside) (stepped : goOn s = some (s', published)) :
    (rest s').1 = (rest s).1 ∧ published ++ (rest s').2 = (rest s).2 := by
  obtain ⟨slave, poll, message⟩ := s
  change message = .outside at outside
  subst outside
  cases poll with
  | outside => cases stepped
  | declaring tf acking =>
    cases stepped
    exact ⟨rfl, rfl⟩
  | publishing val acking =>
    cases stepped
    cases acking <;> exact ⟨rfl, rfl⟩
  | zeroing =>
    cases stepped
    exact ⟨rfl, rfl⟩

theorem rest_handle (outside : s.poll = .outside) (stepped : handle s = some (s', published)) :
    (rest s').1 = (rest s).1 ∧ published ++ (rest s').2 = (rest s).2 := by
  obtain ⟨slave, poll, message⟩ := s
  change poll = .outside at outside
  subst outside
  cases message with
  | outside => cases stepped
  | writing cmd o =>
    cases stepped
    exact ⟨rfl, rfl⟩
  | declaring tf =>
    cases stepped
    exact ⟨rfl, rfl⟩
  | publishing val =>
    cases stepped
    exact ⟨rfl, rfl⟩

theorem message_beginAck (s : State) : (beginAck s).message = s.message := by
  simp only [beginAck]
  split <;> rfl

theorem message_beginNak (s : State) (now : Timespec) : (beginNak s now).message = s.message := by
  simp only [beginNak]
  split
  · rfl
  · split <;> rfl

end Whole

section Runs

def Told (published : List Publication) (left : OsdpSlave × List Publication) : Prop :=
  lastStatus ((published ++ left.2).map .published) = some (statusOf left.1)

def Alike (slave slave' : OsdpSlave) : Prop := offline slave' = offline slave ∧ slave'.enabled = slave.enabled

theorem Alike.status {slave slave' : OsdpSlave} (alike : Alike slave slave') : statusOf slave' = statusOf slave := by
  rw [statusOf, statusOf, alike.1, alike.2]

theorem lastStatus_snoc (published : List Publication) (publication : Publication) (kept : publication.retain = true) :
    lastStatus ((published ++ [publication]).map .published) = some publication.payload := by
  rw [List.map_append, lastStatus_append, List.map_singleton]
  simp [lastStatus, statusIn, kept]

theorem obey_alike {slave slave' : OsdpSlave} (alike : Alike slave slave') (cmd : Bytes) (o : Bool) :
    Alike (obey slave cmd o).1 (obey slave' cmd o).1 ∧ (obey slave' cmd o).2 = (obey slave cmd o).2 := by
  unfold obey
  split
  · exact ⟨⟨alike.1, rfl⟩, rfl⟩
  · split
    · exact ⟨⟨alike.1, rfl⟩, rfl⟩
    · exact ⟨alike, rfl⟩

theorem Told.alike {published : List Publication} {slave slave' : OsdpSlave} (alike : Alike slave slave')
    {message : MessageAt} (told : Told published (restOfMessage slave message)) :
    Told published (restOfMessage slave' message) := by
  unfold Told at told ⊢
  cases message with
  | outside =>
    rw [restOfMessage, alike.status]
    exact told
  | writing cmd o =>
    obtain ⟨written, said⟩ := obey_alike alike cmd o
    simp only [restOfMessage] at told ⊢
    rw [lastStatus_snoc _ _ rfl] at told ⊢
    rw [written.status, ← told, said, declareOnline, declareOnline, written.2]
  | declaring tf =>
    simp only [restOfMessage] at told ⊢
    rw [lastStatus_snoc _ _ rfl] at told ⊢
    rw [alike.status, ← told, declareOnline, declareOnline, alike.2]
  | publishing val =>
    simp only [restOfMessage] at told ⊢
    rw [lastStatus_snoc _ _ rfl] at told ⊢
    rw [alike.status, ← told]
    rfl

theorem quiet_beginAck {s : State} (quiet : (beginAck s).poll = .outside) : Alike s.slave (beginAck s).slave := by
  simp only [beginAck] at quiet ⊢
  split
  next off =>
    rw [if_pos off] at quiet
    cases quiet
  next on =>
    have online : offline s.slave = false := Bool.eq_false_iff.mpr on
    exact ⟨online.symm, rfl⟩

theorem quiet_beginNak {s : State} {now : Timespec} (quiet : (beginNak s now).poll = .outside) :
    Alike s.slave (beginNak s now).slave := by
  simp only [beginNak] at quiet ⊢
  split
  · exact ⟨rfl, rfl⟩
  next on =>
    rw [if_neg on] at quiet
    split
    next gone =>
      rw [if_pos gone] at quiet
      cases quiet
    next still =>
      have online : offline s.slave = false := Bool.eq_false_iff.mpr on
      have still : offline { s.slave with retry := s.slave.retry + 1 } = false := Bool.eq_false_iff.mpr still
      exact ⟨still.trans online.symm, rfl⟩

theorem Announces.told {before : OsdpSlave} {published : List Publication} {left : OsdpSlave × List Publication}
    (announces : Announces before left.1 (left.2.map .published)) (told : Told published (before, [])) :
    Told published left := by
  unfold Told at told ⊢
  rw [List.append_nil] at told
  rw [List.map_append]
  exact announces.agrees told

structure Right (s : State) (published : List Publication) : Prop where
  apart : s.poll = .outside ∨ s.message = .outside
  told : Told published (rest s)

theorem begun_told {s s' : State} {history : List Publication} (right : Right s history) (idle : s.poll = .outside)
    (same : s'.message = s.message) (apart : s'.poll = .outside ∨ s'.message = .outside)
    (announces : Announces s.slave (restOfPoll s'.slave s'.poll).1 ((restOfPoll s'.slave s'.poll).2.map .published))
    (quiet : s'.poll = .outside → Alike s.slave s'.slave) : Told history (rest s') := by
  have told := right.told
  by_cases outside : s.message = .outside
  · rw [rest_outside outside, idle] at told
    rw [rest_outside (same.trans outside)]
    exact Announces.told announces told
  · have inside : s'.message ≠ .outside := same ▸ outside
    rw [rest_inside outside] at told
    rw [rest_inside inside, same]
    exact told.alike (quiet (apart.resolve_right inside))

theorem step_right {s s' : State} {action : Action} {history published : List Publication} (right : Right s history)
    (allowed : Apart s history action) (stepped : step s action = some (s', published)) :
    Right s' (history ++ published) := by
  have apart := allowed.apart _ stepped
  refine ⟨apart, ?_⟩
  cases action with
  | ack =>
    obtain ⟨idle, same⟩ := Option.ite_none_right_eq_some.mp stepped
    cases same
    rw [List.append_nil]
    have announces := ack_announces s.slave
    rw [← rest_beginAck s idle] at announces
    exact begun_told right idle (message_beginAck s) apart announces quiet_beginAck
  | nak now =>
    obtain ⟨idle, same⟩ := Option.ite_none_right_eq_some.mp stepped
    cases same
    rw [List.append_nil]
    have announces := nak_announces s.slave now
    rw [← rest_beginNak s now idle] at announces
    exact begun_told right idle (message_beginNak s now) apart announces quiet_beginNak
  | control cmd =>
    obtain ⟨outside, same⟩ := Option.ite_none_right_eq_some.mp stepped
    cases same
    rw [List.append_nil, rest_inside MessageAt.noConfusion, rest_control]
    have answered := (control_status s.slave cmd).mpr (allowed.fitting cmd rfl)
    rw [Told, List.map_append, lastStatus_append, answered]
    rfl
  | poll =>
    have busy : s.poll ≠ .outside := by
      intro idle
      simp only [step, goOn, idle] at stepped
      cases stepped
    obtain ⟨slave, left⟩ := rest_goOn (right.apart.resolve_left busy) stepped
    rw [Told, List.append_assoc, left, slave]
    exact right.told
  | message =>
    have busy : s.message ≠ .outside := by
      intro idle
      simp only [step, handle, idle] at stepped
      cases stepped
    obtain ⟨slave, left⟩ := rest_handle (right.apart.resolve_right busy) stepped
    rw [Told, List.append_assoc, left, slave]
    exact right.told

theorem run_right {slave : OsdpSlave} {s : State} {published : List Publication}
    (run : Run (threads slave) Apart s published) : Right s published := by
  apply run.invariant (I := Right)
  · refine ⟨Or.inl rfl, ?_⟩
    have announced := (declareOnline_iff slave (!offline slave)).mpr (Or.inr rfl)
    exact announced
  · intro s history action s' events _ right allowed stepped
    exact step_right right allowed stepped

section Overlap

variable {slave : OsdpSlave} {s s' : State} {published more : List Publication}

theorem run_on (action : Action) (fits : ∀ cmd ∈ commandOf action, cmd = ascii "DISABLE")
    (run : Run (threads slave) Fit s published) (stepped : step s action = some (s', more)) :
    Run (threads slave) Fit s' (published ++ more) :=
  run.step (fun cmd member => Or.inl (fits cmd member)) stepped

/-- `ack` of an offline slave, with a whole `DISABLE` between its `enabled()` and its `mosquitto_publish`. -/
theorem run_overlapping (off : offline slave = true) :
    ∃ s published, Run (threads slave) Fit s published ∧ s.poll = .outside ∧ s.message = .outside ∧
      s.slave.enabled = false ∧ lastStatus (published.map .published) = some (statusValue slave.enabled true) := by
  let acked := { slave with txseq := nextSeq slave.txseq }
  let disabled := { acked with enabled := false }
  let val := statusValue slave.enabled true
  have begun : beginAck ⟨slave, .outside, .outside⟩ = ⟨acked, .declaring true true, .outside⟩ := if_pos off
  have acking : step ⟨slave, .outside, .outside⟩ .ack = some (⟨acked, .declaring true true, .outside⟩, []) :=
    congrArg (fun s => some (s, [])) begun
  have reading : step ⟨acked, .declaring true true, .outside⟩ .poll =
    some (⟨acked, .publishing val true, .outside⟩, []) := rfl
  have writing : step ⟨acked, .publishing val true, .writing (ascii "DISABLE") (offline acked)⟩ .message =
    some (⟨disabled, .publishing val true, .declaring (offline acked)⟩, []) := rfl
  have zeroing : step ⟨disabled, .publishing val true, .outside⟩ .poll =
    some (⟨disabled, .zeroing, .outside⟩, [publish disabled val]) := rfl
  have begun := run_on .poll nofun (run_on .ack nofun .start acking) reading
  have told := run_on (.control (ascii "DISABLE")) (fun _ same => by cases same; rfl) begun rfl
  have answered := run_on .message nofun (run_on .message nofun (run_on .message nofun told writing) rfl) rfl
  have ended := run_on .poll nofun (run_on .poll nofun answered zeroing) rfl
  refine ⟨_, _, ended, rfl, rfl, rfl, ?_⟩
  rw [List.append_nil, lastStatus_snoc _ _ rfl]
  rfl

end Overlap

/-- Statement by statement: if the threads are never both in an operation that publishes, and control messages fit,
then the last status describes the slave whenever no operation is in progress. Otherwise it may not: an enabled slave
that was offline can end up disabled and announced as online. -/
theorem statuses_apart (slave : OsdpSlave) :
    (∀ s published, Run (threads slave) Apart s published → s.poll = .outside → s.message = .outside →
      lastStatus (published.map .published) = some (statusOf s.slave)) ∧
    (offline slave = true → slave.enabled = true → ∃ s published,
      Run (threads slave) Fit s published ∧ s.poll = .outside ∧ s.message = .outside ∧ s.slave.enabled = false ∧
        lastStatus (published.map .published) = some (ascii "ONLINE")) := by
  constructor
  · intro s published run idle outside
    have told := (run_right run).told
    rw [rest_outside outside, idle, Told, restOfPoll, List.append_nil] at told
    exact told
  · intro off enabled
    obtain ⟨s, published, run, idle, outside, disabled, last⟩ := run_overlapping off
    refine ⟨s, published, run, idle, outside, disabled, ?_⟩
    rw [last, enabled]
    rfl

theorem statuses_apart_both :
    (∃ s published, Run (threads (addSlave (ascii "5"))) Apart s published ∧ s.slave.retry = 0 ∧
      s.slave.enabled = false ∧ lastStatus (published.map .published) = some (statusOf s.slave)) ∧
    ∃ s published, Run (threads (addSlave (ascii "5"))) Fit s published ∧ s.slave.enabled = false ∧
      lastStatus (published.map .published) = some (ascii "ONLINE") := by
  have both := statuses_apart (addSlave (ascii "5"))
  constructor
  · have checked : (replay (threads (addSlave (ascii "5"))) Apart (threads (addSlave (ascii "5"))).start
        (threads (addSlave (ascii "5"))).startup [.ack, .poll, .poll, .poll, .control (ascii "DISABLE"), .message,
          .message, .message]).any (fun reached => decide (reached.1.poll = .outside) &&
          decide (reached.1.message = .outside) && decide (reached.1.slave.retry = 0) &&
          decide (reached.1.slave.enabled = false)) = true := by
      decide +kernel
    obtain ⟨s, published, run, reached⟩ := exists_run checked
    simp only [Bool.and_eq_true, decide_eq_true_eq] at reached
    obtain ⟨⟨⟨idle, outside⟩, zeroed⟩, disabled⟩ := reached
    exact ⟨s, published, run, zeroed, disabled, both.1 s published run idle outside⟩
  · obtain ⟨s, published, run, _, _, disabled, last⟩ := both.2 (by decide +kernel) rfl
    exact ⟨s, published, run, disabled, last⟩

end Runs

end OsdpMaster.StatusThreads
