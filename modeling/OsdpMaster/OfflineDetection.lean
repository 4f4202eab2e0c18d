import OsdpMaster.Status

/-!
When a slave counts as offline. `m_retry` is the number of polls it missed since
its last accepted reply, counted up to the limit; before the first accepted reply
it stands one above. A slave changes sides in `ack` and `nak` only, which announce
each change once.
-/

namespace OsdpMaster.OfflineDetection
open OsdpMaster.Protocol OsdpMaster.Slave OsdpMaster.SlavePoll OsdpMaster.SlaveRun OsdpMaster.Status
open OsdpMaster.Bus OsdpMaster.Split OsdpMaster.Lib.Trace

def noteFailure (failures : Nat) : Event → Nat
  | .accepted => 0
  | .ended (.failed _) => failures + 1
  | _ => failures

/-- The polls that failed since the last accepted reply. -/
def failures (history : List Event) : Nat := history.foldl noteFailure 0

theorem failures_append (history events : List Event) :
    failures (history ++ events) = events.foldl noteFailure (failures history) := List.foldl_append

def statuses (events : List Event) : List Bytes := events.filterMap statusIn

def Counted (slave : OsdpSlave) (history : List Event) : Prop :=
  slave.retry = if .accepted ∈ history then min OSDPSLAVE_RETRY_MAX (failures history)
    else OSDPSLAVE_RETRY_MAX + 1

theorem Counted.range {slave : OsdpSlave} {history : List Event} (counted : Counted slave history) :
    0 ≤ slave.retry ∧ slave.retry ≤ OSDPSLAVE_RETRY_MAX + 1 := by
  rw [counted, OSDPSLAVE_RETRY_MAX]
  split <;> omega

theorem Counted.offline_iff {slave : OsdpSlave} {history : List Event} (counted : Counted slave history) :
    offline slave = true ↔ .accepted ∉ history ∨ OSDPSLAVE_RETRY_MAX ≤ failures history := by
  rw [offline, counted, decide_eq_true_iff]
  unfold OSDPSLAVE_RETRY_MAX
  by_cases accepted : Event.accepted ∈ history
  · rw [if_pos accepted]
    have member : ¬Event.accepted ∉ history := not_not.mpr accepted
    rw [or_iff_right member]
    omega
  · rw [if_neg accepted]
    exact iff_of_true (by decide) (Or.inl accepted)

theorem Counted.keep {before after : OsdpSlave} {history events : List Event} (counted : Counted before history)
    (retry : after.retry = before.retry)
    (calm : ∀ event ∈ events, event ≠ .accepted ∧ ∀ size, event ≠ .ended (.failed size)) :
    Counted after (history ++ events) := by
  have still : failures (history ++ events) = failures history := by
    rw [failures_append]
    apply foldl_keeps id
    intro event member count
    obtain ⟨not_accepted, not_failed⟩ := calm event member
    cases event with
    | accepted => exact absurd rfl not_accepted
    | ended ending =>
      cases ending with
      | failed size => exact absurd rfl (not_failed size)
      | _ => rfl
    | _ => rfl
  have none_new : (Event.accepted ∈ history ++ events) = (Event.accepted ∈ history) := by
    rw [List.mem_append, eq_iff_iff, or_iff_left]
    intro member
    exact (calm _ member).1 rfl
  simp only [Counted, still, none_new, retry]
  exact counted

theorem published_calm (publications : List Publication) :
    ∀ event ∈ publications.map Event.published, event ≠ .accepted ∧ ∀ size, event ≠ .ended (.failed size) :=
  forall_published (fun _ => ⟨Event.noConfusion, fun _ => Event.noConfusion⟩) publications

theorem ack_counted {slave : OsdpSlave} (history : List Event) :
    Counted (ack slave).1 (history ++ .accepted :: (ack slave).2.map .published) := by
  have start : Counted (ack slave).1 (history ++ [.accepted]) := by
    have zero : failures (history ++ [.accepted]) = 0 := by
      rw [failures_append]
      rfl
    rw [Counted, if_pos (by simp), zero]
    rfl
  have rest := start.keep rfl (published_calm (ack slave).2)
  rwa [List.append_assoc] at rest

theorem nak_retry (slave : OsdpSlave) (now : Timespec) :
    (nak slave now).1.retry = if offline slave then slave.retry else slave.retry + 1 := by
  unfold nak
  split
  · rfl
  · dsimp only
    split <;> rfl

theorem nak_counted {slave : OsdpSlave} {history : List Event} (counted : Counted slave history)
    (now : Timespec) (size : Int) :
    Counted (nak slave now).1 (history ++ ((nak slave now).2.map .published ++ [.ended (.failed size)])) := by
  have told := counted.keep rfl (published_calm (nak slave now).2)
  have more : failures (history ++ (nak slave now).2.map .published ++ [.ended (.failed size)]) =
      failures (history ++ (nak slave now).2.map .published) + 1 := by
    rw [failures_append]
    rfl
  have none_new : (Event.accepted ∈ history ++ (nak slave now).2.map .published ++ [.ended (.failed size)]) =
      (Event.accepted ∈ history ++ (nak slave now).2.map .published) := by
    simp
  rw [← List.append_assoc]
  generalize history ++ (nak slave now).2.map .published = before at *
  simp only [Counted, more, none_new, nak_retry, offline, decide_eq_true_eq] at told ⊢
  rw [told]
  unfold OSDPSLAVE_RETRY_MAX
  by_cases accepted : Event.accepted ∈ before
  · simp only [accepted, if_true]
    split <;> omega
  · simp [accepted]

/-- What a step publishes about the slave: its status, if it came to be online or offline, and nothing
otherwise. It comes online in `ack` and goes offline in `nak`. -/
structure Declares (before after : OsdpSlave) (events : List Event) : Prop where
  published : statuses events = if offline after = offline before then [] else [statusOf after]
  acked : offline before = true → offline after = false → .accepted ∈ events
  naked : offline before = false → offline after = true → ∃ size, .ended (.failed size) ∈ events

theorem declares_none {before after : OsdpSlave} {events : List Event} (retry : after.retry = before.retry)
    (silent : statuses events = []) : Declares before after events := by
  have same : offline after = offline before := by rw [offline, offline, retry]
  refine ⟨by rw [silent, if_pos same], ?_, ?_⟩
  · intro off on
    rw [same, off] at on
    cases on
  · intro on off
    rw [same, on] at off
    cases off

theorem ack_declares (slave : OsdpSlave) :
    Declares slave (ack slave).1 (.accepted :: (ack slave).2.map .published) := by
  have online : offline (ack slave).1 = false := rfl
  refine ⟨?_, fun _ _ => List.mem_cons_self, ?_⟩
  · rw [online, ack_published]
    cases off : offline slave with
    | true =>
      rw [statusOf_eq, online]
      rfl
    | false => rfl
  · intro _ off
    rw [online] at off
    cases off

theorem statuses_append (first second : List Event) :
    statuses (first ++ second) = statuses first ++ statuses second := List.filterMap_append

theorem nak_declares (slave : OsdpSlave) (now : Timespec) (size : Int) :
    Declares slave (nak slave now).1 ((nak slave now).2.map .published ++ [.ended (.failed size)]) := by
  have silent : statuses [.ended (.failed size)] = [] := rfl
  refine ⟨?_, ?_, fun _ _ => ⟨size, by simp⟩⟩
  · rw [statuses_append, silent, List.append_nil]
    cases off : offline slave with
    | true =>
      rw [nak_offline off, if_pos off]
      rfl
    | false =>
      rw [nak, if_neg (Bool.eq_false_iff.mp off)]
      dsimp only
      split
      next gone =>
        rw [gone, statusOf_eq, gone]
        rfl
      next still =>
        have on : offline { slave with retry := slave.retry + 1, nextPoll := some (pollAfter now) } = false :=
          Bool.eq_false_iff.mpr still
        rw [if_pos on]
        rfl
  · intro off on
    rw [nak_offline off, off] at on
    cases on

section Steps

variable {p p' : Poll} {history events : List Event}

theorem counted_poll (stepped : PollStepped p p' events) (counted : Counted p.slave history) :
    Counted p'.slave (history ++ events) := by
  cases stepped with
  | refused size sendmsg here addr unwilling =>
    obtain ⟨rxseq, noted⟩ := noteSeq_slave p.slave (inByte p.port 4 &&& 0x03)
    rw [noted]
    apply counted.keep rfl
    intro event member
    rw [List.mem_singleton.mp member]
    split <;> simp
  | accepted size sendmsg here addr willing => exact ack_counted history
  | missed size here now => exact nak_counted counted now size
  | _ => exact counted.keep rfl (by simp)

theorem declares_poll (stepped : PollStepped p p' events) : Declares p.slave p'.slave events := by
  cases stepped with
  | refused size sendmsg here addr unwilling =>
    obtain ⟨rxseq, noted⟩ := noteSeq_slave p.slave (inByte p.port 4 &&& 0x03)
    rw [noted]
    exact declares_none rfl rfl
  | accepted size sendmsg here addr willing =>
    obtain ⟨rxseq, noted⟩ := noteSeq_slave p.slave (inByte p.port 4 &&& 0x03)
    have declares := ack_declares { p.slave with rxseq := rxseq }
    rw [noted]
    exact ⟨declares.published, declares.acked, declares.naked⟩
  | missed size here now => exact nak_declares p.slave now size
  | _ => exact declares_none rfl rfl

theorem counted_message {slave : OsdpSlave} (counted : Counted slave history) (components : List Bytes)
    (payload : Bytes) : Counted (deliver slave components payload).1
      (history ++ (deliver slave components payload).2) := by
  obtain ⟨more, enabled, slave_eq⟩ := deliver_slave slave components payload
  apply counted.keep (by rw [slave_eq])
  apply forall_deliver
  · intro publication
    exact ⟨Event.noConfusion, fun _ => Event.noConfusion⟩
  · intro message enabled
    exact ⟨Event.noConfusion, fun _ => Event.noConfusion⟩

theorem counted_run {config : SerialConfig} {text : Bytes} {ok : Poll → List Event → Move → Prop}
    (run : Run (slaveSystem config text) ok p history) : Counted p.slave history := by
  apply slaveRun_invariant (I := fun p history => Counted p.slave history) _ _ _ _ run
  · rfl
  · intro p history port crcCount timeoutCount _ counted
    exact counted
  · intro p history t p' events _ _ stepped counted
    exact counted_poll (pollStep_stepped stepped) counted
  · intro p history components payload _ _ counted
    exact counted_message counted components payload

end Steps

section Master

variable {config : SerialConfig} {i : Nat} {master master' : Master} {p : Poll} {events : List (Nat × Event)}

theorem poll_declares {t : Tick} (follows : Follows config i master p)
    (stepped : step master (.poll t) = some (master', events)) :
    ∃ slave', master'.slaves[i]? = some slave' ∧ Declares p.slave slave' (eventsOf i events) := by
  simp only [step] at stepped
  split at stepped
  next idle =>
    obtain ⟨none_told, selected⟩ := select_follows follows idle stepped
    subst none_told
    have same : master'.slaves[i]? = some p.slave := by
      rcases selected with still | ⟨p', port, crcCount, timeoutCount, follows', called⟩
      · exact still.slave
      · simp only [slaveStep] at called
        split at called
        · cases called
          exact follows'.slave
        · cases called
    exact ⟨p.slave, same, declares_none rfl rfl⟩
  next busy =>
    rcases pollSelected_follows follows busy stepped with ⟨_, quiet, still⟩ | ⟨p', _, follows', polled⟩
    · rw [quiet]
      exact ⟨p.slave, still.slave, declares_none rfl rfl⟩
    · exact ⟨p'.slave, follows'.slave, declares_poll (pollStep_stepped polled)⟩

theorem message_offline {topic payload : Bytes} (follows : Follows config i master p)
    (stepped : step master (.message topic payload) = some (master', events)) :
    ∃ slave', master'.slaves[i]? = some slave' ∧ offline slave' = offline p.slave := by
  rcases messageCallback_follows follows stepped with ⟨_, still⟩ | ⟨p', components, _, follows', told⟩
  · exact ⟨p.slave, still.slave, rfl⟩
  · simp only [slaveStep, Option.some.injEq, Prod.mk.injEq] at told
    obtain ⟨p'_eq, _⟩ := told
    obtain ⟨more, enabled, slave_eq⟩ := deliver_slave p.slave components payload
    have slave' := congrArg Poll.slave p'_eq
    rw [slave_eq] at slave'
    refine ⟨p'.slave, follows'.slave, ?_⟩
    rw [← slave']
    rfl

end Master

/-- In every run, for every slave: its retry count stays in its range; it is offline exactly before its
first accepted reply and after `OSDPSLAVE_RETRY_MAX` failed polls since the last; and a step of the poll
thread publishes its status exactly if it changes sides, which only `ack` and `nak` make it do. -/
theorem offline_history (config : SerialConfig) (texts : List Bytes) (i : Nat) (text : Bytes)
    (configured : texts[i]? = some text) (master : Master) (history : List (Nat × Event))
    (run : Run (bus config texts) free master history) :
    ∃ slave, master.slaves[i]? = some slave ∧ 0 ≤ slave.retry ∧ slave.retry ≤ OSDPSLAVE_RETRY_MAX + 1 ∧
      (offline slave = true ↔ .accepted ∉ eventsOf i history ∨
        OSDPSLAVE_RETRY_MAX ≤ failures (eventsOf i history)) ∧
      (∀ t master' events, step master (.poll t) = some (master', events) →
        ∃ slave', master'.slaves[i]? = some slave' ∧ Declares slave slave' (eventsOf i events)) ∧
      (∀ topic payload master' events, step master (.message topic payload) = some (master', events) →
        ∃ slave', master'.slaves[i]? = some slave' ∧ offline slave' = offline slave) := by
  obtain ⟨p, follows, slaveRun⟩ := run_slave configured run
  have counted := counted_run slaveRun
  refine ⟨p.slave, follows.slave, counted.range.1, counted.range.2, counted.offline_iff, ?_, ?_⟩
  · intro t master' events stepped
    exact poll_declares follows stepped
  · intro topic payload master' events stepped
    exact message_offline follows stepped

theorem offline_history_lost :
    ∃ master history slave, Run (bus plainPort [ascii "5"]) free master history ∧
      master.slaves[0]? = some slave ∧ .accepted ∈ eventsOf 0 history ∧ failures (eventsOf 0 history) = 10 ∧
      offline slave = true := by
  have checked : (replay (bus plainPort [ascii "5"]) free (bus plainPort [ascii "5"]).start
      (bus plainPort [ascii "5"]).startup
      (polls 8 ⟨0, 0⟩ [.data ackReply] ++
        (List.range 10).flatMap (fun second => polls 7 ⟨second, 0⟩ [.eagain ⟨second + 1, 0⟩]))).any (fun reached =>
        decide (.accepted ∈ eventsOf 0 reached.2) && failures (eventsOf 0 reached.2) == 10) = true := by
    decide +kernel
  obtain ⟨master, history, run, reached⟩ := exists_run checked
  simp only [Bool.and_eq_true, decide_eq_true_eq, beq_iff_eq] at reached
  obtain ⟨accepted, ten⟩ := reached
  obtain ⟨slave, there, _, _, off, _⟩ :=
    offline_history plainPort [ascii "5"] 0 (ascii "5") rfl master history run
  refine ⟨master, history, slave, run, there, accepted, ten, off.mpr (Or.inr ?_)⟩
  rw [ten]
  decide

end OsdpMaster.OfflineDetection
