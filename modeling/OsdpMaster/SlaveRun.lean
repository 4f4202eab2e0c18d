import OsdpMaster.Bus
import OsdpMaster.ProtocolKept
import OsdpMaster.ReadSpec

/-!
The runs of one slave: its calls step by step, with the messages for it between
any two steps. `PollStepped` says once what a step can do, and every run of the
master is, for each of its slaves, such a run.
-/

namespace OsdpMaster.SlaveRun
open OsdpMaster.Protocol OsdpMaster.Slave OsdpMaster.SlavePoll OsdpMaster.Split OsdpMaster.Bus
open OsdpMaster.Lib.Program OsdpMaster.Lib.Trace

section Folds

variable {S : Type} {note : S → Event → S} (published : ∀ publication s, note s (.published publication) = s)

include published in
theorem foldl_published (publications : List Publication) (s : S) :
    (publications.map Event.published).foldl note s = s :=
  foldl_keeps id (forall_published published publications) s

include published in
theorem foldl_deliver (arrived : ∀ message enabled s, note s (.arrived message enabled) = s) (slave : OsdpSlave)
    (components : List Bytes) (payload : Bytes) (s : S) :
    (deliver slave components payload).2.foldl note s = s :=
  foldl_keeps id (forall_deliver published arrived slave components payload) s

end Folds

/-- What a step of a call does, by the position it starts from. -/
inductive PollStepped (p : Poll) : Poll → List Event → Prop
  | foundOffline (here : p.position = .offlineTest) (off : offline p.slave = true) :
      PollStepped p { p with position := .purgeTest } [.called true]
  | foundOnline (here : p.position = .offlineTest) (on : offline p.slave = false) :
      PollStepped p { p with position := .backoff } [.called false]
  | purged (here : p.position = .purgeTest) (empty : p.slave.msglist = []) :
      PollStepped p { p with position := .tickle } []
  | purging (here : p.position = .purgeTest) (some_left : p.slave.msglist ≠ []) :
      PollStepped p { p with position := .purgePop } []
  | purgePopped (here : p.position = .purgePop) (message : Bytes) (rest : List Bytes)
      (queue : p.slave.msglist = message :: rest) :
      PollStepped p { p with slave := { p.slave with msglist := rest }, position := .purgeTest }
        [.removed message true]
  | notDue (here : p.position = .tickle) (now : Timespec) (early : now.before p.slave.nextAssign = true) :
      PollStepped p { p with position := .idle } [.ended .notTime]
  | tickled (here : p.position = .tickle) (now : Timespec) (due : now.before p.slave.nextAssign = false) :
      PollStepped p { p with
        slave := { p.slave with nextAssign := nextTickle now }
        position := .transmit [OSDP_POLL] false } []
  | notYet (here : p.position = .backoff) (missed : 0 < p.slave.retry) (now nextPoll : Timespec)
      (set : p.slave.nextPoll = some nextPoll) (early : now.before nextPoll = true) :
      PollStepped p { p with position := .idle } [.ended .notTime]
  | backedOff (here : p.position = .backoff) (now : Timespec) (due : 0 < p.slave.retry →
        ∃ nextPoll, p.slave.nextPoll = some nextPoll ∧ now.before nextPoll = false) :
      PollStepped p { p with position := .emptyTest } []
  | foundEmpty (here : p.position = .emptyTest) (empty : p.slave.msglist = []) :
      PollStepped p { p with position := .transmit [OSDP_POLL] false } []
  | foundMessage (here : p.position = .emptyTest) (some_left : p.slave.msglist ≠ []) :
      PollStepped p { p with position := .front } []
  | fronted (here : p.position = .front) :
      PollStepped p { p with position := .transmit (front p.slave) true } []
  | flushFailed (payload : Bytes) (sendmsg : Bool) (here : p.position = .transmit payload sendmsg) :
      PollStepped p { p with position := .idle } [.ended (.exception "Failed to flush input buffer")]
  | transmitted (payload : Bytes) (sendmsg : Bool) (here : p.position = .transmit payload sendmsg)
      (t : Tick) (value : Int) (port : Protocol)
      (run : writecook t.now p.slave.addr.toNat p.slave.txseq.toNat payload
        { p.port with output := t.output } = .ok value port) :
      PollStepped p { p with port := port, position := .receive sendmsg }
        [.sent p.slave.txseq payload sendmsg]
  | transmitFailed (payload : Bytes) (sendmsg : Bool) (here : p.position = .transmit payload sendmsg)
      (t : Tick) (message : String) (port : Protocol)
      (run : writecook t.now p.slave.addr.toNat p.slave.txseq.toNat payload
        { p.port with output := t.output } = .error (.exception message) port) :
      PollStepped p { p with port := port, position := .idle }
        [.sent p.slave.txseq payload sendmsg, .ended (.exception message)]
  | overran (payload : Bytes) (sendmsg : Bool) (here : p.position = .transmit payload sendmsg)
      (t : Tick) (port : Protocol)
      (run : writecook t.now p.slave.addr.toNat p.slave.txseq.toNat payload
        { p.port with output := t.output } = .error .fault port) :
      PollStepped p { p with port := port, position := .fault } [.sent p.slave.txseq payload sendmsg]
  | received (sendmsg : Bool) (here : p.position = .receive sendmsg) (t : Tick) (size : Int)
      (port : Protocol) (run : readcook t.now t.stamp { p.port with input := t.input } = .ok size port) :
      PollStepped p
        { p with port := port, position := if size > 0 then .reply size sendmsg else .failed size }
        [.received size port.inBuffer.bytes]
  | receiveFailed (sendmsg : Bool) (here : p.position = .receive sendmsg) (t : Tick) (message : String)
      (port : Protocol)
      (run : readcook t.now t.stamp { p.port with input := t.input } = .error (.exception message) port) :
      PollStepped p { p with port := port, position := .idle } [.ended (.exception message)]
  | wrongAddress (size : Int) (sendmsg : Bool) (here : p.position = .reply size sendmsg)
      (addr : inByte p.port 1 &&& 0x7F ≠ p.slave.addr) :
      PollStepped p { p with position := .idle } [.ended .wrongAddress]
  | refused (size : Int) (sendmsg : Bool) (here : p.position = .reply size sendmsg)
      (addr : inByte p.port 1 &&& 0x7F = p.slave.addr)
      (unwilling : inByte p.port 5 = OSDP_NAK ∨ inByte p.port 5 = OSDP_BUSY) :
      PollStepped p { p with
        slave := refused (noteSeq p.slave (inByte p.port 4 &&& 0x03)) (inByte p.port 5)
          (inByte p.port 4 &&& 0x03)
        position := .idle }
        [.ended (if inByte p.port 5 = OSDP_NAK then .nak else .busy)]
  | accepted (size : Int) (sendmsg : Bool) (here : p.position = .reply size sendmsg)
      (addr : inByte p.port 1 &&& 0x7F = p.slave.addr)
      (willing : ¬(inByte p.port 5 = OSDP_NAK ∨ inByte p.port 5 = OSDP_BUSY)) :
      PollStepped p { p with
        slave := (ack (noteSeq p.slave (inByte p.port 4 &&& 0x03))).1
        position := if sendmsg then .pop size else .publish size }
        (.accepted :: (ack (noteSeq p.slave (inByte p.port 4 &&& 0x03))).2.map .published)
  | popped (size : Int) (here : p.position = .pop size) (message : Bytes) (rest : List Bytes)
      (queue : p.slave.msglist = message :: rest) :
      PollStepped p { p with slave := { p.slave with msglist := rest }, position := .publish size }
        [.removed message false]
  | handedOn (size : Int) (here : p.position = .publish size) (news : inByte p.port 5 ≠ OSDP_ACK) :
      PollStepped p { p with position := .idle } [.published (incoming size p.port), .ended .replied]
  | replied (size : Int) (here : p.position = .publish size) (mundane : inByte p.port 5 = OSDP_ACK) :
      PollStepped p { p with position := .idle } [.ended .replied]
  | missed (size : Int) (here : p.position = .failed size) (now : Timespec) :
      PollStepped p { countError p size with slave := (nak p.slave now).1, position := .idle }
        ((nak p.slave now).2.map .published ++ [.ended (.failed size)])
  | faulted (here : p.position = .purgePop ∧ p.slave.msglist = [] ∨
        p.position = .backoff ∧ 0 < p.slave.retry ∧ p.slave.nextPoll = none ∨
        ∃ size, p.position = .pop size ∧ p.slave.msglist = []) :
      PollStepped p { p with position := .fault } []

section Inversion

variable {p p' : Poll} {t : Tick} {events : List Event}

theorem transmit_stepped {payload : Bytes} {sendmsg : Bool} (here : p.position = .transmit payload sendmsg)
    (stepped : transmit p t payload sendmsg = some (p', events)) : PollStepped p p' events := by
  simp only [transmit] at stepped
  cases flushes : t.flushes with
  | false =>
    simp only [flushes, Bool.not_false, if_true, Poll.leave] at stepped
    cases stepped
    exact .flushFailed payload sendmsg here
  | true =>
    simp only [flushes, Bool.not_true, Bool.false_eq_true, if_false] at stepped
    split at stepped
    next value port run =>
      cases stepped
      exact .transmitted payload sendmsg here t value port run
    next message port run =>
      cases stepped
      exact .transmitFailed payload sendmsg here t message port run
    next port run =>
      cases stepped
      exact .overran payload sendmsg here t port run
    · cases stepped

theorem receive_stepped {sendmsg : Bool} (here : p.position = .receive sendmsg)
    (stepped : receive p t sendmsg = some (p', events)) : PollStepped p p' events := by
  simp only [receive] at stepped
  split at stepped
  next size port run =>
    cases stepped
    exact .received sendmsg here t size port run
  next message port run =>
    cases stepped
    exact .receiveFailed sendmsg here t message port run
  next port run =>
    have faulted := (ReadSpec.readcook_ends _ t.now t.stamp).of_error run
    exact absurd faulted.1 id
  · cases stepped

theorem reply_stepped {size : Int} {sendmsg : Bool} (here : p.position = .reply size sendmsg)
    (stepped : reply p size sendmsg = some (p', events)) : PollStepped p p' events := by
  simp only [reply] at stepped
  split at stepped
  next addr =>
    cases stepped
    exact .wrongAddress size sendmsg here addr
  next addr =>
    have addr' : inByte p.port 1 &&& 0x7F = p.slave.addr := not_not.mp addr
    split at stepped
    next unwilling =>
      cases stepped
      exact .refused size sendmsg here addr' unwilling
    next willing =>
      cases stepped
      exact .accepted size sendmsg here addr' willing

theorem backoff_stepped {now : Timespec} (here : p.position = .backoff)
    (stepped : backoff p now = some (p', events)) : PollStepped p p' events := by
  simp only [backoff] at stepped
  split at stepped
  next missed =>
    split at stepped
    next unset =>
      cases stepped
      exact .faulted (Or.inr (Or.inl ⟨here, missed, unset⟩))
    next nextPoll set =>
      split at stepped
      next early =>
        cases stepped
        exact .notYet here missed now nextPoll set early
      next due =>
        cases stepped
        exact .backedOff here now (fun _ => ⟨nextPoll, set, by simpa using due⟩)
  next fresh =>
    cases stepped
    exact .backedOff here now (fun missed => absurd missed fresh)

theorem pollStep_stepped (stepped : pollStep p t = some (p', events)) : PollStepped p p' events := by
  unfold pollStep at stepped
  split at stepped
  next here => cases stepped
  next here =>
    cases stepped
    cases off : offline p.slave with
    | true => simpa using PollStepped.foundOffline here off
    | false => simpa using PollStepped.foundOnline here off
  next here =>
    cases stepped
    by_cases empty : p.slave.msglist = []
    · simpa only [if_pos empty] using PollStepped.purged here empty
    · simpa only [if_neg empty] using PollStepped.purging here empty
  next here =>
    simp only [popMessage] at stepped
    split at stepped
    next empty =>
      cases stepped
      exact .faulted (Or.inl ⟨here, empty⟩)
    next message rest queue =>
      cases stepped
      exact .purgePopped here message rest queue
  next here =>
    split at stepped
    next early =>
      cases stepped
      exact .notDue here t.now early
    next due =>
      cases stepped
      exact .tickled here t.now (by simpa using due)
  next here => exact backoff_stepped here stepped
  next here =>
    cases stepped
    by_cases empty : p.slave.msglist = []
    · simpa only [if_pos empty] using PollStepped.foundEmpty here empty
    · simpa only [if_neg empty] using PollStepped.foundMessage here empty
  next here =>
    cases stepped
    exact .fronted here
  next payload sendmsg here => exact transmit_stepped here stepped
  next sendmsg here => exact receive_stepped here stepped
  next size sendmsg here => exact reply_stepped here stepped
  next size here =>
    simp only [popMessage] at stepped
    split at stepped
    next empty =>
      cases stepped
      exact .faulted (Or.inr (Or.inr ⟨size, here, empty⟩))
    next message rest queue =>
      cases stepped
      exact .popped size here message rest queue
  next size here =>
    split at stepped
    next news =>
      cases stepped
      exact .handedOn size here news
    next mundane =>
      cases stepped
      exact .replied size here (not_not.mp mundane)
  next size here =>
    cases stepped
    exact .missed size here t.now
  next here => cases stepped

theorem PollStepped.settings_eq (stepped : PollStepped p p' events) :
    ProtocolKept.settings p'.port = ProtocolKept.settings p.port := by
  cases stepped with
  | transmitted payload sendmsg here t value port run =>
    have kept := (ProtocolKept.writecook_keeps _ _ _ _).of_ok run
    exact kept
  | transmitFailed payload sendmsg here t message port run =>
    have kept := (ProtocolKept.writecook_keeps _ _ _ _).of_error run
    exact kept
  | overran payload sendmsg here t port run =>
    have kept := (ProtocolKept.writecook_keeps _ _ _ _).of_error run
    exact kept
  | received sendmsg here t size port run =>
    have kept := (ProtocolKept.readcook_keeps _ _).of_ok run
    exact kept
  | receiveFailed sendmsg here t message port run =>
    have kept := (ProtocolKept.readcook_keeps _ _).of_error run
    exact kept
  | missed size here now =>
    simp only [countError]
    split
    · rfl
    · split <;> rfl
  | _ => rfl

theorem PollStepped.not_ended (stepped : PollStepped p p' events) (goes_on : p'.position ≠ .idle)
    (ending : Ending) : .ended ending ∉ events := by
  cases stepped with
  | accepted size sendmsg here addr willing => simp
  | _ => first | exact absurd rfl goes_on | simp

theorem reopen_eq (going : ∀ ending, .ended ending ∉ events) (port : Protocol) :
    reopen events port = port := by
  unfold reopen
  rw [if_neg]
  simp only [List.any_eq_true, not_exists, not_and]
  intro event member threw
  split at threw
  · exact going _ member
  · cases threw

theorem reopen_settings (events : List Event) (port : Protocol) :
    ProtocolKept.settings (reopen events port) = ProtocolKept.settings port := by
  unfold reopen
  split <;> rfl

end Inversion

section System

/-- What happens to one slave: a call begins for it, with the port as other calls have left it; the
call takes its next step; a message comes in. -/
inductive Move
  | call (port : Protocol) (crcCount timeoutCount : Nat)
  | poll (t : Tick)
  | message (components : List Bytes) (payload : Bytes)

def slaveStep (config : SerialConfig) (p : Poll) : Move → Outcome
  | .call port crcCount timeoutCount =>
    if p.position = .idle ∧ pollable p.slave = true ∧ ProtocolKept.settings port = (config, 0xFF) then
      some (⟨p.slave, port, crcCount, timeoutCount, .offlineTest⟩, [])
    else none
  | .poll t => pollStep p t
  | .message components payload =>
    some ({ p with slave := (deliver p.slave components payload).1 },
      (deliver p.slave components payload).2)

def slaveSystem (config : SerialConfig) (text : Bytes) : System Poll Move Event where
  start := ⟨addSlave text, Protocol.construct config, 0, 0, .idle⟩
  startup := [.published (declareOnline (addSlave text) false)]
  step := slaveStep config

/-- An invariant of a slave's runs, from what the three kinds of move keep. -/
theorem slaveRun_invariant {config : SerialConfig} {text : Bytes} {ok : Poll → List Event → Move → Prop}
    {I : Poll → List Event → Prop}
    (start : I (slaveSystem config text).start (slaveSystem config text).startup)
    (called : ∀ p history port crcCount timeoutCount, p.position = .idle → I p history →
      I ⟨p.slave, port, crcCount, timeoutCount, .offlineTest⟩ history)
    (polled : ∀ p history t p' events, Run (slaveSystem config text) ok p history →
      ok p history (.poll t) → pollStep p t = some (p', events) → I p history → I p' (history ++ events))
    (told : ∀ p history components payload, Run (slaveSystem config text) ok p history →
      ok p history (.message components payload) → I p history →
      I { p with slave := (deliver p.slave components payload).1 }
        (history ++ (deliver p.slave components payload).2))
    {p : Poll} {history : List Event} (run : Run (slaveSystem config text) ok p history) : I p history := by
  apply Run.invariant start _ run
  intro p history move p' events run holds allowed stepped
  cases move with
  | call port crcCount timeoutCount =>
    simp only [slaveSystem, slaveStep] at stepped
    split at stepped
    next ready =>
      cases stepped
      rw [List.append_nil]
      exact called p history port crcCount timeoutCount ready.1 holds
    · cases stepped
  | poll t => exact polled p history t p' events run allowed stepped holds
  | message components payload =>
    cases stepped
    exact told p history components payload run allowed holds

/-- The part of the master's state that concerns the slave at index `i`. -/
structure Follows (config : SerialConfig) (i : Nat) (master : Master) (p : Poll) : Prop where
  slave : master.slaves[i]? = some p.slave
  position : p.position = if master.pollSlave = i then master.position else .idle
  busy : p.position ≠ .idle → p.port = master.port ∧ p.crcCount = master.crcCount ∧
    p.timeoutCount = master.timeoutCount
  settings : ProtocolKept.settings master.port = (config, 0xFF)

def Behind (i : Nat) (master : Master) (action : Action) : Move → Prop
  | .call _ _ _ => True
  | .poll t => action = .poll t ∧ master.pollSlave = i
  | .message components payload =>
    ∃ topic, action = .message topic payload ∧ route master.slaves topic = some (components, some i)

theorem mem_eventsOf {i : Nat} {event : Event} {events : List (Nat × Event)} :
    event ∈ eventsOf i events ↔ (i, event) ∈ events := by
  simp [eventsOf]

theorem eventsOf_append (i : Nat) (first second : List (Nat × Event)) :
    eventsOf i (first ++ second) = eventsOf i first ++ eventsOf i second := List.filterMap_append

theorem eventsOf_tagged (i : Nat) (events : List Event) :
    eventsOf i (events.map (fun event => (i, event))) = events := by
  simp [eventsOf, List.filterMap_map]

theorem eventsOf_other {i j : Nat} (other : j ≠ i) (events : List Event) :
    eventsOf i (events.map (fun event => (j, event))) = [] := by
  simp [eventsOf, List.filterMap_map, other]

variable {config : SerialConfig} {i : Nat} {master master' : Master} {p : Poll}
  {events : List (Nat × Event)}

theorem select_follows (follows : Follows config i master p) (idle : master.position = .idle)
    (stepped : select master = some (master', events)) :
    events = [] ∧ (Follows config i master' p ∨
      ∃ p' port crcCount timeoutCount, Follows config i master' p' ∧
        slaveStep config p (.call port crcCount timeoutCount) = some (p', [])) := by
  have still : p.position = .idle := by
    rw [follows.position, idle, ite_self]
  simp only [select] at stepped
  split at stepped
  · cases stepped
  next slave selected =>
    cases stepped
    refine ⟨rfl, ?_⟩
    generalize nextSlave master.slaves master.pollSlave master.slaves.length master.pollSlave = a at *
    by_cases here : a = i ∧ pollable slave = true
    · obtain ⟨same, ready⟩ := here
      subst same
      have slave_eq : slave = p.slave := Option.some.inj (selected.symm.trans follows.slave)
      rw [slave_eq] at ready
      refine Or.inr ⟨⟨p.slave, master.port, master.crcCount, master.timeoutCount, .offlineTest⟩,
        master.port, master.crcCount, master.timeoutCount, ⟨follows.slave, ?_, ?_, follows.settings⟩, ?_⟩
      · simp [slave_eq, ready]
      · exact fun _ => ⟨rfl, rfl, rfl⟩
      · simp only [slaveStep, still, ready, follows.settings, and_self, if_true]
    · refine Or.inl ⟨follows.slave, ?_, fun busy => absurd still busy, follows.settings⟩
      rw [still]
      by_cases same : a = i
      · have unready : pollable slave = false := by simpa [same] using here
        simp [unready]
      · simp [same]

theorem pollSelected_follows {t : Tick} (follows : Follows config i master p)
    (busy : master.position ≠ .idle) (stepped : pollSelected master t = some (master', events)) :
    master.pollSlave ≠ i ∧ eventsOf i events = [] ∧ Follows config i master' p ∨
      ∃ p', master.pollSlave = i ∧ Follows config i master' p' ∧
        pollStep p t = some (p', eventsOf i events) := by
  simp only [pollSelected] at stepped
  split at stepped
  · cases stepped
  next slave selected =>
    split at stepped
    · cases stepped
    next p' own step =>
      cases stepped
      have kept := (pollStep_stepped step).settings_eq
      by_cases here : master.pollSlave = i
      · rw [here] at selected ⊢
        have slave_eq : slave = p.slave := Option.some.inj (selected.symm.trans follows.slave)
        have position : p.position = master.position := by rw [follows.position, if_pos here]
        obtain ⟨port, crcCount, timeoutCount⟩ := follows.busy (position ▸ busy)
        have same : (⟨slave, master.port, master.crcCount, master.timeoutCount, master.position⟩ : Poll) = p := by
          rw [slave_eq, ← port, ← crcCount, ← timeoutCount, ← position]
        rw [same] at step kept
        refine Or.inr ⟨p', rfl, ⟨?_, ?_, ?_, ?_⟩, by rw [eventsOf_tagged]; exact step⟩
        · obtain ⟨inside, _⟩ := List.getElem?_eq_some_iff.mp selected
          simp [inside]
        · simp
        · intro goes_on
          have going := (pollStep_stepped step).not_ended goes_on
          exact ⟨(reopen_eq going p'.port).symm, rfl, rfl⟩
        · rw [reopen_settings, kept, port]
          exact follows.settings
      · refine Or.inl ⟨here, eventsOf_other here own, ?_, ?_, ?_, ?_⟩
        · simp only [List.getElem?_set_ne here]
          exact follows.slave
        · simpa [here] using follows.position
        · intro still_busy
          rw [follows.position, if_neg here] at still_busy
          exact absurd rfl still_busy
        · rw [reopen_settings, kept]
          exact follows.settings

theorem messageCallback_follows {topic payload : Bytes} (follows : Follows config i master p)
    (stepped : messageCallback master topic payload = some (master', events)) :
    eventsOf i events = [] ∧ Follows config i master' p ∨
      ∃ p' components, route master.slaves topic = some (components, some i) ∧
        Follows config i master' p' ∧
        slaveStep config p (.message components payload) = some (p', eventsOf i events) := by
  simp only [messageCallback] at stepped
  split at stepped
  · cases stepped
  · cases stepped
    exact Or.inl ⟨rfl, follows⟩
  next components j routed =>
    split at stepped
    · cases stepped
    next slave selected =>
      cases stepped
      by_cases here : j = i
      · subst here
        have slave_eq : slave = p.slave := Option.some.inj (selected.symm.trans follows.slave)
        subst slave_eq
        refine Or.inr ⟨{ p with slave := (deliver p.slave components payload).1 }, components, routed,
          ⟨?_, follows.position, follows.busy, follows.settings⟩, ?_⟩
        · obtain ⟨inside, _⟩ := List.getElem?_eq_some_iff.mp selected
          simp [inside]
        · rw [eventsOf_tagged]
          rfl
      · refine Or.inl ⟨eventsOf_other here _, ?_, follows.position, follows.busy, follows.settings⟩
        simp only [List.getElem?_set_ne here]
        exact follows.slave

theorem step_follows {action : Action} (follows : Follows config i master p)
    (stepped : step master action = some (master', events)) :
    eventsOf i events = [] ∧ Follows config i master' p ∨
      ∃ p' move, Follows config i master' p' ∧ Behind i master action move ∧
        slaveStep config p move = some (p', eventsOf i events) := by
  cases action with
  | poll t =>
    simp only [step] at stepped
    split at stepped
    next idle =>
      obtain ⟨quiet, still | ⟨p', port, crcCount, timeoutCount, follows', called⟩⟩ :=
        select_follows follows idle stepped
      · exact Or.inl ⟨by rw [quiet]; rfl, still⟩
      · refine Or.inr ⟨p', .call port crcCount timeoutCount, follows', trivial, ?_⟩
        rw [called, quiet]
        rfl
    next busy =>
      rcases pollSelected_follows follows busy stepped with ⟨_, still⟩ | ⟨p', here, follows', polled⟩
      · exact Or.inl still
      · exact Or.inr ⟨p', .poll t, follows', ⟨rfl, here⟩, polled⟩
  | message topic payload =>
    rcases messageCallback_follows follows stepped with still | ⟨p', components, routed, follows', told⟩
    · exact Or.inl still
    · exact Or.inr ⟨p', .message components payload, follows', ⟨topic, rfl, routed⟩, told⟩

theorem startup_from (texts : List Bytes) (first i : Nat) (late : first ≤ i) :
    eventsOf i ((texts.zipIdx first).map (fun numbered =>
      (numbered.2, .published (declareOnline (addSlave numbered.1) false)))) =
    (texts[i - first]?.map (fun text =>
      Event.published (declareOnline (addSlave text) false))).toList := by
  induction texts generalizing first with
  | nil => rfl
  | cons text texts ih =>
    rw [List.zipIdx_cons, List.map_cons]
    by_cases here : first = i
    · subst here
      have rest : eventsOf first ((texts.zipIdx (first + 1)).map (fun numbered =>
          (numbered.2, Event.published (declareOnline (addSlave numbered.1) false)))) = [] := by
        simp only [eventsOf, List.filterMap_map, List.filterMap_eq_nil_iff]
        intro numbered member
        have later := (List.mem_zipIdx member).1
        simp only [Function.comp_apply, ite_eq_right_iff, reduceCtorEq, imp_false]
        omega
      simp only [eventsOf, List.filterMap_cons] at rest ⊢
      simp [rest]
    · have shift : i - first = i - (first + 1) + 1 := by omega
      rw [shift, List.getElem?_cons_succ, ← ih (first + 1) (by omega)]
      simp [eventsOf, here]

/-- Every run of the master is a run of each of its slaves. -/
theorem run_follows {texts : List Bytes} {text : Bytes} (there : texts[i]? = some text)
    {ok : Master → List (Nat × Event) → Action → Prop} {ok' : Poll → List Event → Move → Prop}
    (implied : ∀ master p history action move, Follows config i master p → ok master history action →
      Behind i master action move → ok' p (eventsOf i history) move)
    {history : List (Nat × Event)} (run : Run (bus config texts) ok master history) :
    ∃ p, Follows config i master p ∧ Run (slaveSystem config text) ok' p (eventsOf i history) := by
  have start : Follows config i (bus config texts).start (slaveSystem config text).start := by
    refine ⟨?_, (ite_self _).symm, fun busy => absurd rfl busy, rfl⟩
    simp [bus, slaveSystem, there]
  have startup : eventsOf i (bus config texts).startup = (slaveSystem config text).startup := by
    have first := startup_from texts 0 i (Nat.zero_le i)
    rw [Nat.sub_zero, there] at first
    exact first
  apply Run.simulated start startup _ run
  intro master p history action master' events follows _ allowed stepped
  rcases step_follows follows stepped with ⟨quiet, still⟩ | ⟨p', move, follows', behind, moved⟩
  · exact Or.inl ⟨still, quiet⟩
  · exact Or.inr ⟨p', move, follows', implied _ _ _ _ _ follows allowed behind, moved⟩

theorem run_slave {texts : List Bytes} {text : Bytes} (there : texts[i]? = some text)
    {history : List (Nat × Event)} (run : Run (bus config texts) free master history) :
    ∃ p, Follows config i master p ∧ Run (slaveSystem config text) free p (eventsOf i history) :=
  run_follows there (fun _ _ _ _ _ _ _ _ => trivial) run

end System

end OsdpMaster.SlaveRun
