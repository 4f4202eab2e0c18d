import OsdpMaster.SlaveRun

/-!
The retained status of a slave against its state. `ack` and `nak` publish each
change of `offline()`; the control branch of `message_for_slave` publishes what
it takes the state to be.
-/

namespace OsdpMaster.Status
open OsdpMaster.Protocol OsdpMaster.Slave OsdpMaster.SlavePoll OsdpMaster.SlaveRun
open OsdpMaster.Bus OsdpMaster.Split OsdpMaster.Lib.Trace

def statusOf (slave : OsdpSlave) : Bytes :=
  if slave.enabled then (if offline slave then ascii "OFFLINE" else ascii "ONLINE") else ascii "DISABLED"

def statusIn : Event → Option Bytes
  | .published publication => if publication.retain then some publication.payload else none
  | _ => none

def lastStatus (history : List Event) : Option Bytes := history.reverse.findSome? statusIn

theorem lastStatus_append (history events : List Event) :
    lastStatus (history ++ events) = (lastStatus events).or (lastStatus history) := by
  rw [lastStatus, List.reverse_append, List.findSome?_append]
  rfl

/-- A control message whose answer will be right: it disables; or it enables a slave that is not
offline; or it is any other text for a slave that is disabled. -/
def Fitting (slave : OsdpSlave) (cmd : Bytes) : Prop :=
  cmd = ascii "DISABLE" ∨ cmd = ascii "ENABLE" ∧ offline slave = false ∨
    cmd ≠ ascii "ENABLE" ∧ slave.enabled = false

instance (slave : OsdpSlave) (cmd : Bytes) : Decidable (Fitting slave cmd) :=
  inferInstanceAs (Decidable (_ ∨ _ ∧ _ ∨ _ ∧ _))

section Operations

variable {slave : OsdpSlave}

theorem statusOf_eq (slave : OsdpSlave) : statusOf slave = statusValue slave.enabled (!offline slave) := by
  unfold statusOf statusValue
  cases slave.enabled with
  | false => rfl
  | true => cases offline slave <;> rfl

theorem declareOnline_status (slave : OsdpSlave) (tf : Bool) :
    lastStatus [.published (declareOnline slave tf)] = some (statusValue slave.enabled tf) := rfl

/-- `declare_online` is right for a disabled slave, or if its argument says what `offline()` denies. -/
theorem declareOnline_iff (slave : OsdpSlave) (tf : Bool) :
    lastStatus [.published (declareOnline slave tf)] = some (statusOf slave) ↔
      slave.enabled = false ∨ tf = !offline slave := by
  rw [declareOnline_status, statusOf_eq, Option.some.injEq]
  generalize offline slave = off
  cases slave.enabled with
  | false => simp [statusValue]
  | true => cases tf <;> cases off <;> decide

/-- What an operation publishes says the new state, or it publishes nothing and keeps the state. -/
def Announces (before after : OsdpSlave) (events : List Event) : Prop :=
  lastStatus events = some (statusOf after) ∨ lastStatus events = none ∧ statusOf after = statusOf before

theorem Announces.agrees {before after : OsdpSlave} {history events : List Event}
    (announces : Announces before after events) (agrees : lastStatus history = some (statusOf before)) :
    lastStatus (history ++ events) = some (statusOf after) := by
  rw [lastStatus_append]
  rcases announces with told | ⟨silent, same⟩
  · rw [told]
    rfl
  · rw [silent, same]
    exact agrees

theorem ack_announces (slave : OsdpSlave) :
    Announces slave (ack slave).1 ((ack slave).2.map .published) := by
  have online : offline (ack slave).1 = false := rfl
  have enabled : (ack slave).1.enabled = slave.enabled := rfl
  rw [Announces, statusOf_eq, online, enabled, ack_published]
  cases off : offline slave with
  | true =>
    exact Or.inl rfl
  | false =>
    rw [statusOf_eq, off]
    exact Or.inr ⟨rfl, rfl⟩

theorem nak_announces (slave : OsdpSlave) (now : Timespec) :
    Announces slave (nak slave now).1 ((nak slave now).2.map .published) := by
  cases off : offline slave with
  | true =>
    rw [nak_offline off]
    exact Or.inr ⟨rfl, rfl⟩
  | false =>
    rw [nak, if_neg (Bool.eq_false_iff.mp off)]
    dsimp only
    split
    next gone =>
      refine Or.inl ((declareOnline_iff _ _).mpr (Or.inr ?_))
      rw [gone]
      rfl
    next still =>
      refine Or.inr ⟨rfl, ?_⟩
      have on : offline { slave with retry := slave.retry + 1, nextPoll := some (pollAfter now) } = false :=
        Bool.eq_false_iff.mpr still
      rw [statusOf_eq, statusOf_eq, off, on]

theorem control_status (slave : OsdpSlave) (cmd : Bytes) :
    lastStatus ((Slave.control slave cmd).2.map .published) = some (statusOf (Slave.control slave cmd).1) ↔
      Fitting slave cmd := by
  simp only [Slave.control, Fitting]
  by_cases disable : cmd = ascii "DISABLE"
  · rw [if_pos disable, List.map_singleton, declareOnline_iff]
    exact iff_of_true (Or.inl rfl) (Or.inl disable)
  · by_cases enable : cmd = ascii "ENABLE"
    · rw [if_neg disable, if_pos enable, List.map_singleton, declareOnline_iff]
      have still : offline { slave with enabled := true } = offline slave := rfl
      have other : ascii "ENABLE" ≠ ascii "DISABLE" := by decide
      rw [still]
      cases offline slave <;> simp [enable, other]
    · rw [if_neg disable, if_neg enable, List.map_singleton, declareOnline_iff]
      cases offline slave <;> simp [disable, enable]

end Operations

section Steps

variable {p p' : Poll} {history events : List Event}

theorem announces_poll (stepped : PollStepped p p' events) : Announces p.slave p'.slave events := by
  cases stepped with
  | refused size sendmsg here addr unwilling =>
    obtain ⟨rxseq, noted⟩ := noteSeq_slave p.slave (inByte p.port 4 &&& 0x03)
    rw [noted]
    exact Or.inr ⟨rfl, rfl⟩
  | accepted size sendmsg here addr willing =>
    obtain ⟨rxseq, noted⟩ := noteSeq_slave p.slave (inByte p.port 4 &&& 0x03)
    have announces := ack_announces { p.slave with rxseq := rxseq }
    rw [noted, ← List.singleton_append, Announces, lastStatus_append]
    rw [show lastStatus [Event.accepted] = none from rfl, Option.or_none]
    exact announces
  | missed size here now =>
    have announces := nak_announces p.slave now
    rw [Announces, lastStatus_append]
    rw [show lastStatus [Event.ended (.failed size)] = none from rfl, Option.none_or]
    exact announces
  | _ => exact Or.inr ⟨rfl, rfl⟩

theorem announces_message {slave : OsdpSlave} {components : List Bytes} {payload : Bytes}
    (fitting : isControl components = true → Fitting slave payload) :
    Announces slave (deliver slave components payload).1 (deliver slave components payload).2 := by
  cases control : isControl components with
  | true =>
    rw [deliver_control control]
    exact Or.inl ((control_status slave payload).mpr (fitting control))
  | false =>
    simp only [deliver, messageForSlave, control, Bool.false_eq_true, if_false]
    split
    · exact Or.inr ⟨rfl, rfl⟩
    · exact Or.inr ⟨rfl, rfl⟩

end Steps

def Fits (master : Master) (_ : List (Nat × Event)) : Action → Prop
  | .poll _ => True
  | .message topic payload => ∀ routed ∈ route master.slaves topic, ∀ i ∈ routed.2,
    ∀ slave ∈ master.slaves[i]?, isControl routed.1 = true → Fitting slave payload

instance (master : Master) (history : List (Nat × Event)) : ∀ action, Decidable (Fits master history action)
  | .poll _ => isTrue trivial
  | .message topic payload => inferInstanceAs (Decidable (∀ routed ∈ route master.slaves topic,
      ∀ i ∈ routed.2, ∀ slave ∈ master.slaves[i]?, isControl routed.1 = true → Fitting slave payload))

def FitsMove (p : Poll) (_ : List Event) : Move → Prop
  | .message components payload => isControl components = true → Fitting p.slave payload
  | _ => True

theorem fits_behind {config : SerialConfig} {i : Nat} {master : Master} {p : Poll}
    {history : List (Nat × Event)} {action : Action} {move : Move} (follows : Follows config i master p)
    (fits : Fits master history action) (behind : Behind i master action move) :
    FitsMove p (eventsOf i history) move := by
  cases move with
  | message components payload =>
    obtain ⟨topic, action_eq, routed⟩ := behind
    subst action_eq
    exact fits _ routed i rfl p.slave follows.slave
  | call port crcCount timeoutCount => trivial
  | poll t => trivial

theorem status_run {config : SerialConfig} {text : Bytes} {p : Poll} {history : List Event}
    (run : Run (slaveSystem config text) FitsMove p history) :
    lastStatus history = some (statusOf p.slave) := by
  apply slaveRun_invariant (I := fun p history => lastStatus history = some (statusOf p.slave)) _ _ _ _ run
  · exact (declareOnline_iff (addSlave text) false).mpr (Or.inr rfl)
  · intro p history port crcCount timeoutCount _ agrees
    exact agrees
  · intro p history t p' events _ _ stepped agrees
    exact (announces_poll (pollStep_stepped stepped)).agrees agrees
  · intro p history components payload _ fitting agrees
    exact (announces_message fitting).agrees agrees

/-- While control messages fit, the last status of a slave is the right one in every state of a run;
and after one that does not fit, it is wrong. -/
theorem status_agrees (config : SerialConfig) (texts : List Bytes) (i : Nat) (text : Bytes)
    (configured : texts[i]? = some text) (master : Master) (history : List (Nat × Event)) :
    (Run (bus config texts) Fits master history →
      ∃ slave, master.slaves[i]? = some slave ∧ lastStatus (eventsOf i history) = some (statusOf slave)) ∧
    (Run (bus config texts) free master history → ∀ topic components payload slave master' events,
      route master.slaves topic = some (components, some i) → master.slaves[i]? = some slave →
      isControl components = true → ¬Fitting slave payload →
      step master (.message topic payload) = some (master', events) →
      ∃ slave', master'.slaves[i]? = some slave' ∧
        lastStatus (eventsOf i (history ++ events)) ≠ some (statusOf slave')) := by
  refine ⟨?_, ?_⟩
  · intro run
    obtain ⟨p, follows, slaveRun⟩ := run_follows configured
      (fun _ _ _ _ _ follows fits behind => fits_behind follows fits behind) run
    exact ⟨p.slave, follows.slave, status_run slaveRun⟩
  · intro run topic components payload slave master' events routed there control unfit stepped
    simp only [step, messageCallback, routed, there, deliver_control control] at stepped
    cases stepped
    obtain ⟨inside, _⟩ := List.getElem?_eq_some_iff.mp there
    refine ⟨(Slave.control slave payload).1, by simp [inside], ?_⟩
    obtain ⟨tf, only⟩ := control_published slave payload
    have told : lastStatus ((Slave.control slave payload).2.map .published) =
        some (statusValue (Slave.control slave payload).1.enabled tf) := by
      rw [only, List.map_singleton, declareOnline_status]
    rw [eventsOf_append, eventsOf_tagged, lastStatus_append, told, Option.some_or, ← told]
    exact fun right => unfit ((control_status slave payload).mp right)

theorem status_agrees_enabled :
    ∃ master history slave, Run (bus plainPort [ascii "5"]) Fits master history ∧
      master.slaves[0]? = some slave ∧ lastStatus (eventsOf 0 history) = some (statusOf slave) ∧
      statusOf slave = ascii "ONLINE" := by
  have checked : (replay (bus plainPort [ascii "5"]) Fits (bus plainPort [ascii "5"]).start
      (bus plainPort [ascii "5"]).startup
      (polls 8 ⟨0, 0⟩ [.data ackReply] ++
        [.message (ascii "osdp/bus1/outgoing/5/control") (ascii "DISABLE"),
          .message (ascii "osdp/bus1/outgoing/5/control") (ascii "STATUS"),
          .message (ascii "osdp/bus1/outgoing/5/control") (ascii "ENABLE")])).any (fun reached =>
        lastStatus (eventsOf 0 reached.2) == some (ascii "ONLINE")) = true := by
    decide +kernel
  obtain ⟨master, history, run, online⟩ := exists_run checked
  obtain ⟨slave, there, agrees⟩ :=
    (status_agrees plainPort [ascii "5"] 0 (ascii "5") rfl master history).1 run
  have status : some (statusOf slave) = some (ascii "ONLINE") := agrees.symm.trans (beq_iff_eq.mp online)
  exact ⟨master, history, slave, run, there, agrees, Option.some.inj status⟩

/-- A slave that has never answered is enabled, and declared online. -/
theorem status_disagrees :
    ¬∀ (master : Master) (history : List (Nat × Event)) (slave : OsdpSlave),
      Run (bus plainPort [ascii "5"]) free master history → master.slaves[0]? = some slave →
      lastStatus (eventsOf 0 history) = some (statusOf slave) := by
  intro always
  have checked : (replay (bus plainPort [ascii "5"]) free (bus plainPort [ascii "5"]).start
      (bus plainPort [ascii "5"]).startup
      [.message (ascii "osdp/bus1/outgoing/5/control") (ascii "ENABLE")]).any (fun reached =>
        reached.1.slaves.any (fun slave => lastStatus (eventsOf 0 reached.2) != some (statusOf slave)) &&
        reached.1.slaves.length == 1) = true := by
    decide +kernel
  obtain ⟨master, history, run, reached⟩ := exists_run checked
  simp only [Bool.and_eq_true, beq_iff_eq] at reached
  obtain ⟨differs, one⟩ := reached
  obtain ⟨slave, slaves⟩ := List.length_eq_one_iff.mp one
  have agrees := always master history slave run (by rw [slaves]; rfl)
  simp [slaves, agrees] at differs

end OsdpMaster.Status
