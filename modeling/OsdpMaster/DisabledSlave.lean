import OsdpMaster.DeliveryProgress

/-!
What becomes of a slave that is disabled. A call that runs may still come to its
end; after that nothing goes out to the slave and no message for it is taken,
until a control message for it comes in.
-/

namespace OsdpMaster.DisabledSlave
open OsdpMaster.Protocol OsdpMaster.Slave OsdpMaster.SlavePoll OsdpMaster.SlaveRun OsdpMaster.QueueHistory
open OsdpMaster.Bus OsdpMaster.BusStep OsdpMaster.Split OsdpMaster.DeliveryProgress OsdpMaster.Lib.Trace
open OsdpMaster.CommandDelivery (sends)
open OsdpMaster.Retransmission (sentBy)
open OsdpMaster.RetryBound (current)

section Calls

def isEnd : Event → Bool
  | .ended _ => true
  | _ => false

/-- A call runs that is still to end. -/
def toEnd : Position → Nat
  | .idle | .fault => 0
  | _ => 1

def toSend : Position → Nat
  | .idle | .fault | .receive _ | .reply _ _ | .pop _ | .publish _ | .failed _ => 0
  | _ => 1

theorem toEnd_le (position : Position) : toEnd position ≤ 1 := by
  cases position <;> simp [toEnd]

theorem toSend_le (position : Position) : toSend position ≤ 1 := by
  cases position <;> simp [toSend]

@[simp] theorem countP_published (publications : List Publication) :
    (publications.map Event.published).countP isEnd = 0 ∧ sends (publications.map .published) = 0 := by
  constructor
  · rw [List.countP_map]
    exact List.countP_eq_zero.mpr fun _ _ => Bool.false_ne_true
  · rw [sends, List.countP_map]
    exact List.countP_eq_zero.mpr fun _ _ => Bool.false_ne_true

theorem sends_append (first second : List Event) : sends (first ++ second) = sends first + sends second :=
  List.countP_append

variable {p p' : Poll} {own : List Event}

theorem spends_poll (stepped : PollStepped p p' own) :
    p'.slave.enabled = p.slave.enabled ∧ own.countP isEnd + toEnd p'.position ≤ toEnd p.position ∧
      sends own + toSend p'.position ≤ toSend p.position := by
  cases stepped with
  | accepted size sendmsg here addr willing =>
    obtain ⟨rxseq, noted⟩ := noteSeq_slave p.slave (inByte p.port 4 &&& 0x03)
    have none_ended := (countP_published (ack (noteSeq p.slave (inByte p.port 4 &&& 0x03))).2).1
    have none_sent := (countP_published (ack (noteSeq p.slave (inByte p.port 4 &&& 0x03))).2).2
    refine ⟨?_, ?_, ?_⟩
    · show (noteSeq p.slave (inByte p.port 4 &&& 0x03)).enabled = p.slave.enabled
      rw [noted]
    · rw [here, List.countP_cons, none_ended]
      cases sendmsg <;> exact Nat.le_refl _
    · rw [here, ← List.singleton_append, sends_append, none_sent]
      cases sendmsg <;> exact Nat.le_refl _
  | refused size sendmsg here addr unwilling =>
    obtain ⟨rxseq, noted⟩ := noteSeq_slave p.slave (inByte p.port 4 &&& 0x03)
    refine ⟨?_, ?_, ?_⟩
    · show (noteSeq p.slave (inByte p.port 4 &&& 0x03)).enabled = p.slave.enabled
      rw [noted]
    · rw [here]
      exact Nat.le_refl _
    · rw [here]
      exact Nat.le_refl _
  | missed size here now =>
    obtain ⟨retry, nextPoll, kept⟩ := nak_slave p.slave now
    obtain ⟨none_ended, none_sent⟩ := countP_published (nak p.slave now).2
    refine ⟨?_, ?_, ?_⟩
    · show (nak p.slave now).1.enabled = p.slave.enabled
      rw [kept]
    · rw [here, List.countP_append, none_ended]
      exact Nat.le_refl _
    · rw [here, sends_append, none_sent]
      exact Nat.le_refl _
  | received sendmsg here t size port run =>
    refine ⟨rfl, ?_, ?_⟩
    · rw [here]
      dsimp only
      split <;> exact Nat.le_refl _
    · rw [here]
      dsimp only
      split <;> exact Nat.le_refl _
  | faulted here =>
    refine ⟨rfl, Nat.zero_le _, Nat.zero_le _⟩
  | _ =>
    refine ⟨rfl, ?_, ?_⟩
    · simp [*, toEnd, isEnd]
    · simp [*, toSend, sends, sentBy]

theorem deliver_disabled {slave : OsdpSlave} {components : List Bytes} {payload : Bytes}
    (disabled : slave.enabled = false) (uncontrolled : isControl components = false) :
    deliver slave components payload = (slave, [.arrived payload false]) := by
  simp [deliver, messageForSlave, uncontrolled, disabled]

end Calls

section Paths

variable {i : Nat} {start master master' : Master} {action : Action} {events : List Event} {own : List (Nat × Event)}

def Uncontrolled (i : Nat) (master : Master) (action : Action) : Prop :=
  ∀ topic payload components, action = .message topic payload →
    route master.slaves topic = some (components, some i) → isControl components = false

def ignored : Event → Bool
  | .arrived _ enabled => !enabled
  | _ => false

structure Silent (i : Nat) (start master : Master) (events : List Event) : Prop where
  disabled : ∃ slave, master.slaves[i]? = some slave ∧ slave.enabled = false
  ends : events.countP isEnd + toEnd (positionOf i master) ≤ 1
  sends : sends events + toSend (positionOf i master) ≤ 1
  arrivals : arrivals events = []
  still : positionOf i start = .idle → positionOf i master = .idle ∧ master.slaves[i]? = start.slaves[i]? ∧
    ∀ event ∈ events, ignored event = true

theorem Silent.quiet (silent : Silent i start master events) (slaves : master'.slaves[i]? = master.slaves[i]?)
    (position : positionOf i master' = .idle ∨ positionOf i master' = positionOf i master)
    (unnoticed : ∀ event ∈ eventsOf i own, ignored event = true) :
    Silent i start master' (events ++ eventsOf i own) := by
  have none_ended : (eventsOf i own).countP isEnd = 0 := by
    rw [List.countP_eq_zero]
    intro event member ended
    have idle := unnoticed event member
    cases event with
    | ended ending => cases idle
    | _ => cases ended
  have none_sent : CommandDelivery.sends (eventsOf i own) = 0 := by
    rw [CommandDelivery.sends, List.countP_eq_zero]
    intro event member sent
    have idle := unnoticed event member
    cases event with
    | sent seq payload sendmsg => cases idle
    | _ => cases sent
  have none_arrived : QueueHistory.arrivals (eventsOf i own) = [] := by
    rw [QueueHistory.arrivals, List.filterMap_eq_nil_iff]
    intro event member
    cases event with
    | arrived message enabled =>
      cases enabled with
      | true => cases unnoticed _ member
      | false => rfl
    | _ => rfl
  have ends : toEnd (positionOf i master') ≤ toEnd (positionOf i master) := by
    rcases position with idle | same
    · rw [idle]
      exact Nat.zero_le _
    · rw [same]
  have sends : toSend (positionOf i master') ≤ toSend (positionOf i master) := by
    rcases position with idle | same
    · rw [idle]
      exact Nat.zero_le _
    · rw [same]
  refine ⟨slaves ▸ silent.disabled, ?_, ?_, ?_, ?_⟩
  · rw [List.countP_append, none_ended]
    exact Nat.le_trans (Nat.add_le_add_left ends _) silent.ends
  · rw [sends_append, none_sent]
    exact Nat.le_trans (Nat.add_le_add_left sends _) silent.sends
  · rw [arrivals_append, silent.arrivals, none_arrived]
    rfl
  · intro outside
    obtain ⟨idle, same, all⟩ := silent.still outside
    refine ⟨?_, slaves.trans same, ?_⟩
    · rcases position with now | before
      · exact now
      · exact before.trans idle
    · intro event member
      rcases List.mem_append.mp member with earlier | later
      · exact all event earlier
      · exact unnoticed event later

theorem silent_step (silent : Silent i start master events) (uncontrolled : Uncontrolled i master action)
    (stepped : Stepped master action master' own) : Silent i start master' (events ++ eventsOf i own) := by
  obtain ⟨slave, found, disabled⟩ := silent.disabled
  cases stepped with
  | selected t idle a selected next there =>
    refine silent.quiet rfl (Or.inl ?_) fun _ member => by cases member
    by_cases here : a = i
    · subst here
      have same : selected = slave := Option.some.inj (there.symm.trans found)
      have unpollable : pollable selected = false := by rw [same, pollable, disabled, Bool.and_false]
      rw [positionOf, unpollable]
      exact ite_self _
    · exact if_neg here
  | polled t busy selected there p own step =>
    by_cases here : master.pollSlave = i
    · subst here
      have same : selected = slave := Option.some.inj (there.symm.trans found)
      have stepped := pollStep_stepped step
      obtain ⟨flag, ends, sends⟩ := spends_poll stepped
      obtain ⟨_, none_arrived, _⟩ := queue_poll stepped
      have before : positionOf master.pollSlave master = master.position := if_pos rfl
      have now : positionOf master.pollSlave (afterStep master p own) = p.position := if_pos rfl
      have ended := silent.ends
      have sent := silent.sends
      rw [before] at ended sent
      simp only [current] at ends sends
      simp only [tag, eventsOf_tagged]
      refine ⟨⟨p.slave, ?_, ?_⟩, ?_, ?_, ?_, ?_⟩
      · exact List.getElem?_set_self (List.getElem?_eq_some_iff.mp there).1
      · rw [flag]
        exact same ▸ disabled
      · rw [now, List.countP_append]
        omega
      · rw [now, sends_append]
        omega
      · rw [arrivals_append, silent.arrivals, none_arrived]
        rfl
      · intro outside
        exact absurd (before.symm.trans (silent.still outside).1) busy
    · refine silent.quiet (List.getElem?_set_ne here) (Or.inl (if_neg here)) ?_
      rw [tag, eventsOf_other here]
      exact fun _ member => by cases member
  | passed topic payload components routed => exact silent.quiet rfl (Or.inr rfl) fun _ member => by cases member
  | told topic payload components j routed told there =>
    by_cases here : j = i
    · subst here
      have same : told = slave := Option.some.inj (there.symm.trans found)
      rw [deliver_disabled (same ▸ disabled) (uncontrolled topic payload components rfl routed)]
      refine silent.quiet ?_ (Or.inr rfl) ?_
      · rw [there]
        exact List.getElem?_set_self (List.getElem?_eq_some_iff.mp there).1
      · rw [tag, eventsOf_tagged]
        intro event member
        rw [List.mem_singleton.mp member]
        rfl
    · refine silent.quiet (List.getElem?_set_ne here) (Or.inr rfl) ?_
      rw [tag, eventsOf_other here]
      exact fun _ member => by cases member

/-- From any state in which a slave is disabled, until a control message for it comes in: no message is taken for it,
and at most one frame goes out to it, in a call that ran and may still end. Where no call of it ran, it only sees
messages that are ignored, and it stays as it is, with its queue. -/
theorem disabled_silent (config : SerialConfig) (texts : List Bytes) (i : Nat) (master after : Master)
    (slave : OsdpSlave) (there : master.slaves[i]? = some slave) (disabled : slave.enabled = false)
    (steps : List (Step Master Action (Nat × Event))) (path : Path (bus config texts) master steps after)
    (uncontrolled : ∀ step ∈ steps, Uncontrolled i step.before step.action) :
    arrivals (seen i steps) = [] ∧ sends (seen i steps) ≤ 1 ∧ (seen i steps).countP isEnd ≤ 1 ∧
      ((master.pollSlave = i → master.position = .idle) →
        after.slaves[i]? = some slave ∧ ∀ event ∈ seen i steps, ignored event = true) := by
  have silent : Silent i master after (seen i ([] ++ steps)) := by
    apply path.invariant (I := fun now steps => Silent i master now (seen i steps)) []
    · refine ⟨⟨slave, there, disabled⟩, ?_, ?_, rfl, fun idle => ⟨idle, rfl, fun _ member => by cases member⟩⟩
      · rw [seen, List.flatMap_nil]
        exact (Nat.zero_add _).symm ▸ toEnd_le _
      · rw [seen, List.flatMap_nil]
        exact (Nat.zero_add _).symm ▸ toSend_le _
    · intro earlier step member silent stepped
      rw [seen_snoc]
      exact silent_step silent (uncontrolled step member) (step_stepped stepped)
  rw [List.nil_append] at silent
  refine ⟨silent.arrivals, Nat.le_of_add_right_le silent.sends, Nat.le_of_add_right_le silent.ends, ?_⟩
  intro outside
  have idle : positionOf i master = .idle := by
    unfold positionOf
    split
    next here => exact outside here
    · rfl
  obtain ⟨_, same, all⟩ := silent.still idle
  exact ⟨same.trans there, all⟩

def plainAction (master : Master) : Action → Bool
  | .poll _ => true
  | .message topic _ => (route master.slaves topic).any fun routed => !isControl routed.1

theorem uncontrolled_of_plain {master : Master} {action : Action} (plain : plainAction master action = true) (i : Nat) :
    Uncontrolled i master action := by
  rintro topic payload components rfl routed
  simpa [plainAction, routed] using plain

/-- A message waits when the slave is disabled, and another one comes in. -/
theorem disabled_silent_waiting :
    ∃ (after : Master) (slave : OsdpSlave) (steps : List (Step Master Action (Nat × Event))),
      after.slaves[0]? = some slave ∧ slave.msglist = [[OSDP_POLL, 7]] ∧
        seen 0 steps = [.arrived [OSDP_POLL, 8] false] ∧ ∀ event ∈ seen 0 steps, ignored event = true := by
  have checked : (walk (bus plainPort [ascii "5"]) (bus plainPort [ascii "5"]).start [
      .message (ascii "osdp/bus1/outgoing/5") [OSDP_POLL, 7],
      .message (ascii "osdp/bus1/outgoing/5/control") (ascii "DISABLE")]).any (fun first =>
        (walk (bus plainPort [ascii "5"]) first.2 (polls 3 ⟨1, 0⟩ [] ++
          .message (ascii "osdp/bus1/outgoing/5") [OSDP_POLL, 8] :: polls 3 ⟨2, 0⟩ [])).any fun second =>
            decide (first.2.position = .idle) &&
            (first.2.slaves[0]?).any (fun slave => !slave.enabled && slave.msglist == [[OSDP_POLL, 7]]) &&
            decide (seen 0 second.1 = [.arrived [OSDP_POLL, 8] false]) &&
            second.1.all fun step => plainAction step.before step.action) = true := by
    decide +kernel
  obtain ⟨⟨_, master⟩, _, reached⟩ := (Option.any_eq_true _ _).mp checked
  obtain ⟨⟨steps, after⟩, walked, good⟩ := (Option.any_eq_true _ _).mp reached
  simp only [Bool.and_eq_true, List.all_eq_true, decide_eq_true_eq] at good
  obtain ⟨⟨⟨idle, waiting⟩, one⟩, plain⟩ := good
  obtain ⟨slave, there, kept⟩ := (Option.any_eq_true _ _).mp waiting
  simp only [Bool.and_eq_true, Bool.not_eq_true', beq_iff_eq] at kept
  have silent := (disabled_silent plainPort [ascii "5"] 0 master after slave there kept.1 steps
    (path_of_walk walked) fun step member => uncontrolled_of_plain (plain step member) 0).2.2.2 fun _ => idle
  exact ⟨after, slave, steps, silent.1, kept.2, one, silent.2⟩

end Paths

end OsdpMaster.DisabledSlave
