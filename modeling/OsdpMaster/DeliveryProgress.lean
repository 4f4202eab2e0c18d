import OsdpMaster.BusStep
import OsdpMaster.CommandDelivery

/-!
How messages get ahead. A call that finds the slave online and a message waiting
sends the message, never a plain poll; so each call that ends with a reply takes
one message from the front of the queue, however many fail in between.
-/

namespace OsdpMaster.DeliveryProgress
open OsdpMaster.Protocol OsdpMaster.Slave OsdpMaster.SlavePoll OsdpMaster.SlaveRun OsdpMaster.QueueHistory
open OsdpMaster.Bus OsdpMaster.BusStep OsdpMaster.Split OsdpMaster.Lib.Trace
open OsdpMaster.CommandDelivery (answered)

section Pace

def replies (events : List Event) : Nat := events.count (.ended .replied)

/-- By how much the messages gone are ahead of the replies: a call is before its reply, or has taken its message
already; no answer in a plain poll. -/
def ahead : Position → Option Nat
  | .tickle => none
  | .transmit _ sendmsg => if sendmsg then some 0 else none
  | .receive sendmsg => if sendmsg then some 0 else none
  | .reply _ sendmsg => if sendmsg then some 0 else none
  | .publish _ => some 1
  | _ => some 0

/-- All messages that were waiting are gone, or as many as there were replies. -/
def Pace (waiting : List Bytes) (position : Position) (events : List Event) : Prop :=
  waiting.length ≤ (removals events).length ∨
    ∃ credit ∈ ahead position, replies events + credit ≤ (removals events).length

variable {waiting : List Bytes} {position position' : Position} {events own : List Event}

theorem replies_append (first second : List Event) : replies (first ++ second) = replies first + replies second :=
  List.count_append

theorem replies_eq_zero (none_ended : .ended .replied ∉ own) : replies own = 0 := List.count_eq_zero.mpr none_ended

theorem Pace.keep (pace : Pace waiting position events) (none_ended : .ended .replied ∉ own)
    (credit : ∀ credit ∈ ahead position, ∃ credit' ∈ ahead position', credit' ≤ credit + (removals own).length) :
    Pace waiting position' (events ++ own) := by
  unfold Pace at pace ⊢
  rw [removals_append, List.length_append, replies_append, replies_eq_zero none_ended]
  rcases pace with all | ⟨before, there, enough⟩
  · exact Or.inl (by omega)
  · obtain ⟨after, there', less⟩ := credit before there
    exact Or.inr ⟨after, there', by omega⟩

theorem Pace.of_empty {queue arrived : List Bytes} (balance : removals events ++ queue = waiting ++ arrived)
    (empty : queue = []) : Pace waiting position (events ++ []) := by
  have lengths := congrArg List.length balance
  rw [empty, List.append_nil, List.length_append] at lengths
  rw [List.append_nil]
  exact Or.inl (by omega)

theorem Pace.replied {size : Int} (pace : Pace waiting (.publish size) events) (one : replies own = 1)
    (none_gone : removals own = []) : Pace waiting .idle (events ++ own) := by
  unfold Pace at pace ⊢
  rw [removals_append, none_gone, List.append_nil, replies_append, one]
  rcases pace with all | ⟨credit, there, enough⟩
  · exact Or.inl all
  · cases there
    exact Or.inr ⟨0, rfl, by omega⟩

end Pace

section Steps

variable {p p' : Poll} {waiting : List Bytes} {events own : List Event}

/-- Each step of a call keeps pace, unless it purges. -/
theorem pace_poll (stepped : PollStepped p p' own) (pace : Pace waiting p.position events)
    (balance : removals events ++ p.slave.msglist = waiting ++ arrivals events)
    (unpurged : ∀ message, .removed message true ∉ own) : Pace waiting p'.position (events ++ own) := by
  cases stepped with
  | purged here empty => exact Pace.of_empty balance empty
  | foundEmpty here empty => exact Pace.of_empty balance empty
  | purgePopped here message rest queue => exact absurd List.mem_cons_self (unpurged message)
  | handedOn size here news =>
    rw [here] at pace
    exact pace.replied (by simp [replies]) (by simp [removals])
  | replied size here mundane =>
    rw [here] at pace
    exact pace.replied (by simp [replies]) (by simp [removals])
  | popped size here message rest queue =>
    rw [here] at pace
    refine pace.keep (by simp) ?_
    rintro _ ⟨⟩
    exact ⟨1, rfl, Nat.le_refl _⟩
  | accepted size sendmsg here addr willing =>
    rw [here] at pace
    refine pace.keep (by simp) ?_
    intro credit there
    cases sendmsg with
    | true => exact ⟨0, rfl, Nat.zero_le _⟩
    | false => cases there
  | received sendmsg here t size port run =>
    rw [here] at pace
    refine pace.keep (by simp) ?_
    intro credit there
    cases sendmsg with
    | true =>
      refine ⟨0, ?_, Nat.zero_le _⟩
      dsimp only
      split <;> rfl
    | false => cases there
  | transmitted payload sendmsg here t value port run =>
    rw [here] at pace
    exact pace.keep (by simp) fun credit there => ⟨credit, there, Nat.le_add_right _ _⟩
  | refused size sendmsg here addr unwilling =>
    refine pace.keep ?_ fun _ _ => ⟨0, rfl, Nat.zero_le _⟩
    split <;> simp
  | tickled here now due =>
    rw [here] at pace
    refine pace.keep (by simp) ?_
    rintro _ ⟨⟩
  | _ =>
    refine pace.keep (by simp) ?_
    exact fun _ _ => ⟨0, rfl, Nat.zero_le _⟩

end Steps

section Paths

variable {i : Nat} {waiting : List Bytes} {master master' : Master} {action : Action} {events : List Event}
  {own : List (Nat × Event)}

def positionOf (i : Nat) (master : Master) : Position := if master.pollSlave = i then master.position else .idle

/-- The queue has what was waiting and what came in, less what is gone, and the calls keep pace. -/
structure Keeps (i : Nat) (waiting : List Bytes) (master : Master) (events : List Event) : Prop where
  balance : ∃ slave, master.slaves[i]? = some slave ∧ removals events ++ slave.msglist = waiting ++ arrivals events
  pace : Pace waiting (positionOf i master) events

theorem Keeps.elsewhere (keeps : Keeps i waiting master events) (slaves : master'.slaves[i]? = master.slaves[i]?)
    (unseen : eventsOf i own = []) (position : ahead (positionOf i master') = some 0 ∨
      positionOf i master' = positionOf i master) : Keeps i waiting master' (events ++ eventsOf i own) where
  balance := by
    rw [unseen, List.append_nil, slaves]
    exact keeps.balance
  pace := by
    rw [unseen]
    refine keeps.pace.keep List.not_mem_nil ?_
    intro credit there
    rcases position with still | same
    · exact ⟨0, still, Nat.zero_le _⟩
    · exact ⟨credit, same ▸ there, Nat.le_add_right _ _⟩

theorem keeps_step (keeps : Keeps i waiting master events) (stepped : Stepped master action master' own)
    (unpurged : ∀ message, .removed message true ∉ eventsOf i own) : Keeps i waiting master' (events ++ eventsOf i own) := by
  cases stepped with
  | selected t idle a slave next there =>
    refine keeps.elsewhere rfl rfl (Or.inl ?_)
    simp only [positionOf]
    split
    · split <;> rfl
    · rfl
  | polled t busy slave there p own step =>
    by_cases here : master.pollSlave = i
    · subst here
      obtain ⟨known, found, balance⟩ := keeps.balance
      obtain rfl : slave = known := Option.some.inj (there.symm.trans found)
      have stepped := pollStep_stepped step
      obtain ⟨queue, none_arrived, _⟩ := queue_poll stepped
      have pace := keeps.pace
      rw [positionOf, if_pos rfl] at pace
      simp only [tag, eventsOf_tagged] at unpurged ⊢
      refine ⟨⟨p.slave, ?_, ?_⟩, ?_⟩
      · exact List.getElem?_set_self (List.getElem?_eq_some_iff.mp there).1
      · rw [removals_append, List.append_assoc, queue, arrivals_append, none_arrived, List.append_nil]
        exact balance
      · have still : positionOf master.pollSlave (afterStep master p own) = p.position := if_pos rfl
        rw [still]
        exact pace_poll stepped pace balance unpurged
    · refine keeps.elsewhere (List.getElem?_set_ne here) (eventsOf_other here own) (Or.inl ?_)
      have idle : positionOf i (afterStep master p own) = .idle := if_neg here
      rw [idle]
      rfl
  | passed topic payload components routed => exact keeps.elsewhere rfl rfl (Or.inr rfl)
  | told topic payload components j routed slave there =>
    by_cases here : j = i
    · subst here
      obtain ⟨known, found, balance⟩ := keeps.balance
      obtain rfl : slave = known := Option.some.inj (there.symm.trans found)
      obtain ⟨grown, none_gone, _⟩ := queue_message slave components payload
      simp only [tag, eventsOf_tagged]
      refine ⟨⟨(deliver slave components payload).1, ?_, ?_⟩, keeps.pace.keep ?_ ?_⟩
      · exact List.getElem?_set_self (List.getElem?_eq_some_iff.mp there).1
      · rw [removals_append, none_gone, List.append_nil, grown, ← List.append_assoc, balance, arrivals_append,
          List.append_assoc]
      · exact fun member => forall_deliver (P := fun event => event ≠ .ended .replied) (by simp) (by simp)
          slave components payload _ member rfl
      · exact fun credit there => ⟨credit, there, Nat.le_add_right _ _⟩
    · exact keeps.elsewhere (List.getElem?_set_ne here) (eventsOf_other here _) (Or.inr rfl)

def seen (i : Nat) (steps : List (Step Master Action (Nat × Event))) : List Event :=
  eventsOf i (steps.flatMap Step.events)

theorem seen_snoc (steps : List (Step Master Action (Nat × Event))) (step : Step Master Action (Nat × Event)) :
    seen i (steps ++ [step]) = seen i steps ++ eventsOf i step.events := by
  rw [seen, List.flatMap_append, eventsOf_append, List.flatMap_singleton]
  rfl

theorem removals_unpurged (unpurged : ∀ message, .removed message true ∉ events) : removals events = answered events := by
  refine List.filterMap_congr ?_
  intro event member
  cases event with
  | removed message purged =>
    cases purged with
    | true => exact absurd member (unpurged message)
    | false => rfl
  | _ => rfl

/-- From any state in which no call of the slave is open: while its queue is not purged, each call of the slave
that ends with a reply delivers the next message that waits. After so many replies the first so many messages have
been answered, in order, whatever comes in, whichever slaves are called and how many calls fail in between. -/
theorem replies_deliver (config : SerialConfig) (texts : List Bytes) (i : Nat) (master after : Master)
    (slave : OsdpSlave) (there : master.slaves[i]? = some slave)
    (outside : master.pollSlave = i → master.position = .idle)
    (steps : List (Step Master Action (Nat × Event))) (path : Path (bus config texts) master steps after)
    (unpurged : ∀ message, .removed message true ∉ seen i steps) :
    slave.msglist.take ((seen i steps).count (.ended .replied)) <+: answered (seen i steps) := by
  have idle : positionOf i master = .idle := by
    unfold positionOf
    split
    next here => exact outside here
    · rfl
  have keeps : (∀ message, .removed message true ∉ seen i ([] ++ steps)) →
      Keeps i slave.msglist after (seen i ([] ++ steps)) := by
    apply path.invariant (I := fun master steps => (∀ message, .removed message true ∉ seen i steps) →
      Keeps i slave.msglist master (seen i steps)) []
    · intro _
      refine ⟨⟨slave, there, (List.append_nil _).symm⟩, ?_⟩
      rw [idle]
      exact Or.inr ⟨0, rfl, Nat.le_refl _⟩
    · intro earlier step _ keeps stepped unpurged
      rw [seen_snoc] at unpurged ⊢
      have before := keeps fun message member => unpurged message (List.mem_append_left _ member)
      exact keeps_step before (step_stepped stepped)
        fun message member => unpurged message (List.mem_append_right _ member)
  obtain ⟨⟨last, _, balance⟩, pace⟩ := keeps unpurged
  rw [List.nil_append] at balance pace
  have gone : answered (seen i steps) <+: slave.msglist ++ arrivals (seen i steps) := by
    rw [← balance, ← removals_unpurged unpurged]
    exact List.prefix_append _ _
  have first : slave.msglist.take ((seen i steps).count (.ended .replied)) <+:
      slave.msglist ++ arrivals (seen i steps) := (List.take_prefix _ _).trans (List.prefix_append _ _)
  refine List.prefix_of_prefix_length_le first gone ?_
  rw [← removals_unpurged unpurged, List.length_take]
  rcases pace with all | ⟨credit, _, enough⟩
  · omega
  · unfold replies at enough
    omega

def isPurge : Event → Bool
  | .removed _ purged => purged
  | _ => false

/-- Two messages come in for a slave that is online; the first call fails, and the next two are replied to. -/
theorem replies_deliver_two :
    ∃ steps, (seen 0 steps).count (.ended .replied) = 2 ∧
      [[OSDP_POLL, 7], [OSDP_POLL, 8]] <+: answered (seen 0 steps) := by
  have checked : (walk (bus plainPort [ascii "5"]) (bus plainPort [ascii "5"]).start
      (polls 8 ⟨0, 0⟩ [.data ackReply] ++ [.message (ascii "osdp/bus1/outgoing/5") [OSDP_POLL, 7],
        .message (ascii "osdp/bus1/outgoing/5") [OSDP_POLL, 8]])).any (fun first =>
        (walk (bus plainPort [ascii "5"]) first.2
          (polls 8 ⟨1, 0⟩ [.eagain ⟨2, 0⟩] ++ polls 20 ⟨2, 0⟩ [.data ackReply])).any fun second =>
            decide (first.2.position = .idle) &&
            (first.2.slaves[0]?).any (fun slave => slave.msglist == [[OSDP_POLL, 7], [OSDP_POLL, 8]]) &&
            (seen 0 second.1).count (.ended .replied) == 2 &&
            (seen 0 second.1).all fun event => !isPurge event) = true := by
    decide +kernel
  obtain ⟨⟨_, master⟩, _, reached⟩ := (Option.any_eq_true _ _).mp checked
  obtain ⟨⟨steps, after⟩, walked, good⟩ := (Option.any_eq_true _ _).mp reached
  simp only [Bool.and_eq_true, beq_iff_eq, List.all_eq_true, decide_eq_true_eq] at good
  obtain ⟨⟨⟨idle, waiting⟩, two⟩, unpurged⟩ := good
  obtain ⟨slave, there, queue⟩ := (Option.any_eq_true _ _).mp waiting
  have delivered := replies_deliver plainPort [ascii "5"] 0 master after slave there (fun _ => idle) steps
    (path_of_walk walked) fun message member => by cases unpurged _ member
  rw [two, beq_iff_eq.mp queue] at delivered
  exact ⟨steps, two, delivered⟩

end Paths

end OsdpMaster.DeliveryProgress
