import OsdpMaster.BusStep
import OsdpMaster.Lib.Monitor

/-!
The order of events on the bus. One pair of wires serves all slaves: a monitor
that sees the events of all calls says who may send when, and every run of the
master keeps to it.
-/

namespace OsdpMaster.HalfDuplex
open OsdpMaster.Protocol OsdpMaster.Slave OsdpMaster.SlavePoll OsdpMaster.SlaveRun OsdpMaster.Bus
open OsdpMaster.BusStep OsdpMaster.Lib.Trace OsdpMaster.Lib.Monitor

/-- Who has the bus: no one; the master, for a call of the slave at an index; this slave, which is to reply;
the master again, which works on what it heard. -/
inductive Turn
  | quiet
  | calling (i : Nat)
  | awaiting (i : Nat)
  | answered (i : Nat)
  deriving DecidableEq

/-- An event inside a call of the slave at `i`. Replies are published in the last part of a call only. -/
def Turn.goes (i : Nat) : Turn → Event → Option Turn
  | .quiet, .called _ => some (.calling i)
  | .calling j, .removed _ true => if i = j then some (.calling i) else none
  | .calling j, .sent _ _ _ => if i = j then some (.awaiting i) else none
  | .calling j, .ended .notTime => if i = j then some .quiet else none
  | .calling j, .ended (.exception _) => if i = j then some .quiet else none
  | .awaiting j, .received _ _ => if i = j then some (.answered i) else none
  | .awaiting j, .ended (.exception _) => if i = j then some .quiet else none
  | .answered j, .accepted => if i = j then some (.answered i) else none
  | .answered j, .removed _ false => if i = j then some (.answered i) else none
  | .answered j, .published _ => if i = j then some (.answered i) else none
  | .answered j, .ended _ => if i = j then some .quiet else none
  | _, _ => none

/-- A message may come in, and a status be published, at any time. -/
def outside : Event → Bool
  | .arrived _ _ => true
  | .published publication => publication.retain
  | _ => false

def Turn.next (turn : Turn) (tagged : Nat × Event) : Option Turn :=
  if outside tagged.2 then some turn else turn.goes tagged.1 tagged.2

/-- Where the poll thread stands, by whose turn it is. -/
def Stands (i : Nat) (position : Position) (turn : Turn) : Prop :=
  match position with
  | .idle | .offlineTest => turn = .quiet
  | .purgeTest | .purgePop | .tickle | .backoff | .emptyTest | .front | .transmit _ _ => turn = .calling i
  | .receive _ => turn = .awaiting i
  | .reply _ _ | .pop _ | .publish _ | .failed _ => turn = .answered i
  | .fault => True

section Steps

variable {i : Nat} {turn : Turn} {p p' : Poll} {events : List Event}

theorem follow_retained (turn : Turn) {publications : List Publication}
    (retained : ∀ publication ∈ publications, publication.retain = true) :
    follow Turn.next turn (tag i (publications.map .published)) = some turn := by
  apply follow_quiet
  intro tagged member
  simp only [tag, List.map_map, List.mem_map] at member
  obtain ⟨publication, published, same⟩ := member
  subst same
  exact if_pos (retained publication published)

theorem outside_deliver (slave : OsdpSlave) (components : List Bytes) (payload : Bytes) :
    ∀ event ∈ (deliver slave components payload).2, outside event = true := by
  intro event member
  simp only [deliver, List.mem_append, List.mem_map] at member
  rcases member with arrival | ⟨publication, published, same⟩
  · split at arrival
    · cases arrival
    · rw [List.mem_singleton.mp arrival]
      rfl
  · subst same
    exact messageForSlave_retained published

theorem follow_deliver (turn : Turn) (slave : OsdpSlave) (components : List Bytes) (payload : Bytes) :
    follow Turn.next turn (tag i (deliver slave components payload).2) = some turn := by
  apply follow_quiet
  intro tagged member
  obtain ⟨event, inside, same⟩ := List.mem_map.mp member
  subst same
  exact if_pos (outside_deliver slave components payload event inside)

theorem stands_poll (stepped : PollStepped p p' events) (stands : Stands i p.position turn) :
    ∃ turn', follow Turn.next turn (tag i events) = some turn' ∧ Stands i p'.position turn' := by
  cases stepped with
  | received sendmsg here t size port run =>
    rw [here] at stands
    subst stands
    refine ⟨.answered i, by simp [tag, follow, Turn.next, Turn.goes, outside], ?_⟩
    dsimp only
    split <;> rfl
  | refused size sendmsg here addr unwilling =>
    rw [here] at stands
    subst stands
    exact ⟨.quiet, by simp [tag, follow, Turn.next, Turn.goes, outside], rfl⟩
  | accepted size sendmsg here addr willing =>
    rw [here] at stands
    subst stands
    refine ⟨.answered i, ?_, by cases sendmsg <;> rfl⟩
    have retained : follow Turn.next (.answered i)
        (tag i ((ack (noteSeq p.slave (inByte p.port 4 &&& 0x03))).2.map .published)) = some (.answered i) :=
      follow_retained (.answered i) fun publication => ack_retained
    simpa [tag, follow, Turn.next, Turn.goes, outside] using retained
  | missed size here now =>
    rw [here] at stands
    subst stands
    refine ⟨.quiet, ?_, rfl⟩
    have retained : follow Turn.next (.answered i) (tag i ((nak p.slave now).2.map .published)) = some (.answered i) :=
      follow_retained (.answered i) fun publication => nak_retained
    rw [tag, List.map_append, follow_append, ← tag, retained]
    simp [follow, Turn.next, Turn.goes, outside]
  | handedOn size here news =>
    rw [here] at stands
    subst stands
    exact ⟨.quiet, by simp [tag, follow, Turn.next, Turn.goes, outside, incoming], rfl⟩
  | faulted here => exact ⟨turn, rfl, trivial⟩
  | transmitted payload sendmsg here | overran payload sendmsg here =>
    rw [here] at stands
    subst stands
    exact ⟨.awaiting i, by simp [tag, follow, Turn.next, Turn.goes, outside], by trivial⟩
  | foundOffline here | foundOnline here | purged here | purging here | purgePopped here | notDue here
  | tickled here | notYet here | backedOff here | foundEmpty here | foundMessage here | fronted here
  | flushFailed _ _ here | transmitFailed _ _ here | receiveFailed _ here
  | wrongAddress _ _ here | popped _ here | replied _ here  =>
    rw [here] at stands
    subst stands
    exact ⟨_, by simp [tag, follow, Turn.next, Turn.goes, outside], rfl⟩

end Steps

section Runs

variable {config : SerialConfig} {texts : List Bytes} {master : Master} {history : List (Nat × Event)}

theorem stands_step {turn : Turn} {master' : Master} {action : Action} {events : List (Nat × Event)}
    (stands : Stands master.pollSlave master.position turn) (stepped : Bus.step master action = some (master', events)) :
    ∃ turn', follow Turn.next turn events = some turn' ∧ Stands master'.pollSlave master'.position turn' := by
  cases step_stepped stepped with
  | selected t idle a slave next there =>
    rw [idle] at stands
    refine ⟨turn, rfl, ?_⟩
    dsimp only
    split <;> exact stands
  | polled t busy slave there p events step => exact stands_poll (pollStep_stepped step) stands
  | passed topic payload components routed => exact ⟨turn, rfl, stands⟩
  | told topic payload components i routed slave there =>
    exact ⟨turn, follow_deliver turn slave components payload, stands⟩

theorem stands_run (run : Run (bus config texts) free master history) :
    ∃ turn, follow Turn.next .quiet history = some turn ∧ Stands master.pollSlave master.position turn := by
  apply follow_run _ _ run
  · refine ⟨.quiet, follow_quiet ?_, rfl⟩
    intro tagged member
    obtain ⟨numbered, _, same⟩ := List.mem_map.mp member
    subst same
    rfl
  · intro master history action master' events turn _ stands _ stepped
    exact stands_step stands stepped

theorem goes_awaiting {i j : Nat} {event : Event} {turn : Turn} (goes : Turn.goes j (.awaiting i) event = some turn) :
    j = i ∧ ((∃ size buffer, event = .received size buffer) ∧ turn = .answered i ∨
      ∃ message, event = .ended (.exception message)) := by
  cases event with
  | received size buffer =>
    obtain ⟨same, there⟩ := Option.ite_none_right_eq_some.mp goes
    subst same
    exact ⟨rfl, Or.inl ⟨⟨size, buffer, rfl⟩, (Option.some.inj there).symm⟩⟩
  | ended ending =>
    cases ending with
    | exception message => exact ⟨(Option.ite_none_right_eq_some.mp goes).1, Or.inr ⟨message, rfl⟩⟩
    | _ => cases goes
  | _ => cases goes

theorem goes_answered {i j : Nat} {event : Event} {turn : Turn} (goes : Turn.goes j (.answered i) event = some turn) :
    j = i ∧ (turn = .answered i ∨ ∃ ending, event = .ended ending) := by
  cases event with
  | accepted | published publication =>
    obtain ⟨same, there⟩ := Option.ite_none_right_eq_some.mp goes
    subst same
    exact ⟨rfl, Or.inl (Option.some.inj there).symm⟩
  | removed message purged =>
    cases purged with
    | false =>
      obtain ⟨same, there⟩ := Option.ite_none_right_eq_some.mp goes
      subst same
      exact ⟨rfl, Or.inl (Option.some.inj there).symm⟩
    | true => cases goes
  | ended ending => exact ⟨(Option.ite_none_right_eq_some.mp goes).1, Or.inr ⟨ending, rfl⟩⟩
  | _ => cases goes

/-- After a frame, the slave's turn lasts until its reply or an exception. -/
theorem awaiting_until {i : Nat} {between : List (Nat × Event)} {turn : Turn}
    (followed : follow Turn.next (.awaiting i) between = some turn)
    (unanswered : ∀ size buffer, (i, .received size buffer) ∉ between)
    (going : ∀ message, (i, .ended (.exception message)) ∉ between) : turn = .awaiting i := by
  apply follow_inside (fun turn => turn = .awaiting i)
    (fun tagged => (∃ size buffer, tagged = (i, .received size buffer)) ∨
      ∃ message, tagged = (i, .ended (.exception message))) _ rfl _ followed
  · rintro _ ⟨j, event⟩ there rfl stays moved
    simp only [Turn.next] at moved
    split at moved
    · exact (Option.some.inj moved).symm
    · obtain ⟨rfl, ⟨⟨size, buffer, rfl⟩, _⟩ | ⟨message, rfl⟩⟩ := goes_awaiting moved
      · exact absurd (Or.inl ⟨size, buffer, rfl⟩) stays
      · exact absurd (Or.inr ⟨message, rfl⟩) stays
  · rintro tagged member (⟨size, buffer, same⟩ | ⟨message, same⟩)
    · exact unanswered size buffer (same ▸ member)
    · exact going message (same ▸ member)

theorem busy_until {i : Nat} {between : List (Nat × Event)} {turn : Turn}
    (followed : follow Turn.next (.awaiting i) between = some turn)
    (going : ∀ ending, (i, .ended ending) ∉ between) : turn = .awaiting i ∨ turn = .answered i := by
  apply follow_inside (fun turn => turn = .awaiting i ∨ turn = .answered i)
    (fun tagged => ∃ ending, tagged = (i, .ended ending)) _ (Or.inl rfl) _ followed
  · rintro here ⟨j, event⟩ there inside stays moved
    simp only [Turn.next] at moved
    split at moved
    · rw [← Option.some.inj moved]
      exact inside
    · rcases inside with rfl | rfl
      · obtain ⟨rfl, ⟨_, answered⟩ | ⟨message, rfl⟩⟩ := goes_awaiting moved
        · exact Or.inr answered
        · exact absurd ⟨_, rfl⟩ stays
      · obtain ⟨rfl, answered | ⟨ending, rfl⟩⟩ := goes_answered moved
        · exact Or.inr answered
        · exact absurd ⟨_, rfl⟩ stays
  · rintro tagged member ⟨ending, same⟩
    exact going ending (same ▸ member)

/-- Only a call of the slave itself that has sent nothing yet sends a frame. -/
theorem next_sent {turn there : Turn} {j : Nat} {seq : UInt8} {payload : Bytes} {sendmsg : Bool}
    (moved : Turn.next turn (j, .sent seq payload sendmsg) = some there) : turn = .calling j ∧ there = .awaiting j := by
  simp only [Turn.next, outside, Bool.false_eq_true, if_false] at moved
  cases turn with
  | calling i =>
    obtain ⟨rfl, same⟩ := Option.ite_none_right_eq_some.mp moved
    exact ⟨rfl, (Option.some.inj same).symm⟩
  | _ => cases moved

/-- In every run the bus is half duplex: the events come in an order that the monitor allows, and between any
two frames, of whichever slaves, the first one has been replied to or given up, and its call has ended. -/
theorem half_duplex (config : SerialConfig) (texts : List Bytes) (master : Master) (history : List (Nat × Event))
    (run : Run (bus config texts) free master history) :
    (∃ turn, follow Turn.next .quiet history = some turn ∧ Stands master.pollSlave master.position turn) ∧
    ∀ before between after i j seq payload sendmsg seq' payload' sendmsg',
      history = before ++ (i, .sent seq payload sendmsg) ::
        (between ++ (j, .sent seq' payload' sendmsg') :: after) →
      ((∃ size buffer, (i, .received size buffer) ∈ between) ∨
        ∃ message, (i, .ended (.exception message)) ∈ between) ∧
      ∃ ending, (i, .ended ending) ∈ between := by
  have stands := stands_run run
  refine ⟨stands, ?_⟩
  intro before between after i j seq payload sendmsg seq' payload' sendmsg' split
  obtain ⟨turn, followed, _⟩ := stands
  rw [split] at followed
  obtain ⟨_, there, _, sent, rest⟩ := follow_split followed
  obtain ⟨here, _, first, sentNext, _⟩ := follow_split rest
  rw [(next_sent sent).2] at first
  have free := (next_sent sentNext).1
  refine ⟨?_, ?_⟩
  · by_contra open_still
    rw [not_or, not_exists, not_exists] at open_still
    obtain ⟨unanswered, going⟩ := open_still
    have waits := awaiting_until first (fun size buffer member => unanswered size ⟨buffer, member⟩) going
    rw [free] at waits
    cases waits
  · by_contra going
    rw [not_exists] at going
    rcases busy_until first going with waits | works
    · rw [free] at waits
      cases waits
    · rw [free] at works
      cases works

end Runs

def framesIn (history : List (Nat × Event)) : Nat :=
  history.countP fun tagged => match tagged.2 with
    | .sent _ _ _ => true
    | _ => false

theorem half_duplex_two :
    ∃ (master : Master) (history : List (Nat × Event)), framesIn history = 2 ∧
      ∃ turn, follow Turn.next .quiet history = some turn ∧ Stands master.pollSlave master.position turn := by
  have checked : (replay (bus plainPort [ascii "5", ascii "6"]) free (bus plainPort [ascii "5", ascii "6"]).start
      (bus plainPort [ascii "5", ascii "6"]).startup
      (polls 7 ⟨0, 0⟩ [.eagain ⟨1, 0⟩] ++ polls 8 ⟨0, 0⟩ [.data ackReply])).any (fun reached =>
        framesIn reached.2 == 2) = true := by
    decide +kernel
  obtain ⟨master, history, run, two⟩ := exists_run checked
  rw [beq_iff_eq] at two
  exact ⟨master, history, two, (half_duplex plainPort [ascii "5", ascii "6"] master history run).1⟩

end OsdpMaster.HalfDuplex
