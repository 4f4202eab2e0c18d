import OsdpMaster.BusStep

/-!
What a sequence number that is used again stands for. While no reply is accepted
the number may stay as it is, but the frame of the next call is chosen afresh;
the two agree as long as no call changes between the queue and the plain poll.
-/

namespace OsdpMaster.Retransmission
open OsdpMaster.Protocol OsdpMaster.Slave OsdpMaster.SlavePoll OsdpMaster.SlaveRun OsdpMaster.CallHistory
open OsdpMaster.Bus OsdpMaster.BusStep OsdpMaster.Split OsdpMaster.Lib.Trace

structure Sent where
  seq : UInt8
  payload : Bytes
  sendmsg : Bool
  deriving DecidableEq

def sentBy : Event → Option Sent
  | .sent seq payload sendmsg => some ⟨seq, payload, sendmsg⟩
  | _ => none

def noteSent (last : Option Sent) : Event → Option Sent
  | .sent seq payload sendmsg => some ⟨seq, payload, sendmsg⟩
  | .accepted => none
  | _ => last

/-- The last frame, if no reply was accepted since. -/
def unanswered (history : List Event) : Option Sent := history.foldl noteSent none

/-- A frame with the sequence number of the unanswered one has its payload. -/
def Retransmits (before : List Event) (event : Event) : Prop :=
  ∀ sent ∈ sentBy event, ∀ last ∈ unanswered before, last.seq = sent.seq → sent.payload = last.payload

instance (before : List Event) (event : Event) : Decidable (Retransmits before event) :=
  inferInstanceAs (Decidable (∀ sent ∈ sentBy event, ∀ last ∈ unanswered before,
    last.seq = sent.seq → sent.payload = last.payload))

/-- A plain poll, or a message that is the single byte of one. -/
def plain (last : Sent) : Bool := !last.sendmsg || last.payload == [OSDP_POLL]

/-- Where `slave_poll` is about to choose between the queue and the plain poll, and the frame it chooses would
carry the number of the unanswered one, that one was of the kind it will choose: plain, for an offline slave
that is tickled and for an online one with nothing queued, and else a message. -/
def steadyAt (slave : OsdpSlave) (position : Position) (last : Option Sent) (now : Timespec) : Bool :=
  match last with
  | none => true
  | some last => last.seq != slave.txseq || match position with
    | .tickle => now.before slave.nextAssign || plain last
    | .emptyTest =>
      if slave.msglist = [] then plain last else last.sendmsg || slave.msglist.head? == some [OSDP_POLL]
    | _ => true

def Steady (master : Master) (history : List (Nat × Event)) : Action → Prop
  | .poll t => ∀ slave ∈ master.slaves[master.pollSlave]?,
    steadyAt slave master.position (unanswered (eventsOf master.pollSlave history)) t.now = true
  | .message _ _ => True

instance (master : Master) (history : List (Nat × Event)) : ∀ action, Decidable (Steady master history action)
  | .poll t => inferInstanceAs (Decidable (∀ slave ∈ master.slaves[master.pollSlave]?,
      steadyAt slave master.position (unanswered (eventsOf master.pollSlave history)) t.now = true))
  | .message _ _ => isTrue trivial

def SteadyMove (p : Poll) (history : List Event) : Move → Prop
  | .poll t => steadyAt p.slave p.position (unanswered history) t.now = true
  | _ => True

theorem steady_behind {config : SerialConfig} {i : Nat} {master : Master} {p : Poll}
    {history : List (Nat × Event)} {action : Action} {move : Move} (follows : Follows config i master p)
    (steady : Steady master history action) (behind : Behind i master action move) :
    SteadyMove p (eventsOf i history) move := by
  cases move with
  | poll t =>
    obtain ⟨action_eq, selected⟩ := behind
    subst action_eq
    have position : p.position = master.position := by rw [follows.position, if_pos selected]
    have here := steady p.slave (by rw [selected]; exact follows.slave)
    rw [selected, ← position] at here
    exact here
  | call port crcCount timeoutCount => trivial
  | message components payload => trivial

theorem unanswered_append (history events : List Event) :
    unanswered (history ++ events) = events.foldl noteSent (unanswered history) := List.foldl_append

/-- What an unanswered frame says of its slave: a message is still the head of the queue, unless the
slave went offline. -/
structure Unanswered (p : Poll) (last : Option Sent) : Prop where
  queued : ∀ seq message, last = some ⟨seq, message, true⟩ →
    offline p.slave = true ∨ p.slave.msglist.head? = some message
  plain : ∀ seq payload, last = some ⟨seq, payload, false⟩ → payload = [OSDP_POLL]
  popping : ∀ size, p.position = .pop size → last = none

theorem unanswered_none (p : Poll) : Unanswered p none where
  queued seq message sent := by cases sent
  plain seq payload sent := by cases sent
  popping size there := rfl

section Steps

variable {p p' : Poll} {history events : List Event} {last : Option Sent}

theorem Unanswered.keep (unanswered : Unanswered p last) (queue : p'.slave.msglist = p.slave.msglist)
    (off : offline p.slave = true → offline p'.slave = true)
    (elsewhere : ∀ size, p'.position ≠ .pop size) : Unanswered p' last where
  queued seq message last_eq := by
    rw [queue]
    exact (unanswered.queued seq message last_eq).imp_left off
  plain := unanswered.plain
  popping size there := absurd there (elsewhere size)

theorem unanswered_sent {payload : Bytes} {sendmsg : Bool} {call : List Event} {seq : UInt8}
    (standing : Standing p call) (here : p.position = .transmit payload sendmsg)
    (slave : p'.slave = p.slave) (elsewhere : ∀ size, p'.position ≠ .pop size) :
    Unanswered p' (some ⟨seq, payload, sendmsg⟩) := by
  simp only [Standing, here] at standing
  refine ⟨?_, ?_, fun size there => absurd there (elsewhere size)⟩
  · intro seq message sent
    cases sent
    rw [slave]
    exact Or.inr standing.2.2
  · intro seq message sent
    cases sent
    exact standing.2

theorem unanswered_poll {call : List Event} (stepped : PollStepped p p' events)
    (standing : Standing p call) (unanswered : Unanswered p last) :
    Unanswered p' (events.foldl noteSent last) := by
  cases stepped with
  | purgePopped here message rest queue =>
    simp only [Standing, here] at standing
    exact ⟨fun _ _ _ => Or.inl standing.2.1, unanswered.plain, fun size there => Position.noConfusion there⟩
  | transmitted payload sendmsg here t value port run =>
    exact unanswered_sent standing here rfl (by simp)
  | transmitFailed payload sendmsg here t message port run =>
    exact unanswered_sent standing here rfl (by simp)
  | overran payload sendmsg here t port run =>
    exact unanswered_sent standing here rfl (by simp)
  | received sendmsg here t size port run =>
    refine unanswered.keep rfl id ?_
    intro size'
    dsimp only
    split <;> exact Position.noConfusion
  | refused size sendmsg here addr unwilling =>
    obtain ⟨rxseq, noted⟩ := noteSeq_slave p.slave (inByte p.port 4 &&& 0x03)
    rw [noted]
    exact unanswered.keep rfl id (by simp)
  | accepted size sendmsg here addr willing =>
    have none_left : ((Event.accepted :: (ack (noteSeq p.slave (inByte p.port 4 &&& 0x03))).2.map
        .published).foldl noteSent last) = none := foldl_published (fun _ _ => rfl) _ none
    rw [none_left]
    exact unanswered_none _
  | popped size here message rest queue =>
    have none_left := unanswered.popping size here
    subst none_left
    exact unanswered_none _
  | missed size here now =>
    have silent : ((nak p.slave now).2.map Event.published ++ [Event.ended (.failed size)]).foldl noteSent last =
        last := by
      rw [List.foldl_append, foldl_published (fun _ _ => rfl)]
      rfl
    rw [silent]
    obtain ⟨retry, nextPoll, kept⟩ := nak_slave p.slave now
    have queue : (nak p.slave now).1.msglist = p.slave.msglist := by rw [kept]
    refine unanswered.keep queue ?_ (by simp)
    intro off
    rw [nak_offline off]
    exact off
  | _ => exact unanswered.keep rfl id (by simp)

theorem unanswered_message (unanswered : Unanswered p last) (components : List Bytes) (payload : Bytes) :
    Unanswered { p with slave := (deliver p.slave components payload).1 }
      ((deliver p.slave components payload).2.foldl noteSent last) := by
  have silent : (deliver p.slave components payload).2.foldl noteSent last = last :=
    foldl_deliver (fun _ _ => rfl) (fun _ _ _ => rfl) _ _ _ _
  obtain ⟨more, enabled, slave_eq⟩ := deliver_slave p.slave components payload
  rw [silent, slave_eq]
  refine ⟨?_, unanswered.plain, unanswered.popping⟩
  intro seq message sent
  exact (unanswered.queued seq message sent).imp_right head_append

theorem unanswered_run {config : SerialConfig} {text : Bytes} {ok : Poll → List Event → Move → Prop}
    (run : Run (slaveSystem config text) ok p history) : Unanswered p (unanswered history) := by
  apply slaveRun_invariant (I := fun p history => Unanswered p (Retransmission.unanswered history)) _ _ _ _ run
  · exact unanswered_none _
  · intro p history port crcCount timeoutCount _ unanswered
    exact unanswered.keep rfl id (by simp)
  · intro p history t p' events run _ stepped unanswered
    rw [unanswered_append]
    exact unanswered_poll (pollStep_stepped stepped) (standing_run run) unanswered
  · intro p history components payload _ _ unanswered
    rw [unanswered_append]
    exact unanswered_message unanswered components payload

theorem transmit_sends {t : Tick} {payload : Bytes} {sendmsg : Bool}
    (here : p.position = .transmit payload sendmsg) (flushes : t.flushes = true)
    (stepped : pollStep p t = some (p', events)) :
    ∃ rest, events = .sent p.slave.txseq payload sendmsg :: rest ∧ ∀ event ∈ rest, sentBy event = none := by
  simp only [pollStep, here, transmit, flushes, Bool.not_true, Bool.false_eq_true, if_false] at stepped
  split at stepped
  · cases stepped
    exact ⟨[], rfl, by simp⟩
  next message port run =>
    cases stepped
    exact ⟨[.ended (.exception message)], rfl, by simp [sentBy]⟩
  · cases stepped
    exact ⟨[], rfl, by simp⟩
  · cases stepped

theorem unsent_elsewhere {t : Tick} (stepped : pollStep p t = some (p', events))
    (elsewhere : ∀ payload sendmsg, p.position = .transmit payload sendmsg → t.flushes = false) :
    ∀ event ∈ events, sentBy event = none := by
  have unsent_published (publications : List Publication) :
      ∀ event ∈ publications.map Event.published, sentBy event = none :=
    forall_published (fun _ => rfl) publications
  cases pollStep_stepped stepped with
  | transmitted payload sendmsg here | transmitFailed payload sendmsg here | overran payload sendmsg here =>
    simp only [pollStep, here, transmit, elsewhere payload sendmsg here, Bool.not_false, if_true,
      Poll.leave] at stepped
    cases stepped
  | accepted size sendmsg here addr willing =>
    exact List.forall_mem_cons.mpr ⟨rfl, unsent_published _⟩
  | missed size here now =>
    exact List.forall_mem_append.mpr ⟨unsent_published _, by simp [sentBy]⟩
  | _ => simp [sentBy]

/-- What is said of frames only is true of all events of a step if it is true of the frame it sends. -/
theorem always_sends {P : List Event → Event → Prop} {t : Tick}
    (unsent : ∀ before event, sentBy event = none → P before event)
    (stepped : pollStep p t = some (p', events))
    (sends : ∀ payload sendmsg, p.position = .transmit payload sendmsg → t.flushes = true →
      P history (.sent p.slave.txseq payload sendmsg)) :
    Always (fun before event => P (history ++ before) event) events := by
  have quiet {silent : List Event} (none_sent : ∀ event ∈ silent, sentBy event = none) (before : List Event) :
      Always (fun earlier event => P (before ++ earlier) event) silent :=
    always_of_forall (fun event member earlier => unsent _ event (none_sent event member))
  by_cases sending : ∃ payload sendmsg, p.position = .transmit payload sendmsg ∧ t.flushes = true
  · obtain ⟨payload, sendmsg, here, flushes⟩ := sending
    obtain ⟨rest, events_eq, rest_unsent⟩ := transmit_sends here flushes stepped
    rw [events_eq, always_cons, List.append_nil]
    refine ⟨sends payload sendmsg here flushes, ?_⟩
    have later := quiet rest_unsent (history ++ [.sent p.slave.txseq payload sendmsg])
    simpa only [List.append_assoc, List.singleton_append] using later
  · apply quiet
    apply unsent_elsewhere stepped
    intro payload sendmsg here
    rw [Bool.eq_false_iff]
    intro flushes
    exact sending ⟨payload, sendmsg, here, flushes⟩

theorem always_unsent {P : List Event → Event → Prop}
    (unsent : ∀ before event, sentBy event = none → P before event) (slave : OsdpSlave)
    (components : List Bytes) (payload : Bytes) :
    Always (fun before event => P (history ++ before) event) (deliver slave components payload).2 := by
  apply always_of_forall
  apply forall_deliver
  · intro publication before
    exact unsent _ _ rfl
  · intro message enabled before
    exact unsent _ _ rfl

theorem retransmits_unsent (before : List Event) (event : Event) (unsent : sentBy event = none) :
    Retransmits before event := by
  intro sent sent_eq
  rw [unsent] at sent_eq
  cases sent_eq

/-- The payload that a call has chosen and not yet handed to `writecook`. -/
def chosen (p : Poll) : Option Bytes :=
  match p.position with
  | .front => some (front p.slave)
  | .transmit payload _ => some payload
  | _ => none

/-- What was chosen under the number of the unanswered frame is its payload. -/
def Settled (p : Poll) (last : Option Sent) : Prop :=
  ∀ sent ∈ last, sent.seq = p.slave.txseq → ∀ payload ∈ chosen p, payload = sent.payload

theorem settled_elsewhere (elsewhere : chosen p = none) (last : Option Sent) : Settled p last := by
  intro sent _ _ payload here
  rw [elsewhere] at here
  cases here

inductive Chooses (p p' : Poll) (now : Timespec) : Prop
  | tickles (here : p.position = .tickle) (due : now.before p.slave.nextAssign = false)
      (payload : chosen p' = some [OSDP_POLL])
  | polls (here : p.position = .emptyTest) (empty : p.slave.msglist = []) (payload : chosen p' = some [OSDP_POLL])
  | sends (here : p.position = .emptyTest) (some_left : p.slave.msglist ≠ [])
      (payload : chosen p' = some (front p.slave))

theorem chooses_of_poll {t : Tick} (stepped : pollStep p t = some (p', events)) :
    chosen p' = none ∨ (chosen p' = chosen p ∧ p'.slave = p.slave ∧ events = []) ∨
      (Chooses p p' t.now ∧ chosen p = none ∧ p'.slave.txseq = p.slave.txseq ∧ events = []) := by
  cases pollStep_stepped stepped with
  | tickled here now due =>
    refine Or.inr (Or.inr ⟨.tickles here ?_ rfl, by simp [chosen, here], rfl, rfl⟩)
    by_contra early
    rw [Bool.not_eq_false] at early
    simp only [pollStep, here, if_pos early, Poll.leave, Option.some.injEq, Prod.mk.injEq] at stepped
    exact absurd stepped.2 (by simp)
  | foundEmpty here empty => exact Or.inr (Or.inr ⟨.polls here empty rfl, by simp [chosen, here], rfl, rfl⟩)
  | foundMessage here some_left =>
    exact Or.inr (Or.inr ⟨.sends here some_left rfl, by simp [chosen, here], rfl, rfl⟩)
  | fronted here => exact Or.inr (Or.inl ⟨by simp [chosen, here], rfl, rfl⟩)
  | received =>
    left
    simp only [chosen]
    split
    · next there => split at there <;> cases there
    · next there => split at there <;> cases there
    · rfl
  | accepted size sendmsg =>
    left
    cases sendmsg <;> rfl
  | _ => exact Or.inl rfl

/-- What is chosen is the payload of the unanswered frame exactly if the choice meets the condition. -/
theorem settled_iff {call : List Event} {now : Timespec} (standing : Standing p call) (last_sent : Unanswered p last)
    (choice : Chooses p p' now) (txseq : p'.slave.txseq = p.slave.txseq) :
    Settled p' last ↔ steadyAt p.slave p.position last now = true := by
  cases last with
  | none => simp [Settled, steadyAt]
  | some sent =>
    obtain ⟨seq, payload, sendmsg⟩ := sent
    have message (from_queue : sendmsg = true) (on : offline p.slave = false) :
        p.slave.msglist.head? = some payload := by
      subst from_queue
      exact (last_sent.queued _ _ rfl).resolve_left (by rw [on]; exact Bool.false_ne_true)
    have plain_poll (not_queue : sendmsg = false) : payload = [OSDP_POLL] := by
      subst not_queue
      exact last_sent.plain _ _ rfl
    have as_plain : plain ⟨seq, payload, sendmsg⟩ = true ↔ [OSDP_POLL] = payload := by
      cases sendmsg with
      | true =>
        simp only [plain, Bool.not_true, Bool.false_or, beq_iff_eq]
        exact eq_comm
      | false => simp [plain, plain_poll rfl]
    simp only [Settled, Option.mem_def, Option.some.injEq, forall_eq', txseq, steadyAt, Bool.or_eq_true, bne_iff_ne]
    rw [← imp_iff_not_or]
    apply imp_congr_right
    intro _
    cases choice with
    | tickles here due new => simp [here, due, new, as_plain]
    | polls here empty new => simp [here, empty, new, as_plain]
    | sends here some_left new =>
      simp only [Standing, here] at standing
      obtain ⟨head, rest, queue⟩ := List.exists_cons_of_ne_nil some_left
      simp only [here, new, front, queue, List.headD_cons, Option.some.injEq, forall_eq', List.head?_cons]
      cases sendmsg with
      | true =>
        have same := message rfl standing.2
        rw [queue, List.head?_cons, Option.some.injEq] at same
        simp [same]
      | false => simp [plain_poll rfl]

theorem settled_poll {call : List Event} {t : Tick} (stepped : pollStep p t = some (p', events))
    (standing : Standing p call) (last_sent : Unanswered p last) (settled : Settled p last)
    (steady : steadyAt p.slave p.position last t.now = true) : Settled p' (events.foldl noteSent last) := by
  rcases chooses_of_poll stepped with elsewhere | ⟨same, slave, quiet⟩ | ⟨choice, _, txseq, quiet⟩
  · exact settled_elsewhere elsewhere _
  · rw [quiet]
    intro sent last_eq seq payload here
    exact settled sent last_eq (slave ▸ seq) payload (same ▸ here)
  · rw [quiet]
    exact (settled_iff standing last_sent choice txseq).mpr steady

theorem chosen_message {call : List Event} (standing : Standing p call) (components : List Bytes) (payload : Bytes) :
    chosen { p with slave := (deliver p.slave components payload).1 } = chosen p ∧
      (deliver p.slave components payload).1.txseq = p.slave.txseq := by
  obtain ⟨more, enabled, slave_eq⟩ := deliver_slave p.slave components payload
  rw [slave_eq]
  refine ⟨?_, rfl⟩
  unfold chosen
  dsimp only
  split
  next here =>
    simp only [Standing, here] at standing
    obtain ⟨head, rest, queue⟩ := List.exists_cons_of_ne_nil standing.2.2
    simp [front, queue]
  · rfl
  · rfl

theorem settled_message {call : List Event} (standing : Standing p call) (components : List Bytes) (payload : Bytes) :
    Settled { p with slave := (deliver p.slave components payload).1 }
      ((deliver p.slave components payload).2.foldl noteSent last) ↔ Settled p last := by
  have silent : (deliver p.slave components payload).2.foldl noteSent last = last :=
    foldl_deliver (fun _ _ => rfl) (fun _ _ _ => rfl) _ _ _ _
  obtain ⟨same, txseq⟩ := chosen_message standing components payload
  simp only [Settled, silent, same, txseq]

theorem settled_run {config : SerialConfig} {text : Bytes} (run : Run (slaveSystem config text) SteadyMove p history) :
    Settled p (unanswered history) := by
  apply slaveRun_invariant (I := fun p history => Settled p (unanswered history)) _ _ _ _ run
  · exact settled_elsewhere rfl _
  · intro p history port crcCount timeoutCount _ _
    exact settled_elsewhere rfl _
  · intro p history t p' events run steady stepped settled
    rw [unanswered_append]
    exact settled_poll stepped (standing_run run) (unanswered_run run) settled steady
  · intro p history components payload run _ settled
    rw [unanswered_append]
    exact (settled_message (standing_run run) components payload).mpr settled

theorem always_run {config : SerialConfig} {text : Bytes} (run : Run (slaveSystem config text) SteadyMove p history) :
    Always Retransmits history := by
  apply slaveRun_invariant (I := fun _ history => Always Retransmits history) _ _ _ _ run
  · exact always_cons.mpr ⟨retransmits_unsent _ _ rfl, always_nil _⟩
  · intro p history port crcCount timeoutCount _ always
    exact always
  · intro p history t p' events run steady stepped always
    rw [always_append]
    refine ⟨always, always_sends retransmits_unsent stepped ?_⟩
    intro payload sendmsg here _ sent sent_eq last last_eq seq
    cases sent_eq
    exact settled_run run last last_eq seq payload (by simp [chosen, here])
  · intro p history components payload _ _ always
    rw [always_append]
    exact ⟨always, always_unsent retransmits_unsent p.slave components payload⟩

/-- Only at the two choices a step can miss the condition. -/
theorem choosing_of_unsteady {slave : OsdpSlave} {position : Position} {now : Timespec}
    (unsteady : ¬steadyAt slave position last now = true) :
    position = .tickle ∧ now.before slave.nextAssign = false ∨ position = .emptyTest := by
  unfold steadyAt at unsteady
  split at unsteady
  · exact absurd rfl unsteady
  · rw [Bool.or_eq_true, not_or] at unsteady
    obtain ⟨_, other⟩ := unsteady
    split at other
    · rw [Bool.or_eq_true, not_or, Bool.not_eq_true] at other
      exact Or.inl ⟨rfl, other.1⟩
    · exact Or.inr rfl
    · exact absurd rfl other

/-- A choice that does not meet the condition is of another payload. -/
theorem unsettled_of_unsteady {config : SerialConfig} {text : Bytes} {t : Tick}
    (run : Run (slaveSystem config text) free p history) (polled : pollStep p t = some (p', events))
    (unsteady : ¬steadyAt p.slave p.position (unanswered history) t.now = true) :
    ¬Settled p' (unanswered (history ++ events)) := by
  have choosing := choosing_of_unsteady unsteady
  have fresh : chosen p = none := by
    rcases choosing with ⟨here, _⟩ | here <;> simp [chosen, here]
  have next : chosen p' ≠ none := by
    rcases choosing with ⟨here, due⟩ | here
    · simp only [pollStep, here, due, Bool.false_eq_true, if_false, Poll.goto, Option.some.injEq,
        Prod.mk.injEq] at polled
      rw [← polled.1]
      exact Option.some_ne_none _
    · simp only [pollStep, here, Poll.goto, Option.some.injEq, Prod.mk.injEq] at polled
      rw [← polled.1]
      by_cases empty : p.slave.msglist = []
      · simp [chosen, empty]
      · simp [chosen, empty]
  rcases chooses_of_poll polled with elsewhere | ⟨same, _⟩ | ⟨choice, _, txseq, quiet⟩
  · exact absurd elsewhere next
  · exact absurd (same.trans fresh) next
  · rwa [quiet, List.append_nil, settled_iff (standing_run run) (unanswered_run run) choice txseq]

theorem unsettled_poll {t : Tick} (stepped : pollStep p t = some (p', events))
    (unsettled : ¬Settled p (unanswered history)) :
    (¬Settled p' (unanswered (history ++ events)) ∧ events = []) ∨
      (p'.position = .idle ∧ ∀ event ∈ events, sentBy event = none) ∨ ¬Always Retransmits (history ++ events) := by
  have choosing : chosen p ≠ none := fun elsewhere => unsettled (settled_elsewhere elsewhere _)
  unfold chosen at choosing
  split at choosing
  next here =>
    simp only [pollStep, here, Poll.goto] at stepped
    cases stepped
    refine Or.inl ⟨?_, rfl⟩
    rw [List.append_nil]
    simpa [Settled, chosen, here] using unsettled
  next payload sendmsg here =>
    right
    cases flushes : t.flushes with
    | false =>
      simp only [pollStep, here, transmit, flushes, Bool.not_false, if_true, Poll.leave] at stepped
      cases stepped
      exact Or.inl ⟨rfl, by simp [sentBy]⟩
    | true =>
      right
      obtain ⟨rest, events_eq, _⟩ := transmit_sends here flushes stepped
      rw [events_eq, always_append, always_cons, List.append_nil]
      intro safe
      apply unsettled
      intro last last_eq seq payload' chosen_eq
      simp only [chosen, here, Option.mem_def, Option.some.injEq] at chosen_eq
      exact chosen_eq ▸ safe.2.1 _ rfl last last_eq seq
  next => exact absurd rfl choosing

end Steps

section Choices

variable {config : SerialConfig} {texts : List Bytes} {text : Bytes} {i : Nat} {master after : Master}
  {history : List (Nat × Event)} {p : Poll}

theorem not_always_append {before later : List Event} (broken : ¬Always Retransmits before) :
    ¬Always Retransmits (before ++ later) := fun safe => broken (always_append.mp safe).1

/-- A move of a slave that has chosen another payload leaves it so; or the call ends, or it breaks the law. -/
theorem unsettled_move {p' : Poll} {events : List Event} {history : List Event} {move : Move}
    (run : Run (slaveSystem config text) free p history) (unsettled : ¬Settled p (unanswered history))
    (moved : slaveStep config p move = some (p', events)) :
    (¬Settled p' (unanswered (history ++ events)) ∧ ∀ event ∈ events, sentBy event = none) ∨
      ((∃ t, move = .poll t) ∧ p'.position = .idle ∧ ∀ event ∈ events, sentBy event = none) ∨
        ¬Always Retransmits (history ++ events) := by
  cases move with
  | call port crcCount timeoutCount =>
    simp only [slaveStep] at moved
    split at moved
    next ready =>
      exfalso
      exact unsettled (settled_elsewhere (by simp [chosen, ready.1]) _)
    · cases moved
  | message components payload =>
    simp only [slaveStep, Option.some.injEq, Prod.mk.injEq] at moved
    obtain ⟨slave, told⟩ := moved
    left
    rw [unanswered_append, ← slave, ← told]
    exact ⟨(settled_message (standing_run run) components payload).not.mpr unsettled,
      forall_deliver (fun _ => rfl) (fun _ _ => rfl) p.slave components payload⟩
  | poll t =>
    rcases unsettled_poll moved unsettled with ⟨still, quiet⟩ | ⟨ended, unsent⟩ | broken
    · exact Or.inl ⟨still, by simp [quiet]⟩
    · exact Or.inr (Or.inl ⟨⟨t, rfl⟩, ended, unsent⟩)
    · exact Or.inr (Or.inr broken)

/-- Once a call has chosen another payload, its frame breaks the law. -/
theorem unsettled_path {steps : List (Step Master Action (Nat × Event))} (path : Path (bus config texts) master steps after)
    (follows : Follows config i master p) (run : Run (slaveSystem config text) free p (eventsOf i history))
    (unsettled : ¬Settled p (unanswered (eventsOf i history))) (within : ∀ step ∈ steps, step.before.position ≠ .idle)
    (out : ∃ event ∈ eventsOf i (steps.flatMap Step.events), sentBy event ≠ none) :
    ¬Always Retransmits (eventsOf i (history ++ steps.flatMap Step.events)) := by
  induction path generalizing history p with
  | nil =>
    obtain ⟨event, member, _⟩ := out
    cases member
  | @cons _ _ steps step here stepped rest ih =>
    subst here
    obtain ⟨busy, within⟩ := List.forall_mem_cons.mp within
    obtain ⟨event, member, sent⟩ := out
    rw [List.flatMap_cons, eventsOf_append, List.mem_append] at member
    rw [List.flatMap_cons, ← List.append_assoc]
    have later (unsent : ∀ event ∈ eventsOf i step.events, sentBy event = none) :
        event ∈ eventsOf i (steps.flatMap Step.events) := member.resolve_left fun now => sent (unsent event now)
    rcases step_follows follows stepped with ⟨quiet, still⟩ | ⟨p', move, follows', behind, moved⟩
    · have same : eventsOf i (history ++ step.events) = eventsOf i history := by
        rw [eventsOf_append, quiet, List.append_nil]
      exact ih still (same ▸ run) (same ▸ unsettled) within ⟨event, later (by simp [quiet]), sent⟩
    · have run' : Run (slaveSystem config text) free p' (eventsOf i (history ++ step.events)) := by
        rw [eventsOf_append]
        exact .step run trivial moved
      rcases unsettled_move run unsettled moved with ⟨still, unsent⟩ | ⟨⟨t, polled⟩, ended, unsent⟩ | broken
      · rw [← eventsOf_append] at still
        exact ih follows' run' still within ⟨event, later unsent, sent⟩
      · -- The call is over, so this was the last step.
        subst polled
        obtain ⟨_, selected⟩ := behind
        have come_back : step.after.position = .idle := by
          have same : step.after.pollSlave = i := by
            rw [← selected]
            exact (step_stepped stepped).pollSlave busy
          rw [← ended, follows'.position, if_pos same]
        cases rest with
        | nil => cases later unsent
        | cons next here => exact absurd (here ▸ come_back) (within next List.mem_cons_self)
      · rw [eventsOf_append, eventsOf_append]
        exact not_always_append broken

end Choices

/-- With the condition on its steps, a run never uses a sequence number again for another payload
while the first frame is unanswered; and a choice that does not meet the condition breaks that with the frame of
its call. -/
theorem reuse_retransmits (config : SerialConfig) (texts : List Bytes) (i : Nat) (text : Bytes)
    (configured : texts[i]? = some text) (master : Master) (history : List (Nat × Event)) :
    (Run (bus config texts) Steady master history → Always Retransmits (eventsOf i history)) ∧
    (Run (bus config texts) free master history → master.pollSlave = i →
      ∀ t master' events, ¬Steady master history (.poll t) → step master (.poll t) = some (master', events) →
        ∀ steps after, Path (bus config texts) master' steps after →
          (∀ one ∈ steps, one.before.position ≠ .idle) →
          (∃ seq payload sendmsg, (i, .sent seq payload sendmsg) ∈ steps.flatMap Step.events) →
          ¬Always Retransmits (eventsOf i (history ++ events ++ steps.flatMap Step.events))) := by
  refine ⟨?_, ?_⟩
  · intro run
    obtain ⟨p, follows, slaveRun⟩ := run_follows configured
      (fun _ _ _ _ _ follows steady behind => steady_behind follows steady behind) run
    exact always_run slaveRun
  · intro run selected t master' events unsteady stepped steps after path within out
    obtain ⟨p, follows, slaveRun⟩ := run_slave configured run
    have position : p.position = master.position := by rw [follows.position, if_pos selected]
    have unsteadyAt : ¬steadyAt p.slave p.position (unanswered (eventsOf i history)) t.now = true := by
      intro steadyAt
      apply unsteady
      intro slave there
      rw [selected, follows.slave] at there
      cases there
      rw [selected, ← position]
      exact steadyAt
    have busy : master.position ≠ .idle := by
      rw [← position]
      rcases choosing_of_unsteady unsteadyAt with ⟨here, _⟩ | here <;> rw [here] <;> exact Position.noConfusion
    simp only [step, if_neg busy] at stepped
    rcases pollSelected_follows follows busy stepped with ⟨other, _⟩ | ⟨p', _, follows', polled⟩
    · exact absurd selected other
    · have moved : (slaveSystem config text).step p (.poll t) = some (p', eventsOf i events) := polled
      have slaveRun' : Run (slaveSystem config text) free p' (eventsOf i (history ++ events)) := by
        rw [eventsOf_append]
        exact .step slaveRun trivial moved
      have unsettled : ¬Settled p' (unanswered (eventsOf i (history ++ events))) := by
        rw [eventsOf_append]
        exact unsettled_of_unsteady slaveRun polled unsteadyAt
      obtain ⟨seq, payload, sendmsg, sent⟩ := out
      exact unsettled_path path follows' slaveRun' unsettled within
        ⟨_, mem_eventsOf.mpr sent, Option.some_ne_none _⟩

def silence : List ReadOutcome := [.eagain ⟨1, 0⟩]

theorem reuse_retransmits_message :
    ∃ master history, Run (bus plainPort [ascii "5"]) Steady master history ∧
      (eventsOf 0 history).count (.sent 1 [OSDP_POLL, 7] true) = 2 ∧ Always Retransmits (eventsOf 0 history) := by
  have checked : (replay (bus plainPort [ascii "5"]) Steady (bus plainPort [ascii "5"]).start
      (bus plainPort [ascii "5"]).startup
      (polls 8 ⟨0, 0⟩ [.data ackReply] ++ .message (ascii "osdp/bus1/outgoing/5") [OSDP_POLL, 7] ::
        (polls 8 ⟨0, 0⟩ silence ++ polls 6 ⟨1, 0⟩ []))).any (fun reached =>
        (eventsOf 0 reached.2).count (.sent 1 [OSDP_POLL, 7] true) == 2) = true := by
    decide +kernel
  obtain ⟨master, history, run, twice⟩ := exists_run checked
  have safe := (reuse_retransmits plainPort [ascii "5"] 0 (ascii "5") rfl master history).1 run
  exact ⟨master, history, run, beq_iff_eq.mp twice, safe⟩

/-- A poll gets no reply, a message comes in, and it goes out with the number of the poll. -/
theorem reuse_changes_payload :
    ¬∀ (master : Master) (history : List (Nat × Event)),
      Run (bus plainPort [ascii "5"]) free master history → Always Retransmits (eventsOf 0 history) := by
  intro always
  have checked : (replay (bus plainPort [ascii "5"]) free (bus plainPort [ascii "5"]).start
      (bus plainPort [ascii "5"]).startup
      (polls 8 ⟨0, 0⟩ [.data ackReply] ++ polls 7 ⟨0, 0⟩ silence ++
        .message (ascii "osdp/bus1/outgoing/5") [OSDP_POLL, 7] :: polls 6 ⟨1, 0⟩ [])).any (fun reached =>
        !decide (Always Retransmits (eventsOf 0 reached.2))) = true := by
    decide +kernel
  obtain ⟨master, history, run, broken⟩ := exists_run checked
  have safe := always master history run
  rw [decide_eq_true safe] at broken
  cases broken

end OsdpMaster.Retransmission
