import OsdpMaster.QueueHistory
import OsdpMaster.SequenceNumbers

/-!
What becomes of the messages at the other end. The comment on sequence numbers in
`osdpslave.cpp` says what a slave makes of a frame: under a number it has just
heard, or under zero, it sends its last reply again and leaves the command alone.
Frames may be lost on the way to such a slave, and replies on the way back.
-/

namespace OsdpMaster.CommandDelivery
open OsdpMaster.Protocol OsdpMaster.Slave OsdpMaster.SlavePoll OsdpMaster.SlaveRun OsdpMaster.CallHistory
open OsdpMaster.QueueHistory OsdpMaster.Retransmission OsdpMaster.SequenceNumbers OsdpMaster.Bus
open OsdpMaster.Lib.Trace

/-- The slave at the other end: the number of the last frame it heard, how many frames were sent to it, and
the messages it has carried out. A plain poll asks for nothing. -/
structure Device where
  last : UInt8
  frames : Nat
  performed : List Bytes
  deriving DecidableEq

def Device.hear (device : Device) (sent : Sent) : Device :=
  { device with
    last := sent.seq
    performed := if sent.seq = 0 ∨ sent.seq = device.last ∨ sent.sendmsg = false then device.performed
      else device.performed ++ [sent.payload] }

/-- `heard` says which of the frames to this slave get through. -/
def noteFrame (heard : Nat → Bool) (device : Device) : Event → Device
  | .sent seq payload sendmsg =>
    { (if heard device.frames then device.hear ⟨seq, payload, sendmsg⟩ else device) with
      frames := device.frames + 1 }
  | _ => device

def deviceAfter (heard : Nat → Bool) (last : UInt8) (history : List Event) : Device :=
  history.foldl (noteFrame heard) ⟨last, 0, []⟩

theorem deviceAfter_append (heard : Nat → Bool) (last : UInt8) (history events : List Event) :
    deviceAfter heard last (history ++ events) = events.foldl (noteFrame heard) (deviceAfter heard last history) :=
  List.foldl_append

section Frames

variable {heard : Nat → Bool} {device : Device} {sent : Sent}

theorem noteFrame_lost (lost : heard device.frames = false) (seq : UInt8) (payload : Bytes) (sendmsg : Bool) :
    noteFrame heard device (.sent seq payload sendmsg) = { device with frames := device.frames + 1 } := by
  simp [noteFrame, lost]

theorem noteFrame_heard (through : heard device.frames = true) (seq : UInt8) (payload : Bytes) (sendmsg : Bool) :
    noteFrame heard device (.sent seq payload sendmsg) =
      { device.hear ⟨seq, payload, sendmsg⟩ with frames := device.frames + 1 } := by
  simp [noteFrame, through]

theorem performed_plain (heard : Nat → Bool) (device : Device) (seq : UInt8) (payload : Bytes) :
    (noteFrame heard device (.sent seq payload false)).performed = device.performed := by
  cases through : heard device.frames with
  | false => rw [noteFrame_lost through]
  | true => simp [noteFrame_heard through, Device.hear]

theorem hear_again (again : sent.seq = 0 ∨ sent.seq = device.last) :
    (device.hear sent).performed = device.performed := by
  rw [Device.hear, if_pos (or_assoc.mp (Or.inl again))]

theorem hear_new (fresh : ¬(sent.seq = 0 ∨ sent.seq = device.last)) (command : sent.sendmsg = true) :
    (device.hear sent).performed = device.performed ++ [sent.payload] := by
  rw [Device.hear, if_neg]
  rw [← or_assoc, command]
  simpa using fresh

end Frames

/-- The call has found nothing to send. -/
def plain : Position → Bool
  | .tickle | .transmit _ false | .receive false | .reply _ false => true
  | _ => false

/-- Where the slave may have carried out the head of the queue, its number has not changed since. -/
def Open (p : Poll) (device : Device) : Prop :=
  plain p.position = false ∧
    ((∃ size, p.position = .pop size) ∨ p.slave.txseq = 0 ∨ device.last = p.slave.txseq)

/-- What the slave has carried out has left the queue, or all but its head has. -/
def Done (p : Poll) (gone : List Bytes) (device : Device) : Prop :=
  device.performed.Sublist gone ∨
    ∃ message, p.slave.msglist.head? = some message ∧ device.performed.Sublist (gone ++ [message]) ∧ Open p device

section Steps

variable {heard : Nat → Bool} {p p' : Poll} {gone : List Bytes} {device : Device} {events call : List Event}

theorem Done.keep (done : Done p gone device) (queue : p'.slave.msglist = p.slave.msglist)
    (stays : Open p device → Open p' device) : Done p' gone device := by
  rcases done with all | ⟨message, head, but_one, still⟩
  · exact Or.inl all
  · exact Or.inr ⟨message, queue ▸ head, but_one, stays still⟩

theorem Done.of_empty (done : Done p gone device) (empty : p.slave.msglist = []) : Done p' gone device := by
  rcases done with all | ⟨message, head, _⟩
  · exact Or.inl all
  · rw [empty] at head
    cases head

theorem Done.of_plain (done : Done p gone device) (here : plain p.position = true) : Done p' gone device := by
  rcases done with all | ⟨message, _, _, other, _⟩
  · exact Or.inl all
  · rw [here] at other
    cases other

theorem Done.pops (done : Done p gone device) {message : Bytes} {rest : List Bytes}
    (queue : p.slave.msglist = message :: rest) : Done p' (gone ++ [message]) device := by
  rcases done with all | ⟨head, head_eq, but_one, _⟩
  · exact Or.inl (all.trans (List.sublist_append_left _ _))
  · rw [queue, List.head?_cons, Option.some.injEq] at head_eq
    exact Or.inl (head_eq ▸ but_one)

theorem Open.elsewhere (still : Open p device) (landed : plain p'.position = false)
    (unpopped : ∀ size, p.position ≠ .pop size) (txseq : p'.slave.txseq = p.slave.txseq) : Open p' device := by
  refine ⟨landed, Or.inr ?_⟩
  rw [txseq]
  exact still.2.resolve_left fun ⟨size, popping⟩ => unpopped size popping

theorem Done.goes_on (done : Done p gone device) (same : p'.slave.msglist = p.slave.msglist)
    (txseq : p'.slave.txseq = p.slave.txseq) (unpopped : ∀ size, p.position ≠ .pop size)
    (landed : plain p.position = false → plain p'.position = false) : Done p' gone device :=
  done.keep same fun still => still.elsewhere (landed still.1) unpopped txseq

theorem Done.sends (done : Done p gone device) (standing : Standing p call) {payload : Bytes} {sendmsg : Bool}
    (here : p.position = .transmit payload sendmsg) (same : p'.slave = p.slave)
    (landed : sendmsg = true → plain p'.position = false) :
    Done p' gone (noteFrame heard device (.sent p.slave.txseq payload sendmsg)) := by
  cases sendmsg with
  | false =>
    rcases done with all | ⟨_, _, _, other, _⟩
    · left
      rw [performed_plain]
      exact all
    · rw [here] at other
      cases other
  | true =>
    simp only [Standing, here] at standing
    have head : p'.slave.msglist.head? = some payload := by rw [same, standing.2.2]
    have still : Open p device → p.slave.txseq = 0 ∨ p.slave.txseq = device.last := by
      intro still
      rcases still.2 with ⟨size, popping⟩ | zero | number
      · rw [here] at popping
        cases popping
      · exact Or.inl zero
      · exact Or.inr number.symm
    cases through : heard device.frames with
    | false =>
      rw [noteFrame_lost through]
      rcases done with all | ⟨message, message_eq, but_one, opened⟩
      · exact Or.inl all
      · right
        refine ⟨message, by rw [same, message_eq], but_one, landed rfl, Or.inr ?_⟩
        rw [same]
        exact (still opened).imp_right Eq.symm
    | true =>
      rw [noteFrame_heard through]
      have number : Open p' { device.hear ⟨p.slave.txseq, payload, true⟩ with frames := device.frames + 1 } := by
        refine ⟨landed rfl, Or.inr (Or.inr ?_)⟩
        rw [same]
        rfl
      by_cases again : p.slave.txseq = 0 ∨ p.slave.txseq = device.last
      · have unchanged : (device.hear ⟨p.slave.txseq, payload, true⟩).performed = device.performed := hear_again again
        rcases done with all | ⟨message, message_eq, but_one, _⟩
        · left
          rw [unchanged]
          exact all
        · right
          refine ⟨message, by rw [same, message_eq], ?_, number⟩
          rw [unchanged]
          exact but_one
      · have grown : (device.hear ⟨p.slave.txseq, payload, true⟩).performed = device.performed ++ [payload] :=
          hear_new again rfl
        rcases done with all | ⟨_, _, _, opened⟩
        · right
          refine ⟨payload, head, ?_, number⟩
          rw [grown]
          exact all.append_right [payload]
        · exact absurd (still opened) again

theorem Done.none_gone (done : Done p' gone device) (none_gone : removals events = []) :
    Done p' (gone ++ removals events) device := by
  rw [none_gone, List.append_nil]
  exact done

theorem done_poll (stepped : PollStepped p p' events) (standing : Standing p call) (done : Done p gone device) :
    Done p' (gone ++ removals events) (events.foldl (noteFrame heard) device) := by
  cases stepped with
  | purgePopped here message rest queue => exact done.pops queue
  | popped size here message rest queue => exact done.pops queue
  | purged here empty | foundEmpty here empty =>
    apply Done.none_gone
    · exact done.of_empty empty
    · rfl
  | notDue here | tickled here =>
    apply Done.none_gone
    · exact done.of_plain (by rw [here]; rfl)
    · rfl
  | transmitted payload sendmsg here t value port run =>
    apply Done.none_gone
    · refine done.sends standing here (by rfl) ?_
      intro command
      subst command
      rfl
    · rfl
  | transmitFailed payload sendmsg here t message port run =>
    apply Done.none_gone
    · exact done.sends standing here rfl fun _ => rfl
    · rfl
  | overran payload sendmsg here t port run =>
    apply Done.none_gone
    · exact done.sends standing here rfl fun _ => rfl
    · rfl
  | received sendmsg here t size port run =>
    apply Done.none_gone
    · refine done.goes_on rfl rfl (by rw [here]; simp) fun other => ?_
      rw [here] at other
      cases sendmsg with
      | true =>
        dsimp only
        split <;> rfl
      | false => cases other
    · rfl
  | refused size sendmsg here addr unwilling =>
    obtain ⟨rxseq, noted⟩ := noteSeq_slave p.slave (inByte p.port 4 &&& 0x03)
    rw [noted]
    apply Done.none_gone
    · refine done.keep rfl fun still => ⟨rfl, Or.inr ?_⟩
      by_cases nak : inByte p.port 5 = OSDP_NAK
      · exact Or.inl (if_pos nak)
      · have same : (refused { p.slave with rxseq := rxseq } (inByte p.port 5) (inByte p.port 4 &&& 0x03)).txseq =
            p.slave.txseq := if_neg nak
        rw [same]
        exact still.2.resolve_left fun ⟨_, popping⟩ => by rw [here] at popping; cases popping
    · rfl
  | accepted size sendmsg here addr willing =>
    obtain ⟨rxseq, noted⟩ := noteSeq_slave p.slave (inByte p.port 4 &&& 0x03)
    rw [noted, List.foldl_cons, foldl_published (fun _ _ => rfl)]
    apply Done.none_gone
    · cases sendmsg with
      | true => exact done.keep rfl fun _ => ⟨rfl, Or.inl ⟨size, rfl⟩⟩
      | false => exact done.of_plain (by rw [here]; rfl)
    · exact removals_published _
  | missed size here now =>
    obtain ⟨retry, nextPoll, kept⟩ := nak_slave p.slave now
    rw [List.foldl_append, foldl_published (fun _ _ => rfl)]
    apply Done.none_gone
    · exact done.goes_on (by rw [kept]) (by rw [kept]) (by rw [here]; simp) fun _ => rfl
    · rw [removals_append, removals_published]
      rfl
  | faulted here =>
    apply Done.none_gone
    · rcases here with ⟨_, empty⟩ | ⟨here, _⟩ | ⟨_, _, empty⟩
      · exact done.of_empty empty
      · exact done.goes_on rfl rfl (by rw [here]; simp) fun _ => rfl
      · exact done.of_empty empty
    · rfl
  | foundOffline here | foundOnline here | purging here | notYet here | backedOff here | foundMessage here
  | fronted here | flushFailed _ _ here | receiveFailed _ here | wrongAddress _ _ here | handedOn _ here
  | replied _ here =>
    apply Done.none_gone
    · exact done.goes_on rfl rfl (by rw [here]; simp) fun _ => rfl
    · rfl

theorem done_message (done : Done p gone device) (components : List Bytes) (payload : Bytes) :
    Done { p with slave := (deliver p.slave components payload).1 } gone device := by
  obtain ⟨more, enabled, slave_eq⟩ := deliver_slave p.slave components payload
  rw [slave_eq]
  rcases done with all | ⟨message, head, but_one, still⟩
  · exact Or.inl all
  · exact Or.inr ⟨message, head_append head, but_one, still⟩

end Steps

theorem done_run (heard : Nat → Bool) (last : UInt8) {config : SerialConfig} {text : Bytes}
    {ok : Poll → List Event → Move → Prop} {p : Poll} {history : List Event}
    (run : Run (slaveSystem config text) ok p history) :
    Done p (removals history) (deviceAfter heard last history) := by
  apply slaveRun_invariant (I := fun p history => Done p (removals history) (deviceAfter heard last history)) _ _ _ _ run
  · exact Or.inl (List.nil_sublist _)
  · intro p history port crcCount timeoutCount idle done
    exact done.goes_on rfl rfl (by rw [idle]; simp) fun _ => rfl
  · intro p history t p' events run _ stepped done
    rw [removals_append, deviceAfter_append]
    exact done_poll (pollStep_stepped stepped) (standing_run run) done
  · intro p history components payload _ _ done
    obtain ⟨_, none_gone, _⟩ := queue_message p.slave components payload
    rw [removals_append, deviceAfter_append, none_gone, List.append_nil,
      foldl_deliver (fun _ _ => rfl) (fun _ _ _ => rfl)]
    exact done_message done components payload

theorem performed_run (heard : Nat → Bool) (last : UInt8) {config : SerialConfig} {text : Bytes}
    {ok : Poll → List Event → Move → Prop} {p : Poll} {history : List Event}
    (run : Run (slaveSystem config text) ok p history) :
    (deviceAfter heard last history).performed.Sublist (arrivals history) := by
  rw [← (ledger_run run).balance]
  rcases done_run heard last run with all | ⟨message, head, but_one, _⟩
  · exact all.trans (List.sublist_append_left _ _)
  · obtain ⟨rest, queue⟩ := List.head?_eq_some_iff.mp head
    rw [queue]
    exact but_one.trans ((List.singleton_sublist.mpr List.mem_cons_self).append_left _)

section Answers

/-- The messages that left the queue after the reply to them. -/
def answered (history : List Event) : List Bytes :=
  history.filterMap (fun event => match event with
    | .removed message false => some message
    | _ => none)

def sends (history : List Event) : Nat := history.countP (fun event => (sentBy event).isSome)

/-- No message goes out under zero or under the number of an unanswered plain poll, and no reply is accepted
but to a frame that got through. -/
def Kept (heard : Nat → Bool) (before : List Event) : Event → Prop
  | .sent seq _ true => seq ≠ 0 ∧ ∀ last ∈ unanswered before, last.seq = seq → last.sendmsg = true
  | .accepted => heard (sends before - 1) = true
  | _ => True

instance (heard : Nat → Bool) (before : List Event) : ∀ event, Decidable (Kept heard before event)
  | .sent seq _ true =>
    inferInstanceAs (Decidable (seq ≠ 0 ∧ ∀ last ∈ unanswered before, last.seq = seq → last.sendmsg = true))
  | .accepted => inferInstanceAs (Decidable (heard (sends before - 1) = true))
  | .sent _ _ false => isTrue trivial
  | .arrived _ _ | .called _ | .received _ _ | .removed _ _ | .published _ | .ended _ => isTrue trivial

theorem answered_append (first second : List Event) :
    answered (first ++ second) = answered first ++ answered second := List.filterMap_append

@[simp] theorem answered_published (publications : List Publication) :
    answered (publications.map .published) = [] := by
  simp [answered]

theorem answered_deliver (slave : OsdpSlave) (components : List Bytes) (payload : Bytes) :
    answered (deliver slave components payload).2 = [] := by
  rw [answered, List.filterMap_eq_nil_iff]
  exact forall_deliver (fun _ => rfl) (fun _ _ => rfl) slave components payload

theorem deviceAfter_frames (heard : Nat → Bool) (last : UInt8) (history : List Event) :
    (deviceAfter heard last history).frames = sends history := by
  induction history using List.reverseRecOn with
  | nil => rfl
  | append_singleton history event ih =>
    rw [deviceAfter_append, sends, List.countP_append, ← sends, ← ih]
    cases event with
    | sent seq payload sendmsg => rfl
    | _ => rfl

/-- The call waits for the reply to a frame, and whether that is a message. -/
def awaits : Position → Option Bool
  | .receive sendmsg | .reply _ sendmsg => some sendmsg
  | _ => none

structure Out (heard : Nat → Bool) (p : Poll) (history : List Event) (device : Device) (sendmsg : Bool) : Prop where
  through : heard (device.frames - 1) = true → device.last = p.slave.txseq
  number : sendmsg = true → p.slave.txseq ≠ 0
  message : sendmsg = true → ∃ message, unanswered history = some ⟨p.slave.txseq, message, true⟩ ∧
    p.slave.msglist.head? = some message

/-- The slave has carried out what was answered, and the head of the queue if it heard it under the present
number. -/
structure Answered (heard : Nat → Bool) (p : Poll) (history : List Event) (device : Device) : Prop where
  done : (answered history).Sublist device.performed
  repeats : p.slave.txseq ≠ 0 → device.last = p.slave.txseq → ∃ last ∈ unanswered history,
    last.seq = p.slave.txseq ∧ (last.sendmsg = true → (answered history ++ [last.payload]).Sublist device.performed)
  out : ∀ sendmsg ∈ awaits p.position, Out heard p history device sendmsg
  popping : ∀ size, p.position = .pop size → device.last ≠ p.slave.txseq ∧
    ∃ message, p.slave.msglist.head? = some message ∧ (answered history ++ [message]).Sublist device.performed

variable {heard : Nat → Bool} {p p' : Poll} {history events call : List Event} {device : Device}

structure Heard (heard : Nat → Bool) (device : Device) (sent : Sent) (after : Device) : Prop where
  grows : device.performed.Sublist after.performed
  through : heard (after.frames - 1) = true → after.last = sent.seq
  carries : sent.sendmsg = true → sent.seq ≠ 0 → after.last = sent.seq →
    after.performed = device.performed ++ [sent.payload] ∨ device.last = sent.seq

theorem heard_frame (heard : Nat → Bool) (device : Device) (seq : UInt8) (payload : Bytes) (sendmsg : Bool) :
    Heard heard device ⟨seq, payload, sendmsg⟩ (noteFrame heard device (.sent seq payload sendmsg)) := by
  cases through : heard device.frames with
  | false =>
    rw [noteFrame_lost through]
    refine ⟨List.Sublist.refl _, fun got => ?_, fun _ _ same => Or.inr same⟩
    rw [Nat.add_sub_cancel, through] at got
    cases got
  | true =>
    rw [noteFrame_heard through]
    by_cases again : seq = 0 ∨ seq = device.last
    · have unchanged : (device.hear ⟨seq, payload, sendmsg⟩).performed = device.performed := hear_again again
      exact ⟨unchanged ▸ List.Sublist.refl _, fun _ => rfl,
        fun _ nonzero _ => Or.inr (again.resolve_left nonzero).symm⟩
    · cases sendmsg with
      | true =>
        have grown : (device.hear ⟨seq, payload, true⟩).performed = device.performed ++ [payload] :=
          hear_new again rfl
        exact ⟨grown ▸ List.sublist_append_left _ _, fun _ => rfl, fun _ _ _ => Or.inl grown⟩
      | false =>
        have unchanged : (device.hear ⟨seq, payload, false⟩).performed = device.performed :=
          if_pos (Or.inr (Or.inr rfl))
        exact ⟨unchanged ▸ List.Sublist.refl _, fun _ => rfl, Bool.noConfusion⟩

theorem Answered.keep (holds : Answered heard p history device) (none_new : answered events = [])
    (same : unanswered (history ++ events) = unanswered history) (txseq : p'.slave.txseq = p.slave.txseq)
    (idle : awaits p'.position = none) (unpopped : ∀ size, p'.position ≠ .pop size) :
    Answered heard p' (history ++ events) device where
  done := by
    rw [answered_append, none_new, List.append_nil]
    exact holds.done
  repeats := by
    rw [answered_append, none_new, List.append_nil, same, txseq]
    exact holds.repeats
  out sendmsg waits := by
    rw [idle] at waits
    cases waits
  popping size there := absurd there (unpopped size)

theorem Answered.sends (holds : Answered heard p history device) (standing : Standing p call)
    (last : Unanswered p (unanswered history)) {payload : Bytes} {sendmsg : Bool}
    (here : p.position = .transmit payload sendmsg)
    (kept : Kept heard history (.sent p.slave.txseq payload sendmsg)) (same : p'.slave = p.slave)
    (there : ∀ waiting ∈ awaits p'.position, waiting = sendmsg) (unpopped : ∀ size, p'.position ≠ .pop size) :
    Answered heard p' (history ++ [.sent p.slave.txseq payload sendmsg])
      (noteFrame heard device (.sent p.slave.txseq payload sendmsg)) := by
  have none_new : answered (history ++ [.sent p.slave.txseq payload sendmsg]) = answered history := by
    rw [answered_append]
    exact List.append_nil _
  have out : unanswered (history ++ [.sent p.slave.txseq payload sendmsg]) =
      some ⟨p.slave.txseq, payload, sendmsg⟩ := by
    rw [unanswered_append]
    rfl
  -- A message under the number heard last is the one that was heard under it.
  have again (command : sendmsg = true) (number : device.last = p.slave.txseq) :
      (answered history ++ [payload]).Sublist device.performed := by
    subst command
    obtain ⟨earlier, member, seq, carried⟩ := holds.repeats kept.1 number
    have message := kept.2 earlier member seq
    obtain ⟨earlierSeq, earlierPayload, earlierSendmsg⟩ := earlier
    dsimp only at message
    subst message
    simp only [Standing, here] at standing
    have online := standing.2.1
    have head : p.slave.msglist.head? = some earlierPayload :=
      (last.queued _ _ member).resolve_left (by rw [online]; exact Bool.false_ne_true)
    have payload_eq : payload = earlierPayload := Option.some.inj (standing.2.2.symm.trans head)
    rw [payload_eq]
    exact carried rfl
  have number (command : sendmsg = true) : p.slave.txseq ≠ 0 := by
    subst command
    exact kept.1
  have head (command : sendmsg = true) : p.slave.msglist.head? = some payload := by
    subst command
    simp only [Standing, here] at standing
    exact standing.2.2
  have heard_it := heard_frame heard device p.slave.txseq payload sendmsg
  generalize noteFrame heard device (.sent p.slave.txseq payload sendmsg) = after at heard_it
  refine ⟨?_, ?_, ?_, fun size there => absurd there (unpopped size)⟩
  · rw [none_new]
    exact holds.done.trans heard_it.grows
  · rw [none_new, out, same]
    intro nonzero seq
    refine ⟨_, rfl, rfl, fun command => ?_⟩
    rcases heard_it.carries command nonzero seq with performed | number_before
    · rw [performed]
      exact holds.done.append_right [payload]
    · exact (again command number_before).trans heard_it.grows
  · intro waiting waits
    rw [there waiting waits]
    refine ⟨?_, ?_, fun command => ⟨payload, ?_, ?_⟩⟩
    · rw [same]
      exact heard_it.through
    · rw [same]
      exact number
    · rw [same, out, command]
    · rw [same]
      exact head command

/-- An honest reply is accepted: the slave has heard the frame, and the next number is another one. -/
theorem Answered.accepts (holds : Answered heard p history device) {sendmsg : Bool}
    (waits : awaits p.position = some sendmsg) (honest : heard (device.frames - 1) = true)
    (none_new : answered events = []) (slave : p'.slave.txseq = nextSeq p.slave.txseq)
    (queue : p'.slave.msglist = p.slave.msglist) (landed : awaits p'.position = none)
    (pops : ∀ size, p'.position = .pop size → sendmsg = true) : Answered heard p' (history ++ events) device := by
  obtain ⟨through, number, message⟩ := holds.out sendmsg waits
  have other : device.last ≠ p'.slave.txseq := by
    rw [slave, through honest]
    exact (nextSeq_ne _).symm
  have same : answered (history ++ events) = answered history := by
    rw [answered_append, none_new, List.append_nil]
  refine ⟨same ▸ holds.done, fun _ impossible => absurd impossible other, ?_, ?_⟩
  · intro waiting still
    rw [landed] at still
    cases still
  · intro size there
    have command := pops size there
    obtain ⟨message, out, head⟩ := message command
    obtain ⟨last, member, _, carried⟩ := holds.repeats (number command) (through honest)
    cases out.symm.trans member
    exact ⟨other, message, queue ▸ head, same ▸ carried rfl⟩

theorem Answered.pops (holds : Answered heard p history device) {size : Int} (here : p.position = .pop size)
    {message : Bytes} {rest : List Bytes} (queue : p.slave.msglist = message :: rest)
    (slave : p'.slave.txseq = p.slave.txseq) (landed : awaits p'.position = none)
    (unpopped : ∀ size, p'.position ≠ .pop size) :
    Answered heard p' (history ++ [.removed message false]) device := by
  obtain ⟨other, head, head_eq, carried⟩ := holds.popping size here
  rw [queue, List.head?_cons, Option.some.injEq] at head_eq
  subst head_eq
  refine ⟨?_, ?_, ?_, fun size there => absurd there (unpopped size)⟩
  · rw [answered_append]
    exact carried
  · rw [slave]
    exact fun _ impossible => absurd impossible other
  · intro waiting still
    rw [landed] at still
    cases still

theorem Answered.refuses (holds : Answered heard p history device) {slave : OsdpSlave}
    (txseq : slave.txseq = p.slave.txseq) (code seq : UInt8) (ending : Ending) :
    Answered heard { p with slave := refused slave code seq, position := .idle } (history ++ [.ended ending])
      device := by
  have same : unanswered (history ++ [.ended ending]) = unanswered history := by
    rw [unanswered_append]
    rfl
  by_cases nak : code = OSDP_NAK
  · have zero : (refused slave code seq).txseq = 0 := if_pos nak
    refine ⟨?_, fun nonzero => absurd zero nonzero, (fun _ waits => by cases waits), by simp⟩
    rw [answered_append]
    exact (List.append_nil (answered history)).symm ▸ holds.done
  · have kept : (refused slave code seq).txseq = p.slave.txseq := (if_neg nak).trans txseq
    exact holds.keep rfl same kept rfl (by simp)

theorem answered_poll (stepped : PollStepped p p' events) (standing : Standing p call)
    (last : Unanswered p (unanswered history)) (frames : device.frames = CommandDelivery.sends history)
    (kept : Always (fun before event => Kept heard (history ++ before) event) events)
    (holds : Answered heard p history device) :
    Answered heard p' (history ++ events) (events.foldl (noteFrame heard) device) := by
  cases stepped with
  | transmitted payload sendmsg here t value port run =>
    rw [always_cons, List.append_nil] at kept
    refine holds.sends standing last here kept.1 (by rfl) (fun waiting waits => ?_) (by simp)
    exact (Option.some.inj waits).symm
  | transmitFailed payload sendmsg here t message port run =>
    rw [always_cons, List.append_nil] at kept
    have sent : Answered heard { p with port := port, position := .idle }
        (history ++ [.sent p.slave.txseq payload sendmsg])
        (noteFrame heard device (.sent p.slave.txseq payload sendmsg)) :=
      holds.sends standing last here kept.1 rfl (fun _ waits => by cases waits) (by simp)
    rw [← List.singleton_append, ← List.append_assoc]
    refine sent.keep rfl ?_ rfl rfl (by simp)
    rw [unanswered_append]
    rfl
  | overran payload sendmsg here t port run =>
    rw [always_cons, List.append_nil] at kept
    exact holds.sends standing last here kept.1 (by rfl) (fun _ waits => by cases waits) (by simp)
  | received sendmsg here t size port run =>
    have same : unanswered (history ++ [.received size port.inBuffer.bytes]) = unanswered history := by
      rw [unanswered_append]
      rfl
    have none_new : answered (history ++ [.received size port.inBuffer.bytes]) = answered history := by
      rw [answered_append]
      exact List.append_nil _
    refine ⟨by rw [none_new]; exact holds.done, by rw [none_new, same]; exact holds.repeats, ?_, ?_⟩
    · intro waiting waits
      have waiting_eq : waiting = sendmsg := by
        dsimp only at waits
        split at waits
        · exact (Option.some.inj waits).symm
        · cases waits
      subst waiting_eq
      obtain ⟨through, number, message⟩ := holds.out waiting (by rw [here]; rfl)
      exact ⟨through, number, by rw [same]; exact message⟩
    · intro size'
      dsimp only
      split <;> exact fun impossible => Position.noConfusion impossible
  | refused size sendmsg here addr unwilling =>
    obtain ⟨rxseq, noted⟩ := noteSeq_slave p.slave (inByte p.port 4 &&& 0x03)
    exact holds.refuses (by rw [noted]) _ _ _
  | accepted size sendmsg here addr willing =>
    obtain ⟨rxseq, noted⟩ := noteSeq_slave p.slave (inByte p.port 4 &&& 0x03)
    rw [always_cons, List.append_nil] at kept
    have honest : heard (device.frames - 1) = true := frames ▸ kept.1
    rw [noted, List.foldl_cons, foldl_published (fun _ _ => rfl)]
    refine holds.accepts (by rw [here]; rfl) honest (answered_published _) (by rfl) (by rfl) ?_ ?_
    · cases sendmsg <;> rfl
    · intro size' there
      cases sendmsg with
      | true => rfl
      | false => cases there
  | popped size here message rest queue => exact holds.pops here queue (by rfl) (by rfl) (by simp)
  | missed size here now =>
    obtain ⟨retry, nextPoll, kept⟩ := nak_slave p.slave now
    rw [List.foldl_append, foldl_published (fun _ _ => rfl)]
    refine holds.keep ?_ ?_ (by rw [kept]) (by rfl) (by simp)
    · rw [answered_append, answered_published]
      rfl
    · rw [unanswered_append, List.foldl_append, foldl_published (fun _ _ => rfl)]
      rfl
  | _ =>
    refine holds.keep (by rfl) ?_ (by rfl) (by rfl) (by simp)
    rw [unanswered_append]
    rfl

theorem answered_message (holds : Answered heard p history device) (components : List Bytes) (payload : Bytes) :
    Answered heard { p with slave := (deliver p.slave components payload).1 }
      (history ++ (deliver p.slave components payload).2) device := by
  obtain ⟨more, enabled, slave_eq⟩ := deliver_slave p.slave components payload
  have same : unanswered (history ++ (deliver p.slave components payload).2) = unanswered history := by
    rw [unanswered_append]
    exact foldl_deliver (fun _ _ => rfl) (fun _ _ _ => rfl) _ _ _ _
  have none_new : answered (history ++ (deliver p.slave components payload).2) = answered history := by
    rw [answered_append, answered_deliver, List.append_nil]
  rw [slave_eq]
  refine ⟨none_new ▸ holds.done, ?_, ?_, ?_⟩
  · rw [same, none_new]
    exact holds.repeats
  · intro sendmsg waits
    obtain ⟨through, number, message⟩ := holds.out sendmsg waits
    refine ⟨through, number, fun command => ?_⟩
    obtain ⟨message, out, head⟩ := message command
    exact ⟨message, same ▸ out, head_append head⟩
  · intro size there
    obtain ⟨other, message, head, carried⟩ := holds.popping size there
    exact ⟨other, message, head_append head, none_new ▸ carried⟩

end Answers

theorem answered_run (heard : Nat → Bool) (last : UInt8) {config : SerialConfig} {text : Bytes}
    {ok : Poll → List Event → Move → Prop} {p : Poll} {history : List Event}
    (run : Run (slaveSystem config text) ok p history) (kept : Always (Kept heard) history) :
    Answered heard p history (deviceAfter heard last history) := by
  revert kept
  apply slaveRun_invariant
    (I := fun p history => Always (Kept heard) history → Answered heard p history (deviceAfter heard last history))
    _ _ _ _ run
  · intro _
    exact ⟨List.nil_sublist _, fun nonzero => absurd rfl nonzero, (fun _ waits => by cases waits), by simp [slaveSystem]⟩
  · intro p history port crcCount timeoutCount _ holds kept
    have begun : Answered heard ⟨p.slave, port, crcCount, timeoutCount, .offlineTest⟩ (history ++ [])
        (deviceAfter heard last history) :=
      (holds kept).keep rfl (by rw [List.append_nil]) rfl rfl (by simp)
    rwa [List.append_nil] at begun
  · intro p history t p' events run _ stepped holds kept
    obtain ⟨before, now⟩ := always_append.mp kept
    rw [deviceAfter_append]
    exact answered_poll (pollStep_stepped stepped) (standing_run run) (unanswered_run run)
      (deviceAfter_frames heard last history) now (holds before)
  · intro p history components payload _ _ holds kept
    rw [deviceAfter_append, foldl_deliver (fun _ _ => rfl) (fun _ _ _ => rfl)]
    exact answered_message (holds (always_append.mp kept).1) components payload

section Results

variable (config : SerialConfig) (texts : List Bytes) (i : Nat) (text : Bytes) (master : Master)
  (history : List (Nat × Event)) (heard : Nat → Bool) (last : UInt8)

end Results

def sentTwice : List Action :=
  polls 8 ⟨0, 0⟩ [.data ackReply] ++ .message (ascii "osdp/bus1/outgoing/5") [OSDP_POLL, 7] ::
    (polls 8 ⟨0, 0⟩ silence ++ polls 10 ⟨1, 0⟩ [.data ackReply])

end OsdpMaster.CommandDelivery
