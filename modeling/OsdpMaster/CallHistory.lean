import OsdpMaster.SlaveRun
import OsdpMaster.ReadRefinement

/-!
What is known at each position of a call, from the events of the call so far:
whether the slave was found offline, which message is being sent, which reply it
got. Messages that come in meanwhile change none of it.
-/

namespace OsdpMaster.CallHistory
open OsdpMaster.Protocol OsdpMaster.Slave OsdpMaster.SlavePoll OsdpMaster.SlaveRun OsdpMaster.FrameSpec
open OsdpMaster.Lib.Trace

def noteCall (call : List Event) : Event → List Event
  | .called off => [.called off]
  | event => call ++ [event]

/-- The events since the last call began, with that beginning. -/
def callOf (history : List Event) : List Event := history.foldl noteCall []

theorem callOf_append (history events : List Event) :
    callOf (history ++ events) = events.foldl noteCall (callOf history) :=
  List.foldl_append

theorem foldl_noteCall (call events : List Event) (inside : ∀ off, .called off ∉ events) :
    events.foldl noteCall call = call ++ events := by
  induction events generalizing call with
  | nil => simp
  | cons event events ih =>
    simp only [List.mem_cons, not_or] at inside
    have note : noteCall call event = call ++ [event] := by
      cases event with
      | called off => exact absurd rfl (inside off).1
      | _ => rfl
    rw [List.foldl_cons, note, ih _ (fun off => (inside off).2), List.append_assoc]
    rfl

/-- If the call found the slave online, it has removed nothing. -/
def Clean (call : List Event) : Prop :=
  .called false ∈ call → ∀ message purged, .removed message purged ∉ call

/-- The result of `readcook` was a frame with a matching trailer, now in `m_in_buffer`. -/
def Intact (size : Int) (buffer : Bytes) : Prop :=
  ∃ frame, Framed frame ∧ intact frame = true ∧
    size = (frame.length : Int) - trailerSize frame ∧ buffer.take frame.length = frame

structure Answers (addr : UInt8) (size : Int) (buffer : Bytes) : Prop where
  checked : Intact size buffer
  addr : buffer.getD 1 0 &&& 0x7F = addr
  notNak : buffer.getD 5 0 ≠ OSDP_NAK
  notBusy : buffer.getD 5 0 ≠ OSDP_BUSY

/-- What is known at the positions of a call. -/
def Standing (p : Poll) (call : List Event) : Prop :=
  match p.position with
  | .purgeTest => .called false ∉ call ∧ offline p.slave = true
  | .purgePop => .called false ∉ call ∧ offline p.slave = true ∧ p.slave.msglist ≠ []
  | .tickle => .called false ∉ call ∧ offline p.slave = true
  | .backoff => Clean call ∧ offline p.slave = false
  | .emptyTest => Clean call ∧ offline p.slave = false
  | .front => Clean call ∧ offline p.slave = false ∧ p.slave.msglist ≠ []
  | .transmit payload true => Clean call ∧ offline p.slave = false ∧ p.slave.msglist.head? = some payload
  | .transmit payload false => Clean call ∧ payload = [OSDP_POLL]
  | .receive true => Clean call ∧
      ∃ message seq, p.slave.msglist.head? = some message ∧ .sent seq message true ∈ call
  | .receive false => Clean call
  | .reply size true => Clean call ∧ Intact size p.port.inBuffer.bytes ∧
      ∃ message seq, p.slave.msglist.head? = some message ∧
        [.sent seq message true, .received size p.port.inBuffer.bytes].Sublist call
  | .reply _ false => Clean call
  | .pop size => ∃ message seq buffer, p.slave.msglist.head? = some message ∧
      [.sent seq message true, .received size buffer].Sublist call ∧ Answers p.slave.addr size buffer
  | .failed _ => Clean call
  | _ => True

section Grow

variable {call events : List Event}

theorem Clean.grow (clean : Clean call) (tidy : ∀ message purged, .removed message purged ∉ events)
    (inside : ∀ off, .called off ∉ events) : Clean (call ++ events) := by
  intro on message purged member
  rcases List.mem_append.mp on with before | now
  · rcases List.mem_append.mp member with early | late
    · exact clean before message purged early
    · exact tidy message purged late
  · exact inside false now

theorem offline_grow (off : .called false ∉ call) (inside : ∀ off, .called off ∉ events) :
    .called false ∉ call ++ events := by
  intro on
  rcases List.mem_append.mp on with before | now
  · exact off before
  · exact inside false now

theorem clean_of_offline (off : .called false ∉ call) : Clean call := fun on => absurd on off

end Grow

/-- The positions from the first test of the queue up to the verdict on the reply. -/
def asking : Position → Bool
  | .purgeTest | .purgePop | .tickle | .backoff | .emptyTest | .front | .transmit _ _ | .receive _
  | .reply _ _ | .failed _ => true
  | _ => false

theorem Standing.clean {p : Poll} {call : List Event} (standing : Standing p call)
    (here : asking p.position = true) : Clean call := by
  unfold Standing at standing
  cases position : p.position with
  | idle | offlineTest | pop | publish | fault =>
    rw [position] at here
    cases here
  | purgeTest | purgePop | tickle =>
    rw [position] at standing
    exact clean_of_offline standing.1
  | backoff | emptyTest | front =>
    rw [position] at standing
    exact standing.1
  | transmit payload sendmsg =>
    rw [position] at standing
    cases sendmsg with
    | true => exact standing.1
    | false => exact standing.1
  | receive sendmsg =>
    rw [position] at standing
    cases sendmsg with
    | true => exact standing.1
    | false => exact standing
  | reply size sendmsg =>
    rw [position] at standing
    cases sendmsg with
    | true => exact standing.1
    | false => exact standing
  | failed size =>
    rw [position] at standing
    exact standing

section Steps

variable {p p' : Poll} {call events : List Event}

theorem head_append {queue more : List Bytes} {message : Bytes} (head : queue.head? = some message) :
    (queue ++ more).head? = some message := by
  rw [List.head?_append, head]
  rfl

theorem standing_message (standing : Standing p call) (components : List Bytes) (payload : Bytes) :
    Standing { p with slave := (deliver p.slave components payload).1 }
      ((deliver p.slave components payload).2.foldl noteCall call) := by
  have inside : ∀ off, .called off ∉ (deliver p.slave components payload).2 := by
    intro off member
    exact forall_deliver (P := fun event => event ≠ .called off) (fun _ => Event.noConfusion)
      (fun _ _ => Event.noConfusion) _ _ _ _ member rfl
  have tidy : ∀ message purged, .removed message purged ∉ (deliver p.slave components payload).2 := by
    intro message purged member
    exact forall_deliver (P := fun event => event ≠ .removed message purged) (fun _ => Event.noConfusion)
      (fun _ _ => Event.noConfusion) _ _ _ _ member rfl
  obtain ⟨more, enabled, slave_eq⟩ := deliver_slave p.slave components payload
  rw [foldl_noteCall _ _ inside, slave_eq]
  generalize (deliver p.slave components payload).2 = told at inside tidy
  unfold Standing at standing ⊢
  have still : offline { p.slave with msglist := p.slave.msglist ++ more, enabled := enabled } =
    offline p.slave := rfl
  dsimp only
  rw [still]
  split
  next here =>
    rw [here] at standing
    exact ⟨offline_grow standing.1 inside, standing.2⟩
  next here =>
    rw [here] at standing
    exact ⟨offline_grow standing.1 inside, standing.2.1, by simp [standing.2.2]⟩
  next here =>
    rw [here] at standing
    exact ⟨offline_grow standing.1 inside, standing.2⟩
  next here =>
    rw [here] at standing
    exact ⟨standing.1.grow tidy inside, standing.2⟩
  next here =>
    rw [here] at standing
    exact ⟨standing.1.grow tidy inside, standing.2⟩
  next here =>
    rw [here] at standing
    exact ⟨standing.1.grow tidy inside, standing.2.1, by simp [standing.2.2]⟩
  next payload here =>
    rw [here] at standing
    exact ⟨standing.1.grow tidy inside, standing.2.1, head_append standing.2.2⟩
  next payload here =>
    rw [here] at standing
    exact ⟨standing.1.grow tidy inside, standing.2⟩
  next here =>
    rw [here] at standing
    obtain ⟨clean, message, seq, head, sent⟩ := standing
    exact ⟨clean.grow tidy inside, message, seq, head_append head, List.mem_append_left _ sent⟩
  next here =>
    rw [here] at standing
    exact Clean.grow standing tidy inside
  next size here =>
    rw [here] at standing
    obtain ⟨clean, whole, message, seq, head, exchange⟩ := standing
    exact ⟨clean.grow tidy inside, whole, message, seq, head_append head,
      exchange.trans (List.sublist_append_left _ _)⟩
  next size here =>
    rw [here] at standing
    exact Clean.grow standing tidy inside
  next size here =>
    rw [here] at standing
    obtain ⟨message, seq, buffer, head, exchange, answers⟩ := standing
    exact ⟨message, seq, buffer, head_append head, exchange.trans (List.sublist_append_left _ _), answers⟩
  next size here =>
    rw [here] at standing
    exact Clean.grow standing tidy inside
  next => trivial

theorem front_head {slave : OsdpSlave} (some_left : slave.msglist ≠ []) :
    slave.msglist.head? = some (front slave) := by
  cases queue : slave.msglist with
  | nil => exact absurd queue some_left
  | cons message rest => simp [front, queue]

theorem received_intact {m after : Protocol} {now stamp : Timespec} {size : Int}
    (run : readcook now stamp m = .ok size after) (positive : size > 0) :
    Intact size after.inBuffer.bytes := by
  obtain ⟨_, frame, _, framed, sound, _, size_eq, _, front⟩ := ReadRefinement.readcook_positive run positive
  exact ⟨frame, framed, sound, size_eq, front⟩

/-- What one step of a call makes of what is known. -/
theorem standing_poll (stepped : PollStepped p p' events) (standing : Standing p call) :
    Standing p' (events.foldl noteCall call) := by
  cases stepped with
  | foundOffline here off => exact ⟨by simp [noteCall], off⟩
  | foundOnline here on =>
    refine ⟨?_, on⟩
    intro _ message purged member
    simp [noteCall] at member
  | purged here empty =>
    simp only [Standing, here] at standing
    exact standing
  | purging here some_left =>
    simp only [Standing, here] at standing
    exact ⟨standing.1, standing.2, some_left⟩
  | purgePopped here message rest queue =>
    simp only [Standing, here] at standing
    exact ⟨offline_grow standing.1 (by simp), standing.2.1⟩
  | tickled here now due =>
    simp only [Standing, here] at standing
    exact ⟨clean_of_offline standing.1, rfl⟩
  | backedOff here now due =>
    simp only [Standing, here] at standing
    exact standing
  | foundEmpty here empty =>
    simp only [Standing, here] at standing
    exact ⟨standing.1, rfl⟩
  | foundMessage here some_left =>
    simp only [Standing, here] at standing
    exact ⟨standing.1, standing.2, some_left⟩
  | fronted here =>
    simp only [Standing, here] at standing
    exact ⟨standing.1, standing.2.1, front_head standing.2.2⟩
  | transmitted payload sendmsg here t value port run =>
    simp only [Standing, here] at standing
    cases sendmsg with
    | true =>
      exact ⟨standing.1.grow (by simp) (by simp), payload, p.slave.txseq, standing.2.2, by simp [noteCall]⟩
    | false => exact Clean.grow standing.1 (by simp) (by simp)
  | received sendmsg here t size port run =>
    have clean := standing.clean (by rw [here]; rfl)
    simp only [Standing, here] at standing
    by_cases positive : size > 0
    · rw [if_pos positive]
      cases sendmsg with
      | true =>
        obtain ⟨_, message, seq, head, sent⟩ := standing
        refine ⟨clean.grow (by simp) (by simp), received_intact run positive, message, seq, head, ?_⟩
        exact (List.singleton_sublist.mpr sent).append (List.Sublist.refl _)
      | false => exact clean.grow (by simp) (by simp)
    · rw [if_neg positive]
      exact clean.grow (by simp) (by simp)
  | accepted size sendmsg here addr willing =>
    simp only [Standing, here] at standing
    cases sendmsg with
    | true =>
      obtain ⟨_, whole, message, seq, head, exchange⟩ := standing
      rw [not_or] at willing
      obtain ⟨rxseq, noted⟩ := noteSeq_slave p.slave (inByte p.port 4 &&& 0x03)
      refine ⟨message, seq, p.port.inBuffer.bytes, ?_, ?_, ⟨whole, ?_, willing.1, willing.2⟩⟩
      · rw [noted]
        exact head
      · rw [foldl_noteCall _ _ (by simp)]
        exact exchange.trans (List.sublist_append_left _ _)
      · rw [noted]
        exact addr
    | false => trivial
  | _ => trivial

theorem standing_run {config : SerialConfig} {text : Bytes} {ok : Poll → List Event → Move → Prop}
    {history : List Event} (run : Run (slaveSystem config text) ok p history) :
    Standing p (callOf history) := by
  apply slaveRun_invariant _ _ _ _ run
  · trivial
  · intros
    trivial
  · intro p history t p' events _ _ stepped standing
    rw [callOf_append]
    exact standing_poll (pollStep_stepped stepped) standing
  · intro p history components payload _ _ standing
    rw [callOf_append]
    exact standing_message standing components payload

end Steps

end OsdpMaster.CallHistory
