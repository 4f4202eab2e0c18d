import OsdpMaster.Retransmission
import OsdpMaster.RoundTrip

/-!
The sequence numbers a slave is called with. `m_txseq` moves on with each
accepted reply, passing over 0 when it wraps, and a NAK starts it over at 0;
nothing else that can happen in a call changes it.
-/

namespace OsdpMaster.SequenceNumbers
open OsdpMaster.Protocol OsdpMaster.Slave OsdpMaster.SlavePoll OsdpMaster.SlaveRun OsdpMaster.Retransmission
open OsdpMaster.Bus OsdpMaster.FrameSpec OsdpMaster.WriteSpec OsdpMaster.Lib.Program OsdpMaster.Lib.Trace

/-- What a history says of the numbers: whether no reply was accepted since the start or the last NAK,
the last number sent, and the number of the last accepted exchange if no NAK came after it. -/
structure Numbering where
  fresh : Bool
  sent : Option UInt8
  acked : Option UInt8

def noteNumber (n : Numbering) : Event → Numbering
  | .sent seq _ _ => { n with sent := some seq }
  | .accepted => { n with fresh := false, acked := n.sent }
  | .ended .nak => { n with fresh := true, acked := none }
  | _ => n

def numbering (history : List Event) : Numbering := history.foldl noteNumber ⟨true, none, none⟩

theorem numbering_append (history events : List Event) :
    numbering (history ++ events) = events.foldl noteNumber (numbering history) := List.foldl_append

theorem nextSeq_ne (seq : UInt8) : nextSeq seq ≠ seq := by
  unfold nextSeq
  split
  next three =>
    rw [three]
    decide
  next =>
    intro same
    have numbers := congrArg UInt8.toNat same
    rw [UInt8.toNat_add] at numbers
    change (seq.toNat + 1) % 256 = seq.toNat at numbers
    omega

theorem nextSeq_range {seq : UInt8} (small : seq ≤ 3) : nextSeq seq ≤ 3 ∧ nextSeq seq ≠ 0 := by
  have all : ∀ seq : Fin 4, nextSeq (UInt8.ofNat seq) ≤ 3 ∧ nextSeq (UInt8.ofNat seq) ≠ 0 := by decide
  have bound : seq.toNat < 4 := Nat.lt_succ_of_le (UInt8.le_iff_toNat_le.mp small)
  simpa using all ⟨seq.toNat, bound⟩

section Decomposition

variable {history : List Event}

theorem fresh_split (fresh : (numbering history).fresh = true) :
    .accepted ∉ history ∨ ∃ early late, history = early ++ .ended .nak :: late ∧ .accepted ∉ late := by
  induction history using List.reverseRecOn with
  | nil => exact Or.inl List.not_mem_nil
  | append_singleton history event ih =>
    have grow (was : (numbering history).fresh = true) (other : event ≠ .accepted) :
        .accepted ∉ history ++ [event] ∨
          ∃ early late, history ++ [event] = early ++ .ended .nak :: late ∧ .accepted ∉ late := by
      rcases ih was with never | ⟨early, late, split, none_since⟩
      · exact Or.inl (by simp [never, other.symm])
      · exact Or.inr ⟨early, late ++ [event], by simp [split], by simp [none_since, other.symm]⟩
    rw [numbering_append] at fresh
    cases event with
    | accepted => cases fresh
    | ended ending =>
      cases ending with
      | nak => exact Or.inr ⟨history, [], rfl, List.not_mem_nil⟩
      | _ => exact grow fresh Event.noConfusion
    | _ => exact grow fresh Event.noConfusion

theorem acked_split {early between late : List Event} {seq : UInt8} {payload : Bytes} {sendmsg : Bool}
    (answered : ∀ event ∈ between, sentBy event = none) (accepted : .accepted ∉ late)
    (willing : .ended .nak ∉ late) :
    (numbering (early ++ .sent seq payload sendmsg :: (between ++ .accepted :: late))).acked = some seq := by
  have still : (between.foldl noteNumber (noteNumber (numbering early) (.sent seq payload sendmsg))).sent =
      some seq := by
    apply foldl_keeps Numbering.sent
    intro event member n
    have unsent := answered event member
    cases event with
    | sent seq payload sendmsg => cases unsent
    | ended ending => cases ending <;> rfl
    | _ => rfl
  have kept (n : Numbering) : (late.foldl noteNumber n).acked = n.acked := by
    apply foldl_keeps Numbering.acked
    intro event member n
    cases event with
    | accepted => exact absurd member accepted
    | ended ending =>
      cases ending with
      | nak => exact absurd member willing
      | _ => rfl
    | _ => rfl
  rw [numbering_append, List.foldl_cons, List.foldl_append, List.foldl_cons, kept]
  exact still

end Decomposition

/-- A frame of this call is out and its reply is not accepted. -/
def flying : Position → Bool
  | .receive _ | .reply _ _ => true
  | _ => false

structure Numbered (p : Poll) (n : Numbering) : Prop where
  small : p.slave.txseq ≤ 3
  zero : p.slave.txseq = 0 → n.fresh = true
  next : ∀ acked ∈ n.acked, p.slave.txseq = nextSeq acked
  sent : flying p.position = true → n.sent = some p.slave.txseq

def Lawful (before : List Event) : Event → Prop
  | .sent seq _ _ => seq ≤ 3 ∧ (seq = 0 → (numbering before).fresh = true) ∧
      ∀ acked ∈ (numbering before).acked, seq = nextSeq acked
  | _ => True

theorem lawful_unsent (before : List Event) (event : Event) (unsent : sentBy event = none) :
    Lawful before event := by
  cases event with
  | sent seq payload sendmsg => cases unsent
  | _ => trivial

section Steps

variable {p p' : Poll} {n : Numbering} {events : List Event}

theorem Numbered.keep (numbered : Numbered p n) (txseq : p'.slave.txseq = p.slave.txseq)
    (going : flying p'.position = true → flying p.position = true) : Numbered p' n where
  small := by
    rw [txseq]
    exact numbered.small
  zero same := numbered.zero (txseq.symm.trans same)
  next acked member := by
    rw [txseq]
    exact numbered.next acked member
  sent flies := by
    rw [txseq]
    exact numbered.sent (going flies)

theorem Numbered.sends (numbered : Numbered p n) (same : p'.slave = p.slave) (payload : Bytes) (sendmsg : Bool) :
    Numbered p' (noteNumber n (.sent p.slave.txseq payload sendmsg)) where
  small := by
    rw [same]
    exact numbered.small
  zero := by
    rw [same]
    exact numbered.zero
  next := by
    rw [same]
    exact numbered.next
  sent _ := by
    rw [same]
    rfl

theorem Numbered.refuses (numbered : Numbered p n) (slave : OsdpSlave) (txseq : slave.txseq = p.slave.txseq)
    (code seq : UInt8) : Numbered { p with slave := refused slave code seq, position := .idle }
      (noteNumber n (.ended (if code = OSDP_NAK then .nak else .busy))) := by
  by_cases nak : code = OSDP_NAK
  · rw [if_pos nak]
    have zero : (refused slave code seq).txseq = 0 := by rw [refused, if_pos nak]
    refine ⟨?_, fun _ => rfl, ?_, Bool.noConfusion⟩
    · rw [zero]
      decide
    · intro acked none_left
      cases none_left
  · rw [if_neg nak]
    have same : (refused slave code seq).txseq = p.slave.txseq := by rw [refused, if_neg nak, txseq]
    exact numbered.keep same Bool.noConfusion

theorem Numbered.accepts (numbered : Numbered p n) (flies : flying p.position = true) {slave : OsdpSlave}
    (txseq : slave.txseq = nextSeq p.slave.txseq) {position : Position} (landed : flying position = false) :
    Numbered { p with slave := slave, position := position } (noteNumber n .accepted) := by
  obtain ⟨small, positive⟩ := nextSeq_range numbered.small
  rw [← txseq] at small positive
  refine ⟨small, fun zero => absurd zero positive, ?_, ?_⟩
  · intro acked member
    have sent : n.sent = some acked := member
    rw [numbered.sent flies, Option.some.injEq] at sent
    rw [← sent]
    exact txseq
  · intro flies'
    rw [landed] at flies'
    cases flies'

theorem numbered_poll (stepped : PollStepped p p' events) (numbered : Numbered p n) :
    Numbered p' (events.foldl noteNumber n) := by
  cases stepped with
  | transmitted payload sendmsg here t value port run => exact numbered.sends (by rfl) payload sendmsg
  | transmitFailed payload sendmsg here t message port run => exact numbered.sends (by rfl) payload sendmsg
  | overran payload sendmsg here t port run => exact numbered.sends (by rfl) payload sendmsg
  | received sendmsg here t size port run =>
    refine numbered.keep rfl ?_
    intro _
    rw [here]
    rfl
  | refused size sendmsg here addr unwilling =>
    obtain ⟨rxseq, noted⟩ := noteSeq_slave p.slave (inByte p.port 4 &&& 0x03)
    exact numbered.refuses _ (by rw [noted]) _ _
  | accepted size sendmsg here addr willing =>
    obtain ⟨rxseq, noted⟩ := noteSeq_slave p.slave (inByte p.port 4 &&& 0x03)
    rw [List.foldl_cons, foldl_published (fun _ _ => rfl)]
    apply numbered.accepts (by rw [here]; rfl)
    · rw [noted]
      rfl
    · cases sendmsg <;> rfl
  | missed size here now =>
    obtain ⟨retry, nextPoll, kept⟩ := nak_slave p.slave now
    rw [List.foldl_append, foldl_published (fun _ _ => rfl)]
    exact numbered.keep (by rw [kept]) Bool.noConfusion
  | handedOn size here news => exact numbered.keep rfl Bool.noConfusion
  | _ => exact numbered.keep rfl Bool.noConfusion

theorem numbered_message (numbered : Numbered p n) (components : List Bytes) (payload : Bytes) :
    Numbered { p with slave := (deliver p.slave components payload).1 }
      ((deliver p.slave components payload).2.foldl noteNumber n) := by
  have silent : (deliver p.slave components payload).2.foldl noteNumber n = n :=
    foldl_deliver (fun _ _ => rfl) (fun _ _ _ => rfl) _ _ _ _
  obtain ⟨more, enabled, slave_eq⟩ := deliver_slave p.slave components payload
  rw [silent, slave_eq]
  exact numbered.keep rfl id

end Steps

theorem numbered_run {config : SerialConfig} {text : Bytes} {ok : Poll → List Event → Move → Prop} {p : Poll}
    {history : List Event} (run : Run (slaveSystem config text) ok p history) :
    Numbered p (numbering history) ∧ Always Lawful history := by
  apply slaveRun_invariant (I := fun p history => Numbered p (numbering history) ∧ Always Lawful history) _ _ _ _ run
  · have small : (0 : UInt8) ≤ 3 := by decide
    refine ⟨⟨small, fun _ => rfl, ?_, Bool.noConfusion⟩, always_cons.mpr ⟨trivial, always_nil _⟩⟩
    intro acked none_yet
    cases none_yet
  · intro p history port crcCount timeoutCount _ holds
    exact ⟨holds.1.keep rfl Bool.noConfusion, holds.2⟩
  · intro p history t p' events _ _ stepped holds
    obtain ⟨numbered, lawful⟩ := holds
    rw [numbering_append, always_append]
    refine ⟨numbered_poll (pollStep_stepped stepped) numbered, lawful, ?_⟩
    apply always_sends lawful_unsent stepped
    intro payload sendmsg _ _
    exact ⟨numbered.small, numbered.zero, numbered.next⟩
  · intro p history components payload _ _ holds
    obtain ⟨numbered, lawful⟩ := holds
    rw [numbering_append, always_append]
    exact ⟨numbered_message numbered components payload, lawful,
      always_unsent lawful_unsent p.slave components payload⟩

theorem ctrl_command (addr : Int) (seq : UInt8) (payload : Bytes) :
    ctrlOf (encode addr seq.toNat payload) = 0x04 ||| seq := by
  rw [RoundTrip.ctrlOf_encode, ofInt_toNat, UInt8.or_comm]

/-- What `writecook` puts on the wire, however it ends: from the front, a part of the frame between its
pads. -/
theorem writecook_wire (m : Protocol) (now : Timespec) (addr seq : Int) (payload : Bytes) :
    Ends (writecook now addr seq payload) m
      (fun _ after => ∃ offset, after.wire = m.wire ++ (transmission m.config addr seq payload).take offset)
      (fun _ after => SLAVE_BUFF_SIZE < (transmission m.config addr seq payload).length ∨
        ∃ offset, after.wire = m.wire ++ (transmission m.config addr seq payload).take offset) := by
  apply (writecook_ends m now addr seq payload _ rfl).mono
  · intro value after holds
    obtain ⟨_, _, wired⟩ := holds
    refine ⟨(transmission m.config addr seq payload).length, ?_⟩
    rw [List.take_length]
    exact congrArg Protocol.wire wired.kept
  · intro stop after holds
    rcases holds with ⟨_, long⟩ | ⟨_, _, offset, wired⟩
    · exact Or.inl long
    · exact Or.inr ⟨offset, congrArg Protocol.wire wired.kept⟩

theorem sent_wire {p p' : Poll} {events : List Event} {seq : UInt8} {payload : Bytes} {sendmsg : Bool}
    (stepped : PollStepped p p' events) (sent : .sent seq payload sendmsg ∈ events) :
    SLAVE_BUFF_SIZE < (transmission p.port.config p.slave.addr.toNat seq.toNat payload).length ∨
      ∃ offset, p'.port.wire =
        p.port.wire ++ (transmission p.port.config p.slave.addr.toNat seq.toNat payload).take offset := by
  cases stepped with
  | transmitted payload sendmsg here t value port run =>
    cases List.mem_singleton.mp sent
    have wire := (writecook_wire _ _ _ _ _).of_ok run
    exact Or.inr wire
  | transmitFailed payload sendmsg here t message port run =>
    simp only [List.mem_cons, reduceCtorEq, List.not_mem_nil, or_false] at sent
    cases sent
    have wire := (writecook_wire _ _ _ _ _).of_error run
    exact wire
  | overran payload sendmsg here t port run =>
    cases List.mem_singleton.mp sent
    have wire := (writecook_wire _ _ _ _ _).of_error run
    exact wire
  | _ => simp at sent

theorem reopen_wire (events : List Event) (port : Protocol) : (reopen events port).wire = port.wire := by
  unfold reopen
  split <;> rfl

theorem step_wire {master master' : Master} {action : Action} {events : List (Nat × Event)} {i : Nat}
    {seq : UInt8} {payload : Bytes} {sendmsg : Bool} (stepped : step master action = some (master', events))
    (sent : (i, .sent seq payload sendmsg) ∈ events) :
    ∃ slave, master.slaves[i]? = some slave ∧
      (SLAVE_BUFF_SIZE < (transmission master.port.config slave.addr.toNat seq.toNat payload).length ∨
        ∃ offset, master'.port.wire = master.port.wire ++
          (transmission master.port.config slave.addr.toNat seq.toNat payload).take offset) := by
  cases action with
  | message topic payload' =>
    simp only [step, messageCallback] at stepped
    split at stepped
    · cases stepped
    · cases stepped
      cases sent
    · split at stepped
      · cases stepped
      · cases stepped
        obtain ⟨event, member, event_eq⟩ := List.mem_map.mp sent
        cases event_eq
        exact absurd rfl (forall_deliver (P := fun event => event ≠ .sent seq payload sendmsg)
          (fun _ => Event.noConfusion) (fun _ _ => Event.noConfusion) _ _ _ _ member)
  | poll t =>
    simp only [step] at stepped
    split at stepped
    · simp only [select] at stepped
      split at stepped
      · cases stepped
      · cases stepped
        cases sent
    · simp only [pollSelected] at stepped
      split at stepped
      · cases stepped
      next slave selected =>
        split at stepped
        · cases stepped
        next p' own polled =>
          cases stepped
          obtain ⟨event, member, event_eq⟩ := List.mem_map.mp sent
          cases event_eq
          have wire := sent_wire (pollStep_stepped polled) member
          rw [reopen_wire]
          exact ⟨slave, selected, wire⟩

structure Numbers (history : List Event) : Prop where
  small : ∀ seq payload sendmsg, .sent seq payload sendmsg ∈ history → seq ≤ 3
  /-- 0 goes out before the first accepted reply, or after a NAK with nothing accepted since. -/
  zero : ∀ before payload sendmsg after, history = before ++ .sent 0 payload sendmsg :: after →
    .accepted ∉ before ∨ ∃ early late, before = early ++ .ended .nak :: late ∧ .accepted ∉ late
  /-- What goes out after an accepted exchange, with no other and no NAK between, has the next number. -/
  next : ∀ early seq payload sendmsg between late seq' payload' sendmsg' after,
    history = early ++ .sent seq payload sendmsg :: (between ++ .accepted :: late) ++
      .sent seq' payload' sendmsg' :: after →
    (∀ event ∈ between, sentBy event = none) → .accepted ∉ late → .ended .nak ∉ late →
    seq' = nextSeq seq ∧ seq' ≠ seq

theorem numbers_of_lawful {history : List Event} (lawful : Always Lawful history) : Numbers history where
  small := by
    intro seq payload sendmsg member
    obtain ⟨before, after, split⟩ := List.append_of_mem member
    exact (lawful before _ after split).1
  zero := by
    intro before payload sendmsg after split
    exact fresh_split ((lawful before _ after split).2.1 rfl)
  next := by
    intro early seq payload sendmsg between late seq' payload' sendmsg' after split answered accepted willing
    have acked : (numbering (early ++ .sent seq payload sendmsg :: (between ++ .accepted :: late))).acked =
        some seq := acked_split answered accepted willing
    have next := (lawful _ _ after split).2.2 seq acked
    rw [next]
    exact ⟨rfl, nextSeq_ne seq⟩

/-- In every run, for every slave: its numbers follow the law, and a step that sends to it puts a frame
on the wire, or the front of one, whose control byte is 0x04 with that number. A payload that does not
fit `m_out_buffer` goes no further. -/
theorem sequence_numbers (config : SerialConfig) (texts : List Bytes) (i : Nat) (text : Bytes)
    (configured : texts[i]? = some text) (master : Master) (history : List (Nat × Event))
    (run : Run (bus config texts) free master history) :
    Numbers (eventsOf i history) ∧
    ∀ action master' events seq payload sendmsg, step master action = some (master', events) →
      (i, .sent seq payload sendmsg) ∈ events →
      seq ≤ 3 ∧ ∃ slave, master.slaves[i]? = some slave ∧
        ctrlOf (encode slave.addr.toNat seq.toNat payload) = 0x04 ||| seq ∧
        (SLAVE_BUFF_SIZE < (transmission config slave.addr.toNat seq.toNat payload).length ∨
          ∃ offset, master'.port.wire = master.port.wire ++
            (padding config.lead ++ encode slave.addr.toNat seq.toNat payload ++
              padding config.trail).take offset) := by
  have numbers {master : Master} {history : List (Nat × Event)} (run : Run (bus config texts) free master history) :
      Numbers (eventsOf i history) := by
    obtain ⟨p, _, slaveRun⟩ := run_slave configured run
    exact numbers_of_lawful (numbered_run slaveRun).2
  refine ⟨numbers run, ?_⟩
  intro action master' events seq payload sendmsg stepped sent
  obtain ⟨p, follows, _⟩ := run_slave configured run
  have config_eq : master.port.config = config := congrArg Prod.fst follows.settings
  obtain ⟨slave, there, wire⟩ := step_wire stepped sent
  rw [config_eq] at wire
  refine ⟨?_, slave, there, ctrl_command _ _ _, wire⟩
  apply (numbers (run.step trivial stepped)).small seq payload sendmsg
  rw [mem_eventsOf]
  exact List.mem_append_right _ sent

theorem sequence_numbers_acquired :
    ∃ master history, Run (bus plainPort [ascii "5"]) free master history ∧
      (eventsOf 0 history).filterMap sentBy = [⟨0, [OSDP_POLL], false⟩, ⟨1, [OSDP_POLL], false⟩] ∧
      Numbers (eventsOf 0 history) := by
  have checked : (replay (bus plainPort [ascii "5"]) free (bus plainPort [ascii "5"]).start
      (bus plainPort [ascii "5"]).startup (polls 16 ⟨0, 0⟩ [.data ackReply])).any (fun reached =>
        (eventsOf 0 reached.2).filterMap sentBy == [⟨0, [OSDP_POLL], false⟩, ⟨1, [OSDP_POLL], false⟩]) = true := by
    decide +kernel
  obtain ⟨master, history, run, sent⟩ := exists_run checked
  have numbers := (sequence_numbers plainPort [ascii "5"] 0 (ascii "5") rfl master history run).1
  exact ⟨master, history, run, beq_iff_eq.mp sent, numbers⟩

end OsdpMaster.SequenceNumbers
