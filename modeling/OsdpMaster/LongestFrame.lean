import OsdpMaster.RoundTrip

/-!
How long a frame a peer takes. `writecook` bounds a whole transmission by its
buffer; `readeof` bounds the declared length by an equal buffer less the header,
which the declared length counts in as well.
-/

namespace OsdpMaster.LongestFrame
open OsdpMaster.Protocol OsdpMaster.Lib.Program OsdpMaster.ReadInput OsdpMaster.FrameSpec
open OsdpMaster.ReadSpec OsdpMaster.ReadRefinement OsdpMaster.WriteSpec OsdpMaster.RoundTrip

/-- Whatever station it reaches and however it comes in, no call refuses these bytes as too long. -/
def Admitted (sent : Bytes) : Prop :=
  ∀ (peer : Protocol) (now stamp : Timespec) (noise later : Bytes) (value : Int) (after : Protocol),
    chSOH ∉ noise → bytesOf peer.input = noise ++ (sent ++ later) →
    readcook now stamp peer = .ok value after → value ≠ PROTO_ERR_OVERFLOW

theorem passing_result {body : Bytes} {p : Parsed} (parsed : passing body = some p) :
    p.result ≠ PROTO_ERR_OVERFLOW := by
  simp only [passing] at parsed
  split at parsed
  · cases parsed
  · cases parsed
    dsimp only
    split <;> decide

theorem parse_admitted {noise frame : Bytes} (quiet : chSOH ∉ noise) (framed : Framed frame)
    (sound : intact frame = true) {me : UInt8} {later : Bytes} {p : Parsed}
    (parsed : parse me (noise ++ (frame ++ later)) = some p) : p.result ≠ PROTO_ERR_OVERFLOW := by
  cases passes : passesBy me (addrOf frame) with
  | false =>
    rw [framed.parse_eq quiet passes, if_pos sound] at parsed
    cases parsed
    have long := framed.long
    have trailer : trailerSize frame ≤ 2 := by
      unfold trailerSize
      split <;> omega
    unfold sizeofCommon at long
    simp only [PROTO_ERR_OVERFLOW]
    omega
  | true =>
    have found := found_take quiet framed.soh (by have long := framed.long; omega)
    have whole : frame ++ later = frame.take sizeofCommon ++ (frame.drop sizeofCommon ++ later) := by
      rw [← List.append_assoc, List.take_append_drop]
    have addr : addrOf (frame.take sizeofCommon) = addrOf frame := by
      conv_rhs => rw [← List.take_append_drop sizeofCommon frame]
      rw [addrOf_append _ _ (by rw [found.length])]
    rw [whole, found.parse_eq me, addr, if_pos passes] at parsed
    exact passing_result parsed

theorem not_overflow {peer after : Protocol} {now stamp : Timespec} {value : Int}
    (run : readcook now stamp peer = .ok value after)
    (parses : ∀ p, parse peer.myAddr (bytesOf peer.input) = some p → p.result ≠ PROTO_ERR_OVERFLOW) :
    value ≠ PROTO_ERR_OVERFLOW := by
  obtain ⟨left, outcome, _⟩ := (readcook_ends peer now stamp).of_ok run
  cases outcome with
  | timeout tick member late value_eq =>
    rw [value_eq]
    decide
  | parsed p marks parse_eq value_eq took kept rest front =>
    rw [value_eq]
    exact parses p parse_eq
  | stale before rest split awaits value_eq =>
    rcases value_eq with flyby | crc
    · rw [flyby]
      decide
    · rw [crc]
      decide

section Transmission

variable (config : SerialConfig) (addr seq : Int) (payload : Bytes)

theorem transmission_behind (noise later : Bytes) :
    noise ++ (transmission config addr seq payload ++ later) =
      (noise ++ padding config.lead) ++ (encode addr seq payload ++ (padding config.trail ++ later)) := by
  simp only [transmission, List.append_assoc]

theorem quiet_before {noise : Bytes} (quiet : chSOH ∉ noise) : chSOH ∉ noise ++ padding config.lead := by
  rw [List.mem_append, not_or]
  exact ⟨quiet, not_mem_padding config.lead⟩

theorem admitted_of_short (short : payload.length ≤ 259) :
    Admitted (transmission config addr seq payload) := by
  intro peer now stamp noise later value after quiet stream run
  apply not_overflow run
  intro p parsed
  rw [stream, transmission_behind] at parsed
  exact parse_admitted (quiet_before config quiet) (framed_encode addr seq payload short)
    (intact_encode addr seq payload) parsed

def reader (sent : Bytes) : Protocol :=
  { Protocol.construct ⟨0, 0, 50000, 0, 0⟩ with input := [.data sent] }

theorem bytesOf_reader (sent : Bytes) : bytesOf (reader sent).input = sent := by
  change arrived (marksOf [.data sent]) = sent
  rw [marksOf_data]
  simp [marksOf]

theorem refused_of_long (long : 259 < payload.length) (fits : payload.length + 7 < 65536) :
    ∃ after, readcook ⟨0, 0⟩ ⟨0, 0⟩ (reader (transmission config addr seq payload)) =
      .ok PROTO_ERR_OVERFLOW after := by
  have quiet : ∀ outcome ∈ (reader (transmission config addr seq payload)).input,
      Quiet (deadlineFrom ⟨0, 0⟩ 50000) outcome := by
    intro outcome member
    rw [List.mem_singleton.mp member]
    trivial
  have settles := readcook_quiet (reader (transmission config addr seq payload)) ⟨0, 0⟩ ⟨0, 0⟩ rfl quiet
  have five := header_length addr seq (payload.length + 7)
  have refused : admits (declared (header addr seq (payload.length + 7))) = false := by
    have size : declared (header addr seq (payload.length + 7)) = payload.length + 7 := leWord_split _ fits
    rw [size]
    refine decide_eq_false fun small => ?_
    unfold SLAVE_BUFF_SIZE sizeofCommon at small
    omega
  have found : Found (padding config.lead) (header addr seq (payload.length + 7)) :=
    ⟨not_mem_padding config.lead, five, rfl⟩
  have parsed : parseMaster (transmission config addr seq payload) =
      direct (header addr seq (payload.length + 7) ++ (payload ++ crcBytes (Crc16.crc16Digest
        (Crc16.crc16Add Crc16.crc16Prepare (header addr seq (payload.length + 7) ++ payload))) ++
          padding config.trail)) := by
    rw [← parse_master, transmission, encode_eq, List.append_assoc, List.append_assoc,
      found.parse_eq, passesBy_master, if_neg Bool.false_ne_true]
  rw [bytesOf_reader, parsed, direct_refused five refused] at settles
  obtain ⟨after, run, _⟩ := settles
  exact ⟨after, run⟩

end Transmission

theorem writecook_wire {sender sent : Protocol} {now : Timespec} {addr seq value : Int} {payload : Bytes}
    (run : writecook now addr seq payload sender = .ok value sent) :
    (transmission sender.config addr seq payload).length ≤ SLAVE_BUFF_SIZE ∧
      sent.wire = sender.wire ++ transmission sender.config addr seq payload := by
  obtain ⟨_, fits, wired⟩ := (writecook_ends sender now addr seq payload _ rfl).of_ok run
  refine ⟨fits, ?_⟩
  rw [wired.kept]

/-- What `writecook` sends is refused as too long exactly when the payload has 260 bytes or more, that
is when the frame is longer than the receive buffer less a header. -/
theorem admitted_iff (sender sent : Protocol) (now : Timespec) (addr seq value : Int) (payload wire : Bytes)
    (run : writecook now addr seq payload sender = .ok value sent) (added : sent.wire = sender.wire ++ wire) :
    Admitted wire ↔ payload.length + 7 ≤ SLAVE_BUFF_SIZE - sizeofCommon := by
  obtain ⟨fits, wire_eq⟩ := writecook_wire run
  have same : wire = transmission sender.config addr seq payload :=
    List.append_cancel_left (added.symm.trans wire_eq)
  have limit : payload.length + 7 ≤ SLAVE_BUFF_SIZE - sizeofCommon ↔ payload.length ≤ 259 := by
    unfold SLAVE_BUFF_SIZE sizeofCommon
    omega
  subst same
  rw [limit]
  refine ⟨?_, admitted_of_short sender.config addr seq payload⟩
  intro admitted
  by_contra long
  rw [transmission_length] at fits
  unfold SLAVE_BUFF_SIZE at fits
  obtain ⟨after, refused⟩ := refused_of_long sender.config addr seq payload (by omega) (by omega)
  refine admitted (reader _) ⟨0, 0⟩ ⟨0, 0⟩ [] [] _ after (by simp) ?_ refused rfl
  rw [bytesOf_reader, List.append_nil, List.nil_append]

def ready : Protocol :=
  { Protocol.construct ⟨0, 0, 50000, 0, 0⟩ with output := [.accept SLAVE_BUFF_SIZE] }

theorem admitted_iff_longest :
    ∃ value sent, writecook ⟨0, 0⟩ 1 1 (List.replicate 259 0) ready = .ok value sent ∧
      Admitted sent.wire := by
  obtain ⟨value, sent, run, _⟩ := @exists_ok _ _ _ (writecook ⟨0, 0⟩ 1 1 (List.replicate 259 0)) ready
    (fun _ _ => true) (by decide +kernel)
  refine ⟨value, sent, run, (admitted_iff ready sent ⟨0, 0⟩ 1 1 value _ sent.wire run rfl).mpr ?_⟩
  rw [List.length_replicate]
  decide

/-- One byte more, and the whole transmission of 267 bytes still fits the transmit buffer. -/
theorem longer_refused :
    ¬∀ (sender sent : Protocol) (now : Timespec) (addr seq value : Int) (payload wire : Bytes),
      sender.config.lead.toNat + (payload.length + 7) + sender.config.trail.toNat ≤ SLAVE_BUFF_SIZE →
      writecook now addr seq payload sender = .ok value sent → sent.wire = sender.wire ++ wire →
      Admitted wire := by
  intro always
  obtain ⟨value, sent, run, _⟩ := @exists_ok _ _ _ (writecook ⟨0, 0⟩ 1 1 (List.replicate 260 0)) ready
    (fun _ _ => true) (by decide +kernel)
  have length : (List.replicate 260 (0 : UInt8)).length = 260 := List.length_replicate
  have admitted := always ready sent ⟨0, 0⟩ 1 1 value _ sent.wire (by rw [length]; decide) run rfl
  obtain ⟨_, wire_eq⟩ := writecook_wire run
  have wire : sent.wire = transmission ready.config 1 1 (List.replicate 260 0) := wire_eq
  obtain ⟨after, refused⟩ := refused_of_long ready.config 1 1 (List.replicate 260 0)
    (by rw [length]; decide) (by rw [length]; decide)
  rw [wire] at admitted
  refine admitted (reader _) ⟨0, 0⟩ ⟨0, 0⟩ [] [] _ after (by simp) ?_ refused rfl
  rw [bytesOf_reader, List.append_nil, List.nil_append]

end OsdpMaster.LongestFrame
