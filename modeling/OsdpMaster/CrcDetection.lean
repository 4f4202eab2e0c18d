import OsdpMaster.ReadRefinement

/-!
What the CRC of a frame rules out: a burst of up to 16 bits before the trailer,
and any odd number of wrong bits.
-/

namespace OsdpMaster.CrcDetection
open OsdpMaster.Protocol OsdpMaster.Crc16 OsdpMaster.Lib OsdpMaster.ReadInput OsdpMaster.FrameSpec
open OsdpMaster.ReadRefinement

def trailerOf (frame : Bytes) : Bytes := frame.drop (frame.length - trailerSize frame)

theorem covered_append_trailer (frame : Bytes) : covered frame ++ trailerOf frame = frame :=
  List.take_append_drop _ _

structure Checked (frame : Bytes) : Prop where
  long : 7 ≤ frame.length
  crc : hasCrc (ctrlOf frame) = true

namespace Checked

variable {frame : Bytes} (checked : Checked frame)

include checked

theorem trailerSize_eq : trailerSize frame = 2 := by rw [trailerSize, if_pos checked.crc]

theorem covered_length : (covered frame).length = frame.length - 2 := by
  rw [covered, checked.trailerSize_eq, List.length_take]
  omega

theorem trailerOf_length : (trailerOf frame).length = 2 := by
  have long := checked.long
  rw [trailerOf, checked.trailerSize_eq, List.length_drop]
  omega

theorem intact_eq : intact frame =
    (crcWord ((trailerOf frame).getD 0 0) ((trailerOf frame).getD 1 0) ==
      crc16Digest (crc16Add crc16Prepare (covered frame))) := by
  have long := checked.long
  have header : sizeofCommon ≤ (covered frame).length := by
    rw [checked.covered_length]
    unfold sizeofCommon
    omega
  have crc : hasCrc (ctrlOf (covered frame)) = true := by
    rw [← ctrlOf_append (covered frame) (trailerOf frame) header, covered_append_trailer, checked.crc]
  conv_lhs => rw [← covered_append_trailer frame]
  exact intact_append_crc _ _ header crc checked.trailerOf_length

end Checked

section Parity

private theorem poly_odd : Lfsr.weight poly = 1 := by decide +kernel

private theorem weight_low :
    ∀ x : BitVec 8, Lfsr.weight (x.setWidth 16 : BitVec (15 + 1)) = Lfsr.weightOf (byteBits ⟨x⟩) := by
  decide +kernel

private theorem weight_high (x : BitVec 8) :
    Lfsr.weight (x.setWidth 16 <<< 8 : BitVec (15 + 1)) = Lfsr.weightOf (byteBits ⟨x⟩) := by
  have zeros : Lfsr.weightOf (List.replicate 8 false) = 0 := by decide
  rw [← feed_low x, Lfsr.weight_feed poly _ poly_odd, zeros, add_zero, weight_low]

private theorem crcWord_eq_xor (low high : UInt8) :
    (crcWord low high).toBitVec = low.toBitVec.setWidth 16 ^^^ (high.toBitVec.setWidth 16 <<< 8) := by
  change low.toBitVec.setWidth 16 ||| (high.toBitVec.setWidth 16 <<< 8) = _
  apply BitVec.eq_of_getLsbD_eq
  intro i small
  interval_cases i <;> simp

theorem weight_crcWord (low high : UInt8) :
    Lfsr.weight (n := 15) (crcWord low high).toBitVec = Lfsr.weightOf (bitsOf [low, high]) := by
  rw [crcWord_eq_xor, Lfsr.weight_xor, weight_low low.toBitVec, weight_high high.toBitVec,
    ← Lfsr.weightOf_append]
  rfl

/-- All intact frames have the parity of the register's first value. -/
theorem weightOf_intact {frame : Bytes} (checked : Checked frame) (sound : intact frame = true) :
    Lfsr.weightOf (bitsOf frame) = Lfsr.weight (n := 15) crc16Prepare.toBitVec := by
  have two := checked.trailerOf_length
  have trailer : trailerOf frame = [(trailerOf frame).getD 0 0, (trailerOf frame).getD 1 0] := by
    match trailerOf frame, two with
    | [low, high], _ => rfl
  rw [checked.intact_eq, beq_iff_eq] at sound
  have same : Lfsr.weightOf (bitsOf (trailerOf frame)) =
      Lfsr.weight (n := 15) crc16Prepare.toBitVec + Lfsr.weightOf (bitsOf (covered frame)) := by
    rw [trailer, ← weight_crcWord, sound, crc16Digest, crc16Add_eq_feed]
    exact Lfsr.weight_feed poly _ poly_odd _
  calc Lfsr.weightOf (bitsOf frame)
      = Lfsr.weightOf (bitsOf (covered frame)) + Lfsr.weightOf (bitsOf (trailerOf frame)) := by
        rw [← Lfsr.weightOf_append, ← bitsOf_append, covered_append_trailer]
    _ = Lfsr.weight (n := 15) crc16Prepare.toBitVec +
          (Lfsr.weightOf (bitsOf (covered frame)) + Lfsr.weightOf (bitsOf (covered frame))) := by
        rw [same]
        exact add_left_comm _ _ _
    _ = Lfsr.weight (n := 15) crc16Prepare.toBitVec := by rw [CharTwo.add_self_eq_zero, add_zero]

end Parity

section Errors

/-- The bits in which two frames differ, bytes in order and most significant bit first. -/
def wrongBits (frame other : Bytes) : List Nat := Lfsr.differing (bitsOf frame) (bitsOf other)

theorem mem_wrongBits {frame other : Bytes} (same : other.length = frame.length) {i : Nat} :
    i ∈ wrongBits frame other ↔ (bitsOf frame)[i]? ≠ (bitsOf other)[i]? :=
  Lfsr.mem_differing (by rw [bitsOf_length, bitsOf_length, same])

/-- Some bits are wrong, all of them within 16 consecutive bits of the bytes before the trailer. -/
structure BurstError (frame other : Bytes) : Prop where
  some_wrong : wrongBits frame other ≠ []
  within : ∃ start, ∀ i ∈ wrongBits frame other,
    start ≤ i ∧ i < start + 16 ∧ i < 8 * (frame.length - 2)

variable {frame other : Bytes} (checked : Checked frame) (checked' : Checked other)
  (same : other.length = frame.length)

include checked checked' same

theorem covered_bit (i : Nat) (early : i < 8 * (frame.length - 2)) :
    (bitsOf (covered frame))[i]? = (bitsOf frame)[i]? ∧
      (bitsOf (covered other))[i]? = (bitsOf other)[i]? := by
  have first (bytes : Bytes) (enough : i < (bitsOf (covered bytes)).length) :
      (bitsOf (covered bytes))[i]? = (bitsOf bytes)[i]? := by
    conv_rhs => rw [← covered_append_trailer bytes, bitsOf_append]
    rw [List.getElem?_append_left enough]
  exact ⟨first frame (by rw [bitsOf_length, checked.covered_length]; exact early),
    first other (by rw [bitsOf_length, checked'.covered_length, same]; exact early)⟩

theorem trailer_unharmed (burst : BurstError frame other) : trailerOf other = trailerOf frame := by
  obtain ⟨start, within⟩ := burst.within
  apply bitsOf_injective
  apply List.ext_getElem?
  intro i
  have last (bytes : Bytes) (size : (covered bytes).length = frame.length - 2) :
      (bitsOf (trailerOf bytes))[i]? = (bitsOf bytes)[8 * (frame.length - 2) + i]? := by
    conv_rhs => rw [← covered_append_trailer bytes, bitsOf_append]
    rw [List.getElem?_append_right (by rw [bitsOf_length, size]; omega), bitsOf_length, size,
      Nat.add_sub_cancel_left]
  rw [last frame checked.covered_length, last other (by rw [checked'.covered_length, same])]
  by_contra differ
  have late := within _ ((mem_wrongBits same).mpr (Ne.symm differ))
  omega

theorem covered_burst (burst : BurstError frame other) :
    Lfsr.Burst 16 (bitsOf (covered frame)) (bitsOf (covered other)) := by
  obtain ⟨start, within⟩ := burst.within
  have length : (bitsOf (covered frame)).length = (bitsOf (covered other)).length := by
    rw [bitsOf_length, bitsOf_length, checked.covered_length, checked'.covered_length, same]
  have places (i : Nat) : i ∈ Lfsr.differing (bitsOf (covered frame)) (bitsOf (covered other)) ↔
      i ∈ wrongBits frame other := by
    rw [Lfsr.mem_differing length, mem_wrongBits same]
    by_cases early : i < 8 * (frame.length - 2)
    · obtain ⟨here, there⟩ := covered_bit checked checked' same i early
      rw [here, there]
    · have outside : (bitsOf (covered frame))[i]? = none := by
        rw [List.getElem?_eq_none]
        rw [bitsOf_length, checked.covered_length]
        omega
      have outside' : (bitsOf (covered other))[i]? = none := by
        rw [List.getElem?_eq_none]
        rw [bitsOf_length, checked'.covered_length, same]
        omega
      rw [outside, outside']
      refine ⟨fun differ => absurd rfl differ, fun differ => ?_⟩
      have late := within i ((mem_wrongBits same).mpr differ)
      omega
  refine ⟨?_, start, ?_⟩
  · intro empty
    obtain ⟨i, member⟩ := List.exists_mem_of_ne_nil _ burst.some_wrong
    have none_wrong := (places i).mpr member
    rw [empty] at none_wrong
    cases none_wrong
  · intro i member
    have place := within i ((places i).mp member)
    exact ⟨place.1, place.2.1⟩

theorem not_intact_of_burst (sound : intact frame = true) (burst : BurstError frame other) :
    intact other = false := by
  rw [checked.intact_eq, beq_iff_eq] at sound
  rw [checked'.intact_eq, trailer_unharmed checked checked' same burst, sound, beq_eq_false_iff_ne]
  intro equal
  have length : (bitsOf (covered frame)).length = (bitsOf (covered other)).length := by
    rw [bitsOf_length, bitsOf_length, checked.covered_length, checked'.covered_length, same]
  refine Lfsr.feed_ne_of_burst poly (by decide) crc16Prepare.toBitVec _ _ length
    (covered_burst checked checked' same burst) ?_
  rw [← crc16Add_eq_feed, ← crc16Add_eq_feed]
  exact congrArg UInt16.toBitVec equal

theorem not_intact_of_odd (sound : intact frame = true) (odd : Odd (wrongBits frame other).length) :
    intact other = false := by
  rw [← Bool.not_eq_true]
  intro sound'
  have length : (bitsOf frame).length = (bitsOf other).length := by
    rw [bitsOf_length, bitsOf_length, same]
  refine Lfsr.weightOf_ne_of_odd _ _ length odd ?_
  rw [weightOf_intact checked sound, weightOf_intact checked' sound']

end Errors

section Rejection

/-- Some call of a master's `readcook` takes just `frame` from its stream and returns a size. -/
def Accepts (frame : Bytes) : Prop :=
  frame.head? = some chSOH ∧ ∃ (m after : Protocol) (now stamp : Timespec) (value : Int),
    m.myAddr = 0xFF ∧ readcook now stamp m = .ok value after ∧ 0 < value ∧
      bytesOf m.input = frame ++ bytesOf after.input

theorem Accepts.sound {frame : Bytes} (accepts : Accepts frame) :
    Framed frame ∧ intact frame = true := by
  obtain ⟨soh, m, after, now, stamp, value, _, run, positive, stream⟩ := accepts
  obtain ⟨noise, taken, quiet, framed, sound, _, _, split, _⟩ := readcook_positive run positive
  rw [stream, ← List.append_assoc] at split
  have joined : frame = noise ++ taken := List.append_cancel_right split
  cases noise with
  | nil =>
    rw [joined]
    exact ⟨framed, sound⟩
  | cons byte noise =>
    rw [joined, List.cons_append, List.head?_cons, Option.some.injEq] at soh
    rw [soh] at quiet
    exact absurd List.mem_cons_self quiet

/-- With the same SOH, length and CRC flag, a frame that differs from an accepted one in a burst
before the trailer or in an odd number of bits is refused for its CRC. -/
theorem readcook_detects (frame other : Bytes) (accepts : Accepts frame)
    (crc : hasCrc (ctrlOf frame) = true) (long : 7 ≤ declared frame)
    (length : other.length = frame.length) (soh : other.head? = frame.head?)
    (low : other.getD 2 0 = frame.getD 2 0) (high : other.getD 3 0 = frame.getD 3 0)
    (flag : hasCrc (ctrlOf other) = hasCrc (ctrlOf frame))
    (error : BurstError frame other ∨ Odd (wrongBits frame other).length)
    (m : Protocol) (now stamp : Timespec) (rest : Bytes) (master : m.myAddr = 0xFF)
    (quiet : ∀ outcome ∈ m.input, Quiet (deadlineFrom now m.config.timeout) outcome)
    (stream : bytesOf m.input = other ++ rest) :
    ∃ after, readcook now stamp m = .ok PROTO_ERR_CRC after := by
  obtain ⟨framed, sound⟩ := accepts.sound
  have size := framed.size
  have checked : Checked frame := ⟨by omega, crc⟩
  have checked' : Checked other := ⟨by omega, by rw [flag, crc]⟩
  have total : declared other = declared frame := by rw [declared, declared, low, high]
  have framed' : Framed other :=
    ⟨by rw [soh, framed.soh], by rw [length, total, size], by rw [total, framed.admitted]⟩
  have broken : intact other = false := by
    rcases error with burst | odd
    · exact not_intact_of_burst checked checked' length sound burst
    · exact not_intact_of_odd checked checked' length sound odd
  have no_noise : chSOH ∉ ([] : Bytes) := List.not_mem_nil
  have parsed := framed'.parse_eq no_noise (passesBy_master (addrOf other)) rest
  have run := readcook_quiet m now stamp master quiet
  rw [List.nil_append, parse_master, broken, if_neg Bool.false_ne_true] at parsed
  rw [stream, parsed] at run
  obtain ⟨after, run, _⟩ := run
  exact ⟨after, run⟩

def ackFrame : Bytes := [0x53, 0x80, 8, 0, 4, 0x40, 0x59, 0xAC]

theorem readcook_detects_flip :
    ∃ after, readcook ⟨0, 0⟩ ⟨0, 0⟩
      { Protocol.construct ⟨0, 0, 1000, 0, 0⟩ with
        input := [.data [0x53, 0x80, 8], .data [0, 4, 0x41, 0x59, 0xAC]] } = .ok PROTO_ERR_CRC after := by
  have run := readcook_quiet { Protocol.construct ⟨0, 0, 1000, 0, 0⟩ with input := [.data ackFrame] }
    ⟨0, 0⟩ ⟨0, 0⟩ rfl (by decide +kernel)
  have parsed : parseMaster (bytesOf [.data ackFrame]) = some ⟨6, ackFrame, []⟩ := by decide +kernel
  rw [parsed] at run
  obtain ⟨after, run, _, rest⟩ := run
  have accepts : Accepts ackFrame :=
    ⟨rfl, _, after, _, _, 6, rfl, run, by decide, by rw [rest]; decide +kernel⟩
  refine readcook_detects ackFrame [0x53, 0x80, 8, 0, 4, 0x41, 0x59, 0xAC] accepts ?_ ?_ rfl rfl rfl rfl rfl
    ?_ _ _ _ [] rfl ?_ ?_
  · decide
  · decide
  · exact Or.inr (by decide +kernel)
  · decide +kernel
  · decide +kernel

end Rejection

end OsdpMaster.CrcDetection
