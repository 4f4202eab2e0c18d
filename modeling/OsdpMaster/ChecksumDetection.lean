import OsdpMaster.CrcDetection
import OsdpMaster.Lib.WordSum

/-!
What the one byte of a checksum rules out, and what it lets pass: no burst of up
to eight bits in the order of the line, the trailer included, and every exchange
of bytes.
-/

namespace OsdpMaster.ChecksumDetection
open OsdpMaster.Protocol OsdpMaster.Lib.WordSum OsdpMaster.ReadInput OsdpMaster.FrameSpec
open OsdpMaster.ReadRefinement OsdpMaster.CrcDetection

def byteAt (frame : Bytes) (i : Nat) : Nat := (frame.getD i 0).toNat

/-- The trailer counts against the bytes before it. -/
def weightIn (length i : Nat) : Int := if i + 1 = length then -1 else 1

/-- Some bits are wrong, all of them within 8 consecutive bits on the line, where a byte goes least significant
bit first. -/
structure LineBurst (frame other : Bytes) : Prop where
  differ : other ≠ frame
  within : ∃ start, Within 8 8 start (byteAt frame) (byteAt other)

section Sums

theorem byteAt_lt (frame : Bytes) (i : Nat) : byteAt frame i < 2 ^ 8 := (frame.getD i 0).toNat_lt

theorem byteAt_beyond {frame : Bytes} {i : Nat} (beyond : frame.length ≤ i) : byteAt frame i = 0 := by
  rw [byteAt, List.getD_eq_getElem?_getD, List.getElem?_eq_none beyond]
  rfl

theorem odd_weightIn (length i : Nat) : Odd (weightIn length i) := by
  unfold weightIn
  split <;> decide

theorem checksumAdd_append (sum : UInt8) (first second : Bytes) :
    checksumAdd sum (first ++ second) = checksumAdd (checksumAdd sum first) second := List.foldl_append

theorem checksumAdd_toNat (data : Bytes) :
    (checksumAdd 0 data).toNat = (∑ i ∈ Finset.range data.length, byteAt data i) % 256 := by
  induction data using List.reverseRecOn with
  | nil => rfl
  | append_singleton data byte ih =>
    have before : ∑ i ∈ Finset.range data.length, byteAt (data ++ [byte]) i =
        ∑ i ∈ Finset.range data.length, byteAt data i := by
      apply Finset.sum_congr rfl
      intro i inside
      rw [byteAt, getD_append_left data [byte] i (Finset.mem_range.mp inside), byteAt]
    have last : byteAt (data ++ [byte]) data.length = byte.toNat := by
      have here := getD_append_right data [byte] 0
      rw [Nat.add_zero] at here
      rw [byteAt, here]
      rfl
    calc (checksumAdd 0 (data ++ [byte])).toNat
        = ((checksumAdd 0 data).toNat + byte.toNat) % 256 := by
          rw [checksumAdd_append]
          exact UInt8.toNat_add _ _
      _ = (∑ i ∈ Finset.range data.length, byteAt data i + byte.toNat) % 256 := by rw [ih, Nat.mod_add_mod]
      _ = (∑ i ∈ Finset.range (data ++ [byte]).length, byteAt (data ++ [byte]) i) % 256 := by
          rw [List.length_append, List.length_singleton, Finset.sum_range_succ, before, last]

theorem checksumAdd_perm {first second : Bytes} (same : first.Perm second) :
    checksumAdd 0 first = checksumAdd 0 second :=
  have : RightCommutative (fun sum byte : UInt8 => sum + byte) := ⟨fun sum byte other => by ac_rfl⟩
  same.foldl_eq 0

end Sums

structure Summed (frame : Bytes) : Prop where
  long : sizeofCommon < frame.length
  sum : hasCrc (ctrlOf frame) = false

namespace Summed

variable {frame : Bytes} (summed : Summed frame)

include summed

theorem intact_iff_sum : intact frame = true ↔
    checksumAdd 0 (frame.take (frame.length - 1)) = frame.getD (frame.length - 1) 0 := by
  rw [intact, summed.sum, if_neg Bool.false_ne_true, covered, trailerSize, summed.sum,
    if_neg Bool.false_ne_true, beq_iff_eq]

/-- A frame is intact if its bytes and its trailer balance. -/
theorem intact_iff_total : intact frame = true ↔
    (2 : Int) ^ 8 ∣ total (weightIn frame.length) (byteAt frame) frame.length := by
  have long := summed.long
  obtain ⟨count, length⟩ : ∃ count, frame.length = count + 1 := ⟨frame.length - 1, by omega⟩
  have front : (checksumAdd 0 (frame.take count)).toNat =
      (∑ i ∈ Finset.range count, byteAt frame i) % 256 := by
    rw [checksumAdd_toNat, List.length_take_of_le (by omega)]
    congr 1
    apply Finset.sum_congr rfl
    intro i inside
    rw [byteAt, byteAt, List.getD_eq_getElem?_getD, List.getElem?_take_of_lt (Finset.mem_range.mp inside),
      ← List.getD_eq_getElem?_getD]
  have balance : total (weightIn (count + 1)) (byteAt frame) (count + 1) =
      (∑ i ∈ Finset.range count, byteAt frame i : Nat) - (byteAt frame count : Int) := by
    have last : weightIn (count + 1) count = -1 := if_pos rfl
    have before : ∑ i ∈ Finset.range count, weightIn (count + 1) i * (byteAt frame i : Int) =
        (∑ i ∈ Finset.range count, byteAt frame i : Nat) := by
      rw [Nat.cast_sum]
      apply Finset.sum_congr rfl
      intro i inside
      have early := Finset.mem_range.mp inside
      rw [weightIn, if_neg (by omega), one_mul]
    rw [total, Finset.sum_range_succ, last, before]
    ring
  have small := byteAt_lt frame count
  rw [summed.intact_iff_sum, length, Nat.add_sub_cancel, balance, ← UInt8.toNat_inj, front]
  change _ = byteAt frame count ↔ _
  omega

end Summed

section Errors

theorem lineBurst_set {frame : Bytes} {i : Nat} {byte : UInt8} (inside : i < frame.length) (differ : frame[i] ≠ byte) :
    LineBurst frame (frame.set i byte) := by
  constructor
  · intro same
    have here := congrArg (fun bytes : Bytes => bytes[i]?) same
    simp only [List.getElem?_set_self inside, List.getElem?_eq_getElem inside, Option.some.injEq] at here
    exact differ here.symm
  · refine ⟨8 * i, ?_⟩
    intro place wrong
    by_contra outside
    have other : i ≠ place / 8 := by omega
    apply wrong
    rw [bitAt, bitAt, byteAt, byteAt, List.getD_eq_getElem?_getD, List.getD_eq_getElem?_getD,
      List.getElem?_set_ne other]

variable {frame other : Bytes} (summed : Summed frame) (summed' : Summed other)

include summed summed'

theorem intact_of_perm (sound : intact frame = true) (exchanged : (covered other).Perm (covered frame))
    (trailer : other.getD (other.length - 1) 0 = frame.getD (frame.length - 1) 0) : intact other = true := by
  have front (bytes : Bytes) (sum : Summed bytes) : covered bytes = bytes.take (bytes.length - 1) := by
    rw [covered, trailerSize, sum.sum, if_neg Bool.false_ne_true]
  rw [front other summed', front frame summed] at exchanged
  rw [summed'.intact_iff_sum, checksumAdd_perm exchanged, trailer]
  exact summed.intact_iff_sum.mp sound

theorem not_intact_of_lineBurst (same : other.length = frame.length) (sound : intact frame = true)
    (burst : LineBurst frame other) : intact other = false := by
  rw [← Bool.not_eq_true]
  intro sound'
  obtain ⟨start, within⟩ := burst.within
  have balanced := summed.intact_iff_total.mp sound
  have balanced' := summed'.intact_iff_total.mp sound'
  rw [same] at balanced'
  have equal : byteAt frame = byteAt other := by
    apply eq_of_total (odd_weightIn frame.length) (byteAt_lt frame) (byteAt_lt other) (by decide) _ within
    · exact dvd_sub balanced balanced'
    · intro i beyond
      rw [byteAt_beyond beyond, byteAt_beyond (same ▸ beyond)]
  apply burst.differ
  apply List.ext_getElem same
  intro i inside inside'
  have bytes := congrFun equal i
  rw [byteAt, byteAt, UInt8.toNat_inj, List.getD_eq_getElem?_getD, List.getD_eq_getElem?_getD,
    List.getElem?_eq_getElem inside, List.getElem?_eq_getElem inside'] at bytes
  exact bytes.symm

end Errors

section Rejection

theorem readcook_frame {frame rest : Bytes} (framed : Framed frame) (m : Protocol) (now stamp : Timespec)
    (master : m.myAddr = 0xFF) (quiet : ∀ outcome ∈ m.input, Quiet (deadlineFrom now m.config.timeout) outcome)
    (stream : bytesOf m.input = frame ++ rest) :
    ∃ after, readcook now stamp m =
      .ok (if intact frame then (frame.length : Int) - trailerSize frame else PROTO_ERR_CRC) after := by
  have no_noise : chSOH ∉ ([] : Bytes) := List.not_mem_nil
  have parsed := framed.parse_eq no_noise (passesBy_master (addrOf frame)) rest
  have run := readcook_quiet m now stamp master quiet
  rw [List.nil_append, parse_master] at parsed
  rw [stream, parsed] at run
  obtain ⟨after, run, _⟩ := run
  exact ⟨after, run⟩

/-- With the same SOH, length and CRC flag, a frame that differs from an accepted one with a checksum in a burst of
up to 8 bits on the line, anywhere, is refused; one whose bytes before the trailer are only exchanged is accepted. -/
theorem readcook_adds_up (frame other : Bytes) (accepts : Accepts frame)
    (sum : hasCrc (ctrlOf frame) = false) (length : other.length = frame.length) (soh : other.head? = frame.head?)
    (low : other.getD 2 0 = frame.getD 2 0) (high : other.getD 3 0 = frame.getD 3 0)
    (flag : hasCrc (ctrlOf other) = hasCrc (ctrlOf frame)) (m : Protocol) (now stamp : Timespec) (rest : Bytes)
    (master : m.myAddr = 0xFF) (quiet : ∀ outcome ∈ m.input, Quiet (deadlineFrom now m.config.timeout) outcome)
    (stream : bytesOf m.input = other ++ rest) :
    (LineBurst frame other → ∃ after, readcook now stamp m = .ok PROTO_ERR_CRC after) ∧
      ((covered other).Perm (covered frame) →
        other.getD (other.length - 1) 0 = frame.getD (frame.length - 1) 0 →
        ∃ after, readcook now stamp m = .ok ((other.length : Int) - 1) after) := by
  obtain ⟨framed, sound⟩ := accepts.sound
  have total : declared other = declared frame := by rw [declared, declared, low, high]
  have framed' : Framed other :=
    ⟨by rw [soh, framed.soh], by rw [length, total, framed.size], by rw [total, framed.admitted]⟩
  have summed : Summed frame := ⟨framed.long, sum⟩
  have summed' : Summed other := ⟨framed'.long, by rw [flag, sum]⟩
  obtain ⟨after, run⟩ := readcook_frame framed' m now stamp master quiet stream
  constructor
  · intro burst
    rw [not_intact_of_lineBurst summed summed' length sound burst] at run
    exact ⟨after, run⟩
  · intro exchanged trailer
    rw [intact_of_perm summed summed' sound exchanged trailer, if_pos rfl, trailerSize, summed'.sum,
      if_neg Bool.false_ne_true] at run
    exact ⟨after, run⟩

def reportFrame : Bytes := [0x53, 0x85, 8, 0, 0, 0x50, 1, 0x31]

theorem accepts_reportFrame : Accepts reportFrame := by
  have run := readcook_quiet { Protocol.construct ⟨0, 0, 1000, 0, 0⟩ with input := [.data reportFrame] }
    ⟨0, 0⟩ ⟨0, 0⟩ rfl (by decide +kernel)
  have parsed : parseMaster (bytesOf [.data reportFrame]) = some ⟨7, reportFrame, []⟩ := by decide +kernel
  rw [parsed] at run
  obtain ⟨after, run, _, rest⟩ := run
  exact ⟨rfl, _, after, _, _, 7, rfl, run, by decide, by rw [rest]; decide +kernel⟩

/-- A wrong code is noticed, two bytes in the wrong order are not. -/
theorem readcook_adds_up_report :
    (∃ after, readcook ⟨0, 0⟩ ⟨0, 0⟩ { Protocol.construct ⟨0, 0, 1000, 0, 0⟩ with
      input := [.data (reportFrame.set 5 0x51)] } = .ok PROTO_ERR_CRC after) ∧
    ∃ after, readcook ⟨0, 0⟩ ⟨0, 0⟩ { Protocol.construct ⟨0, 0, 1000, 0, 0⟩ with
      input := [.data [0x53, 0x85, 8, 0, 0, 1, 0x50, 0x31]] } = .ok 7 after := by
  constructor
  · have noticed := (readcook_adds_up reportFrame (reportFrame.set 5 0x51) accepts_reportFrame (by decide) rfl rfl rfl
      rfl rfl { Protocol.construct ⟨0, 0, 1000, 0, 0⟩ with input := [.data (reportFrame.set 5 0x51)] } ⟨0, 0⟩ ⟨0, 0⟩ []
      rfl (by decide +kernel) (by decide +kernel)).1
    exact noticed (lineBurst_set (by decide) (by decide))
  · have exchanged := (readcook_adds_up reportFrame [0x53, 0x85, 8, 0, 0, 1, 0x50, 0x31] accepts_reportFrame (by decide)
      rfl rfl rfl rfl rfl { Protocol.construct ⟨0, 0, 1000, 0, 0⟩ with
        input := [.data [0x53, 0x85, 8, 0, 0, 1, 0x50, 0x31]] } ⟨0, 0⟩ ⟨0, 0⟩ []
      rfl (by decide +kernel) (by decide +kernel)).2
    exact exchanged (by decide) rfl

end Rejection

end OsdpMaster.ChecksumDetection
