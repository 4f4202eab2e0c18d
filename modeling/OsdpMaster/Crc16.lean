import OsdpMaster.OsdpDef
import OsdpMaster.Lib.Lfsr
import Mathlib.Tactic.IntervalCases

/-! `crc16.c`: the byte step against the bit-serial division by x^16 + x^12 + x^5 + 1. -/

namespace OsdpMaster.Crc16
open OsdpMaster OsdpMaster.Lib

def crc16Prepare : UInt16 := 0x1D0F

/-- The body of the loop in `crc16_add`. -/
def crc16Byte (crc : UInt16) (byte : UInt8) : UInt16 :=
  let x := (crc >>> 8).toUInt8 ^^^ byte
  let x := x ^^^ (x >>> 4)
  (crc <<< 8) ^^^ (x.toUInt16 <<< 12) ^^^ (x.toUInt16 <<< 5) ^^^ x.toUInt16

def crc16Add (crc : UInt16) (data : Bytes) : UInt16 := data.foldl crc16Byte crc

def crc16Digest (crc : UInt16) : UInt16 := crc

theorem crc16Add_append (crc : UInt16) (first second : Bytes) :
    crc16Add crc (first ++ second) = crc16Add (crc16Add crc first) second :=
  List.foldl_append

def poly : BitVec 16 := 0x1021

def byteBits (byte : UInt8) : List Bool :=
  [7, 6, 5, 4, 3, 2, 1, 0].map (fun i => byte.toBitVec.getLsbD i)

def bitsOf (data : Bytes) : List Bool := data.flatMap byteBits

@[simp] theorem byteBits_length (byte : UInt8) : (byteBits byte).length = 8 := rfl

theorem bitsOf_cons (byte : UInt8) (data : Bytes) :
    bitsOf (byte :: data) = byteBits byte ++ bitsOf data := rfl

@[simp] theorem bitsOf_length (data : Bytes) : (bitsOf data).length = 8 * data.length := by
  induction data with
  | nil => rfl
  | cons byte data ih =>
    rw [bitsOf_cons, List.length_append, ih, byteBits_length, List.length_cons]
    omega

@[simp] theorem bitsOf_append (first second : Bytes) :
    bitsOf (first ++ second) = bitsOf first ++ bitsOf second := by
  simp [bitsOf]

theorem byteBits_injective : Function.Injective byteBits := by
  intro left right same
  simp only [byteBits, List.map_cons, List.map_nil, List.cons.injEq] at same
  apply UInt8.toBitVec_inj.mp
  apply BitVec.eq_of_getLsbD_eq
  intro i small
  interval_cases i <;> simp only [same]

theorem bitsOf_injective {left right : Bytes} (same : bitsOf left = bitsOf right) : left = right := by
  induction left generalizing right with
  | nil =>
    have length := congrArg List.length same
    simp only [bitsOf_length, List.length_nil] at length
    exact (List.length_eq_zero_iff.mp (by omega)).symm
  | cons byte left ih =>
    cases right with
    | nil =>
      have length := congrArg List.length same
      simp only [bitsOf_length, List.length_cons, List.length_nil] at length
      omega
    | cons other right =>
      obtain ⟨first, rest⟩ := List.append_inj same rfl
      rw [byteBits_injective first, ih rest]

section ByteStep

def table (x : BitVec 8) : BitVec 16 :=
  let x := x ^^^ (x >>> 4)
  (x.setWidth 16 <<< 12) ^^^ (x.setWidth 16 <<< 5) ^^^ x.setWidth 16

private theorem place_byte :
    ∀ x : BitVec 8, Lfsr.place (byteBits ⟨x⟩) = (x.setWidth 16) <<< 8 := by
  decide +kernel

private theorem feed_high :
    ∀ x : BitVec 8, Lfsr.feed poly ((x.setWidth 16) <<< 8) (List.replicate 8 false) = table x := by
  decide +kernel

theorem feed_low :
    ∀ x : BitVec 8, Lfsr.feed poly (x.setWidth 16) (List.replicate 8 false) = (x.setWidth 16) <<< 8 := by
  decide +kernel

private theorem split_register (crc : BitVec 16) :
    crc = (((crc >>> 8).setWidth 8).setWidth 16) <<< 8 ^^^ (crc.setWidth 8).setWidth 16 := by
  apply BitVec.eq_of_getLsbD_eq
  intro i small
  interval_cases i <;> simp

private theorem shift_low (crc : BitVec 16) :
    ((crc.setWidth 8).setWidth 16) <<< 8 = crc <<< 8 := by
  apply BitVec.eq_of_getLsbD_eq
  intro i small
  interval_cases i <;> simp

private theorem shifted_out (crc : UInt16) (byte : UInt8) :
    ((crc >>> 8).toUInt8 ^^^ byte).toBitVec = (crc.toBitVec >>> 8).setWidth 8 ^^^ byte.toBitVec := rfl

private theorem crc16Byte_table (crc : UInt16) (byte : UInt8) :
    (crc16Byte crc byte).toBitVec =
      table ((crc.toBitVec >>> 8).setWidth 8 ^^^ byte.toBitVec) ^^^ (crc.toBitVec <<< 8) := by
  rw [← shifted_out]
  unfold crc16Byte table
  generalize (crc >>> 8).toUInt8 ^^^ byte = x
  change crc.toBitVec <<< 8 ^^^ _ ^^^ _ ^^^ _ = _
  rw [BitVec.xor_comm _ (crc.toBitVec <<< 8)]
  simp only [BitVec.xor_assoc]
  rfl

/-- One byte of `crc16_add` is eight rounds of the shift register. -/
theorem crc16Byte_eq_feed (crc : UInt16) (byte : UInt8) :
    (crc16Byte crc byte).toBitVec = Lfsr.feed poly crc.toBitVec (byteBits byte) := by
  have high : crc.toBitVec ^^^ (byte.toBitVec.setWidth 16) <<< 8 =
      (((crc.toBitVec >>> 8).setWidth 8 ^^^ byte.toBitVec).setWidth 16) <<< 8 ^^^
        (crc.toBitVec.setWidth 8).setWidth 16 := by
    conv_lhs => rw [split_register crc.toBitVec]
    rw [BitVec.setWidth_xor, BitVec.shiftLeft_xor_distrib]
    ac_rfl
  have zeros : List.replicate (byteBits byte).length false =
      List.zipWith xor (List.replicate 8 false) (List.replicate 8 false) := rfl
  rw [Lfsr.feed_eq_place poly crc.toBitVec (byteBits byte) (by simp), place_byte byte.toBitVec, high,
    zeros, Lfsr.feed_xor _ _ _ _ _ rfl, feed_high, feed_low, shift_low, crc16Byte_table]

theorem crc16Add_eq_feed (crc : UInt16) (data : Bytes) :
    (crc16Add crc data).toBitVec = Lfsr.feed poly crc.toBitVec (bitsOf data) := by
  induction data generalizing crc with
  | nil => rfl
  | cons byte data ih =>
    simp only [crc16Add, List.foldl_cons] at ih ⊢
    rw [ih, crc16Byte_eq_feed, bitsOf_cons, Lfsr.feed_append]

end ByteStep

theorem crc16Add_flatten (crc : UInt16) (pieces : List Bytes) :
    pieces.foldl crc16Add crc = crc16Add crc pieces.flatten := by
  induction pieces generalizing crc with
  | nil => rfl
  | cons piece pieces ih =>
    calc
      (piece :: pieces).foldl crc16Add crc = crc16Add (crc16Add crc piece) pieces.flatten := ih _
      _ = crc16Add crc (piece ++ pieces.flatten) := (crc16Add_append crc piece _).symm
      _ = crc16Add crc (piece :: pieces).flatten := by rw [List.flatten_cons]

/-- `crc16_add` is bit-serial division and may be fed piece by piece: any message, in any pieces, gets
the CRC-16 with the initial value 0x1D0F. -/
theorem crc16_serial :
    (∀ (crc : UInt16) (data : Bytes),
      (crc16Add crc data).toBitVec = Lfsr.feed poly crc.toBitVec (bitsOf data)) ∧
    (∀ (crc : UInt16) (first second : Bytes),
      crc16Add crc (first ++ second) = crc16Add (crc16Add crc first) second) ∧
    ∀ pieces : List Bytes, (crc16Digest (pieces.foldl crc16Add crc16Prepare)).toBitVec =
      Lfsr.feed poly 0x1D0F (bitsOf pieces.flatten) := by
  refine ⟨crc16Add_eq_feed, crc16Add_append, ?_⟩
  intro pieces
  rw [crc16Add_flatten]
  exact crc16Add_eq_feed crc16Prepare pieces.flatten

example : crc16Digest (crc16Add crc16Prepare (ascii "123456789")) = 0xE5CC := by decide

end OsdpMaster.Crc16
