import OsdpMaster.Crc16
import OsdpMaster.Decoder
import OsdpMaster.Lib.Bits

/-! The card value of an OSDP_RAW, against the bits of its data. -/

namespace OsdpMaster.CardValue
open OsdpMaster.Crc16 OsdpMaster.Decoder OsdpMaster.Lib.Bits OsdpMaster.Lib.Program
open OsdpMaster.Lib.Numeral (padded)

/-- An OSDP_RAW with so many bits, of which the data are to hold at least as many. -/
def report (rdr fmt : UInt8) (bits : UInt16) (data : Bytes) : Bytes :=
  [0x50, rdr, fmt, bits.toUInt8, (bits >>> 8).toUInt8] ++ data

def shown (data : Bytes) : Text := data.flatMap fun byte => ' ' :: padded 2 ' ' (hex byte.toNat)

section Reading

theorem number_byteBits (byte : UInt8) : number (byteBits byte) = byte.toNat := by
  have bytes : ∀ x : BitVec 8, number (byteBits ⟨x⟩) = x.toNat := by decide +kernel
  exact bytes byte.toBitVec

theorem bits_field (bits : UInt16) : bits.toUInt8.toNat ||| (bits >>> 8).toUInt8.toNat <<< 8 = bits.toNat := by
  have low : bits.toUInt8.toNat < 1 <<< 8 := bits.toUInt8.toNat_lt
  have bounded := bits.toNat_lt
  rw [or_shiftLeft low]
  simp only [UInt16.toNat_toUInt8, UInt16.toNat_shiftRight, Nat.shiftRight_eq_div_pow, Nat.shiftLeft_eq]
  simp
  omega

theorem accumulate (before : Bytes) (byte : UInt8) :
    number (bitsOf before) <<< 8 ||| byte.toNat = number (bitsOf (before ++ [byte])) := by
  have small : byte.toNat < 1 <<< 8 := byte.toNat_lt
  have last : bitsOf [byte] = byteBits byte := List.append_nil _
  rw [Nat.or_comm, or_shiftLeft small, Nat.add_comm, bitsOf_append, number_append, last, number_byteBits,
    byteBits_length]

/-- The loop from some byte on: the bytes are shown, and their bits come after those before. -/
theorem rawLoop_ok {head before bytes rest : Bytes} (five : head.length = 5) (printed : Output) :
    rawLoop (head ++ (before ++ (bytes ++ rest))) bytes.length before.length (number (bitsOf before)) printed =
      .ok (number (bitsOf (before ++ bytes))) (printed.write (shown bytes) .out) := by
  induction bytes generalizing before printed with
  | nil =>
    rw [List.length_nil, rawLoop, List.append_nil, shown, List.flatMap_nil, write_nil]
    rfl
  | cons value bytes ih =>
    have there : (head ++ (before ++ (value :: bytes ++ rest)))[5 + before.length]? = some value := by
      rw [← five, List.getElem?_append_right (Nat.le_add_right _ _), Nat.add_sub_cancel_left,
        List.getElem?_append_right (Nat.le_refl _), Nat.sub_self]
      rfl
    have later : head ++ (before ++ (value :: bytes ++ rest)) = head ++ ((before ++ [value]) ++ (bytes ++ rest)) := by
      simp
    have next : before.length + 1 = (before ++ [value]).length := by simp
    rw [List.length_cons, rawLoop, bind_of_ok (byte_ok there printed),
      bind_of_ok (printPart_ok _ _ printed), bind_of_ok (byte_ok there _), accumulate, later, next, ih, write_write]
    simp [shown]

theorem aligned {data : Bytes} {count : Nat} (enough : count ≤ 8 * data.length) :
    number (bitsOf (data.take ((count + 7) / 8))) >>> ((count + 7) / 8 * 8 - count) =
      number ((bitsOf data).take count) := by
  have length : (bitsOf (data.take ((count + 7) / 8))).length = (count + 7) / 8 * 8 := by
    rw [bitsOf_length, List.length_take]
    omega
  have first : (bitsOf data).take count = (bitsOf (data.take ((count + 7) / 8))).take count := by
    have parts := bitsOf_append (data.take ((count + 7) / 8)) (data.drop ((count + 7) / 8))
    rw [List.take_append_drop] at parts
    rw [parts, List.take_append_of_le_length (by omega)]
  rw [first, number_take, length]

theorem rawLoop_report (rdr fmt : UInt8) (bits : UInt16) {data : Bytes} {by8 : Nat} (enough : by8 ≤ data.length)
    (printed : Output) : rawLoop (report rdr fmt bits data) by8 0 0 printed =
      .ok (number (bitsOf (data.take by8))) (printed.write (shown (data.take by8)) .out) := by
  have five : [0x50, rdr, fmt, bits.toUInt8, (bits >>> 8).toUInt8].length = 5 := rfl
  have length : (data.take by8).length = by8 := List.length_take_of_le enough
  have parts : data.take by8 ++ data.drop by8 = data := List.take_append_drop by8 data
  calc rawLoop (report rdr fmt bits data) by8 0 0 printed
      = rawLoop ([0x50, rdr, fmt, bits.toUInt8, (bits >>> 8).toUInt8] ++ ([] ++ (data.take by8 ++ data.drop by8)))
          (data.take by8).length ([] : Bytes).length (number (bitsOf [])) printed := by
        rw [parts, length]
        rfl
    _ = .ok (number (bitsOf (data.take by8))) (printed.write (shown (data.take by8)) .out) := rawLoop_ok five printed

theorem shift_checked (value places : Nat) : (if places > 0 then value >>> places else value) = value >>> places := by
  split
  · rfl
  next none =>
    have zero : places = 0 := by omega
    rw [zero, Nat.shiftRight_zero]

theorem raw_ok (rdr fmt : UInt8) (bits : UInt16) (data : Bytes) (printed : Output)
    (enough : bits.toNat ≤ 8 * data.length) :
    raw (report rdr fmt bits data) printed = .ok ()
      (printed.write (rawHead rdr.toNat fmt.toNat bits.toNat ++ shown (data.take ((bits.toNat + 7) / 8)) ++
        (cardText (number ((bitsOf data).take bits.toNat)) ++ ['\n'])) .out) := by
  have there (i : Nat) (value : UInt8) (here : (report rdr fmt bits data)[i]? = some value) (before : Output) :
      byte (report rdr fmt bits data) i before = .ok value.toNat before := byte_ok here before
  rw [raw, bind_of_ok (there 1 rdr rfl printed), bind_of_ok (there 2 fmt rfl printed),
    bind_of_ok (there 3 bits.toUInt8 rfl printed), bind_of_ok (there 4 (bits >>> 8).toUInt8 rfl printed), bits_field]
  rw [bind_of_ok (printPart_ok _ _ printed), bind_of_ok (rawLoop_report rdr fmt bits (by omega) _), shift_checked,
    aligned enough, printLine_ok, write_write, write_write, List.append_assoc]

end Reading

/-- The card value that is printed is the number of the first bits of the data, whatever follows them. -/
theorem card_value (rdr fmt : UInt8) (bits : UInt16) (data : Bytes) (printed : Output)
    (enough : (bits.toNat + 7) / 8 ≤ data.length) :
    osdpdecoder (report rdr fmt bits data) printed = .ok ()
      (printed.write (rawHead rdr.toNat fmt.toNat bits.toNat ++ shown (data.take ((bits.toNat + 7) / 8)) ++
        (cardText (number ((bitsOf data).take bits.toNat)) ++ ['\n'])) .out) := by
  have cmd : byte (report rdr fmt bits data) 0 printed = .ok 0x50 printed := rfl
  rw [osdpdecoder, bind_of_ok cmd]
  exact raw_ok rdr fmt bits data printed (by omega)

theorem card_value_26 : osdpdecoder (report 1 0 26 [0xCF, 0x90, 0x6B, 0x89]) ⟨[], []⟩ =
    .ok () ⟨"OSDP_RAW rdr=1 fmt=0 bits=26 CF 90 6B 89 33E41AE 0*54411694\n".toList, []⟩ :=
  (card_value 1 0 26 [0xCF, 0x90, 0x6B, 0x89] ⟨[], []⟩ (by decide)).trans
    (congrArg (EStateM.Result.ok ()) (by decide +kernel))

end OsdpMaster.CardValue
