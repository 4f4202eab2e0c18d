import OsdpMaster.Decoder
import OsdpMaster.Lib.Bits

/-!
What the two scripts print of an OSDP_PDID. Both leave the most significant byte
of the serial number in the place of the least.
-/

namespace OsdpMaster.DeviceId
open OsdpMaster.Decoder OsdpMaster.Lib.Bits OsdpMaster.Lib.Program
open OsdpMaster.Lib.Numeral (padded isDigit field_end numeral_digits numeral_inj padded_digits padded_inj)

structure Report where
  vendor : BitVec 24
  model : UInt8
  hwVersion : UInt8
  serial : UInt32
  major : UInt8
  minor : UInt8
  build : UInt8
  deriving DecidableEq

/-- The vendor with its most significant byte first, the serial number with its least. -/
def Report.payload (r : Report) : Bytes :=
  [0x45, UInt8.ofNat (r.vendor.toNat / 65536), UInt8.ofNat (r.vendor.toNat / 256), UInt8.ofNat r.vendor.toNat,
    r.model, r.hwVersion, UInt8.ofNat r.serial.toNat, UInt8.ofNat (r.serial.toNat / 256),
    UInt8.ofNat (r.serial.toNat / 65536), UInt8.ofNat (r.serial.toNat / 16777216), r.major, r.minor, r.build]

def Report.fields (r : Report) : Text :=
  identityLine r.vendor.toNat r.model.toNat r.hwVersion.toNat r.serial.toNat r.major.toNat r.minor.toNat
    r.build.toNat

/-- `serial`, as it is put together. -/
def readSerial (serial : Nat) : Nat := (serial % 256 ||| serial / 16777216) + serial / 256 % 65536 * 256

def Report.printed (r : Report) : Text :=
  identityLine r.vendor.toNat r.model.toNat r.hwVersion.toNat (readSerial r.serial.toNat) r.major.toNat
    r.minor.toNat r.build.toNat

section Reading

variable (r : Report)

theorem three_bytes {low middle : Nat} (lowSmall : low < 256) (middleSmall : middle < 256) (high : Nat) :
    low ||| middle <<< 8 ||| high <<< 16 = low + middle * 256 + high * 65536 := by
  have first : low < 1 <<< 8 := lowSmall
  have second : low + middle <<< 8 < 1 <<< 16 := by
    rw [Nat.shiftLeft_eq]
    change _ < 65536
    omega
  rw [or_shiftLeft first, or_shiftLeft second, Nat.shiftLeft_eq, Nat.shiftLeft_eq]

theorem vendor_read : (UInt8.ofNat (r.vendor.toNat / 65536)).toNat <<< 16 |||
    (UInt8.ofNat (r.vendor.toNat / 256)).toNat <<< 8 ||| (UInt8.ofNat r.vendor.toNat).toNat = r.vendor.toNat := by
  have bounded : r.vendor.toNat < 16777216 := r.vendor.isLt
  simp only [UInt8.toNat_ofNat']
  generalize r.vendor.toNat = vendor at bounded
  calc (vendor / 65536 % 256) <<< 16 ||| (vendor / 256 % 256) <<< 8 ||| vendor % 256
      = vendor % 256 ||| (vendor / 256 % 256) <<< 8 ||| (vendor / 65536 % 256) <<< 16 := by
        rw [Nat.or_comm _ (vendor % 256), Nat.or_comm ((vendor / 65536 % 256) <<< 16), Nat.or_assoc]
    _ = vendor % 256 + vendor / 256 % 256 * 256 + vendor / 65536 % 256 * 65536 :=
      three_bytes (Nat.mod_lt _ (by decide)) (Nat.mod_lt _ (by decide)) _
    _ = vendor := by omega

theorem first_byte_lt {serial : Nat} (bounded : serial < 4294967296) : serial % 256 ||| serial / 16777216 < 256 :=
  Nat.or_lt_two_pow (n := 8) (Nat.mod_lt serial (by decide)) (Nat.div_lt_of_lt_mul bounded)

theorem serial_read : (UInt8.ofNat r.serial.toNat).toNat ||| (UInt8.ofNat (r.serial.toNat / 256)).toNat <<< 8 |||
    (UInt8.ofNat (r.serial.toNat / 65536)).toNat <<< 16 ||| (UInt8.ofNat (r.serial.toNat / 16777216)).toNat =
      readSerial r.serial.toNat := by
  have bounded : r.serial.toNat < 4294967296 := r.serial.toNat_lt
  simp only [UInt8.toNat_ofNat']
  generalize r.serial.toNat = serial at bounded
  have top : serial / 16777216 % 256 = serial / 16777216 := Nat.mod_eq_of_lt (by omega)
  calc serial % 256 ||| (serial / 256 % 256) <<< 8 ||| (serial / 65536 % 256) <<< 16 ||| serial / 16777216 % 256
      = (serial % 256 ||| serial / 16777216) ||| (serial / 256 % 256) <<< 8 ||| (serial / 65536 % 256) <<< 16 := by
        rw [top, Nat.or_comm _ (serial / 16777216), ← Nat.or_assoc, ← Nat.or_assoc,
          Nat.or_comm (serial / 16777216)]
    _ = (serial % 256 ||| serial / 16777216) + serial / 256 % 256 * 256 + serial / 65536 % 256 * 65536 :=
      three_bytes (first_byte_lt bounded) (Nat.mod_lt _ (by decide)) _
    _ = readSerial serial := by
      rw [readSerial]
      omega

/-- The serial number is read right exactly where its most significant byte is zero. -/
theorem readSerial_iff {serial : Nat} (bounded : serial < 4294967296) :
    readSerial serial = serial ↔ serial < 16777216 := by
  have low := first_byte_lt bounded
  unfold readSerial
  constructor
  · intro same
    omega
  · intro small
    rw [Nat.div_eq_of_lt small, Nat.or_zero]
    omega

theorem identity_ok (printed : Output) : identity r.payload printed = .ok r.printed printed := by
  have there (i : Nat) (value : UInt8) (here : r.payload[i]? = some value) (before : Output) :
      byte r.payload i before = .ok value.toNat before := byte_ok here before
  rw [identity, bind_of_ok (there 1 _ rfl printed), bind_of_ok (there 2 _ rfl printed), bind_of_ok (there 3 _ rfl printed),
    vendor_read, bind_of_ok (there 4 _ rfl printed), bind_of_ok (there 5 _ rfl printed), bind_of_ok (there 6 _ rfl printed),
    bind_of_ok (there 7 _ rfl printed), bind_of_ok (there 8 _ rfl printed), bind_of_ok (there 9 _ rfl printed), serial_read,
    bind_of_ok (there 10 _ rfl printed), bind_of_ok (there 11 _ rfl printed), bind_of_ok (there 12 _ rfl printed)]
  rfl

/-- Both scripts print the line to `sys.stdout`, after a name or after the topic and the payload. -/
structure Prints (r : Report) (line : Text) : Prop where
  decoder : ∀ printed, osdpdecoder r.payload printed =
    .ok () (printed.write ("OSDP_PDID ".toList ++ line ++ ['\n']) .stdout)
  info : ∀ topic printed, onMessage topic r.payload printed =
    .ok () (printed.write (topic ++ ' ' :: b2aHex r.payload ++ ['\n'] ++ (line ++ ['\n'])) .stdout)

theorem prints_printed : Prints r r.printed where
  decoder := by
    intro printed
    have cmd : byte r.payload 0 printed = .ok 0x45 printed := rfl
    have line := bind_of_ok (identity_ok r printed) fun text => printLine ("OSDP_PDID ".toList ++ text) .stdout
    rw [osdpdecoder, bind_of_ok cmd]
    exact line
  info := by
    intro topic printed
    have cmd (before : Output) : byte r.payload 0 before = .ok 0x45 before := rfl
    rw [onMessage, bind_of_ok (printLine_ok _ _ printed), bind_of_ok (cmd _), if_pos rfl, bind_of_ok (identity_ok r _),
      printLine_ok, write_write]

variable {r} in
theorem Prints.unique {line : Text} (prints : Prints r line) : line = r.printed := by
  have same := (prints.decoder ⟨[], []⟩).symm.trans ((prints_printed r).decoder ⟨[], []⟩)
  injection same with _ outputs
  exact List.append_cancel_left (List.append_cancel_right (write_inj outputs))

end Reading

section Distinct

theorem dec_end {label rest rest' : Text} {c : Char} {value value' : Nat} (stop : isDigit c = false)
    (same : label ++ (dec value ++ c :: rest) = label ++ (dec value' ++ c :: rest')) :
    value = value' ∧ rest = rest' := by
  have digits (number : Nat) : ∀ b ∈ dec number, isDigit b = true :=
    numeral_digits (by decide) (by decide) number
  obtain ⟨texts, rests⟩ := field_end (digits value) (digits value') stop same
  exact ⟨numeral_inj (by decide) (by decide) texts, rests⟩

theorem identityLine_inj {v v' m m' h h' s s' a a' b b' c c' : Nat}
    (same : identityLine v m h s a b c = identityLine v' m' h' s' a' b' c') :
    (v, m, h, s, a, b, c) = (v', m', h', s', a', b', c') := by
  have vendorDigits (number : Nat) : ∀ b ∈ padded 6 '0' (hex number), isDigit b = true :=
    padded_digits (by decide) (by decide) 6 number
  unfold identityLine at same
  -- What the labels are does not matter, and simp is not to evaluate them.
  generalize "Vendor=".toList = vendorIs, "model=".toList = modelIs, "hwver=".toList = hwverIs,
    "serial=".toList = serialIs, "fwver=".toList = fwverIs at same
  simp only [List.append_assoc, List.cons_append] at same
  obtain ⟨vendors, afterVendor⟩ := field_end (vendorDigits v) (vendorDigits v') (by decide) same
  obtain ⟨model, afterModel⟩ := dec_end (by decide) afterVendor
  obtain ⟨hwver, afterHwver⟩ := dec_end (by decide) afterModel
  obtain ⟨serial, afterSerial⟩ := dec_end (by decide) afterHwver
  obtain ⟨major, afterMajor⟩ := dec_end (by decide) afterSerial
  obtain ⟨minor, afterMinor⟩ := dec_end (by decide) (show [] ++ _ = [] ++ _ from afterMajor)
  have vendor : v = v' := padded_inj (by decide) (by decide) vendors
  have build : c = c' := numeral_inj (by decide) (by decide) afterMinor
  rw [vendor, model, hwver, serial, major, minor, build]

end Distinct

/-- Both scripts print the values of the fields exactly where the most significant byte of the serial number is
zero; among such devices no two print the same line. -/
theorem prints_fields_iff (r : Report) :
    (Prints r r.fields ↔ r.serial.toNat < 16777216) ∧
      ∀ (other : Report) (line : Text), r.serial.toNat < 16777216 → other.serial.toNat < 16777216 →
        Prints r line → Prints other line → r = other := by
  have read (r : Report) : readSerial r.serial.toNat = r.serial.toNat ↔ r.serial.toNat < 16777216 :=
    readSerial_iff r.serial.toNat_lt
  constructor
  · rw [← read]
    constructor
    · intro prints
      have same := identityLine_inj prints.unique
      simp only [Prod.mk.injEq, true_and, and_true] at same
      exact same.symm
    · intro right
      have same : r.fields = r.printed := by
        rw [Report.fields, Report.printed, right]
      rw [same]
      exact prints_printed r
  · intro other line small otherSmall prints otherPrints
    have same := identityLine_inj (prints.unique.symm.trans otherPrints.unique)
    rw [(read r).mpr small, (read other).mpr otherSmall] at same
    simp only [Prod.mk.injEq, UInt8.toNat_inj, UInt32.toNat_inj, BitVec.toNat_inj] at same
    obtain ⟨vendor, model, hwVersion, serial, major, minor, build⟩ := same
    cases r
    cases other
    congr

/-- Two devices with the serial numbers 0x01000000 and 1. -/
theorem serials_look_alike :
    ¬(∀ r : Report, Prints r r.fields) ∧
      ∃ line, Prints ⟨0x00068E, 1, 2, 0x01000000, 3, 4, 5⟩ line ∧ Prints ⟨0x00068E, 1, 2, 1, 3, 4, 5⟩ line := by
  constructor
  · intro exact
    have same := identityLine_inj (exact ⟨0x00068E, 1, 2, 0x01000000, 3, 4, 5⟩).unique
    revert same
    decide
  · exact ⟨_, prints_printed ⟨0x00068E, 1, 2, 0x01000000, 3, 4, 5⟩, prints_printed ⟨0x00068E, 1, 2, 1, 3, 4, 5⟩⟩

end OsdpMaster.DeviceId
