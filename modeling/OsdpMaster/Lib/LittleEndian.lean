import Mathlib.Algebra.Order.Group.Nat
import Mathlib.Data.List.Range
import Mathlib.Tactic.Common

/-! Numbers as so many bytes, the least significant first. -/

namespace OsdpMaster.Lib.LittleEndian

/-- The bytes of a number; what does not fit is lost. -/
def packed (width value : Nat) : List UInt8 :=
  (List.range width).map fun place => UInt8.ofNat (value / 256 ^ place)

def number (bytes : List UInt8) : Nat := bytes.foldr (fun byte rest => byte.toNat + 256 * rest) 0

@[simp] theorem packed_length (width value : Nat) : (packed width value).length = width := by
  rw [packed, List.length_map, List.length_range]

theorem packed_succ (width value : Nat) :
    packed (width + 1) value = UInt8.ofNat value :: packed width (value / 256) := by
  have shifted (place : Nat) : value / 256 ^ (place + 1) = value / 256 / 256 ^ place := by
    rw [Nat.pow_succ', Nat.div_div_eq_div_mul]
  simp only [packed, List.range_succ_eq_map, List.map_cons, List.map_map, Nat.pow_zero, Nat.div_one]
  congr 1
  apply List.map_congr_left
  intro place _
  simp only [Function.comp_apply, Nat.succ_eq_add_one, shifted]

theorem number_packed {width value : Nat} (fits : value < 256 ^ width) : number (packed width value) = value := by
  induction width generalizing value with
  | zero =>
    rw [Nat.pow_zero] at fits
    have zero : value = 0 := by omega
    rw [zero]
    rfl
  | succ width ih =>
    rw [Nat.pow_succ'] at fits
    have rest : number (packed width (value / 256)) = value / 256 := ih (Nat.div_lt_of_lt_mul fits)
    calc number (packed (width + 1) value)
        = (UInt8.ofNat value).toNat + 256 * number (packed width (value / 256)) := by
          rw [packed_succ]
          rfl
      _ = value % 256 + 256 * (value / 256) := by rw [rest, UInt8.toNat_ofNat']
      _ = value := Nat.mod_add_div value 256

end OsdpMaster.Lib.LittleEndian
