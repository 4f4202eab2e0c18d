import Mathlib.Data.List.Induction
import Mathlib.Tactic.Common

/-! Numbers in binary, the most significant bit first. -/

namespace OsdpMaster.Lib.Bits

def number (bits : List Bool) : Nat := bits.foldl (fun value bit => 2 * value + bit.toNat) 0

section Number

variable (bits more : List Bool)

@[simp] theorem number_nil : number [] = 0 := rfl

theorem number_append_singleton (bit : Bool) : number (bits ++ [bit]) = 2 * number bits + bit.toNat := by
  rw [number, List.foldl_append, List.foldl_cons, List.foldl_nil, number]

theorem number_append : number (bits ++ more) = number bits <<< more.length + number more := by
  induction more using List.reverseRecOn with
  | nil => rw [List.append_nil, number_nil, List.length_nil, Nat.shiftLeft_zero, Nat.add_zero]
  | append_singleton more bit ih =>
    calc number (bits ++ (more ++ [bit]))
        = 2 * (number bits <<< more.length + number more) + bit.toNat := by
          rw [← List.append_assoc, number_append_singleton, ih]
      _ = number bits <<< (more.length + 1) + (2 * number more + bit.toNat) := by
          rw [Nat.shiftLeft_succ]
          omega
      _ = number bits <<< (more ++ [bit]).length + number (more ++ [bit]) := by
          rw [List.length_append, List.length_singleton, number_append_singleton]

theorem number_lt : number more < 1 <<< more.length := by
  induction more using List.reverseRecOn with
  | nil => exact Nat.one_pos
  | append_singleton more bit ih =>
    rw [number_append_singleton, List.length_append, List.length_singleton, Nat.shiftLeft_succ]
    have small := bit.toNat_le
    omega

theorem number_shiftRight : number (bits ++ more) >>> more.length = number bits := by
  have small := number_lt more
  rw [Nat.one_shiftLeft] at small
  rw [number_append, Nat.shiftRight_eq_div_pow, Nat.shiftLeft_eq, Nat.mul_comm,
    Nat.mul_add_div (Nat.two_pow_pos _), Nat.div_eq_of_lt small, Nat.add_zero]

theorem number_take (count : Nat) : number (bits.take count) = number bits >>> (bits.length - count) := by
  have parts := number_shiftRight (bits.take count) (bits.drop count)
  rw [List.take_append_drop, List.length_drop] at parts
  exact parts.symm

end Number

theorem or_shiftLeft {low places : Nat} (small : low < 1 <<< places) (high : Nat) :
    low ||| high <<< places = low + high <<< places := by
  rw [Nat.one_shiftLeft] at small
  rw [Nat.or_comm, ← Nat.shiftLeft_add_eq_or_of_lt small, Nat.add_comm]

end OsdpMaster.Lib.Bits
