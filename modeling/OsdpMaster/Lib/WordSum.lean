import Mathlib.Algebra.BigOperators.Group.Finset.Basic
import Mathlib.Algebra.Ring.Int.Parity
import Mathlib.Data.Int.ModEq
import Mathlib.RingTheory.Int.Basic
import Mathlib.Tactic.Ring

/-!
Sums of words of some width, modulo two to the width, with an odd weight for each
word. No two rows of words that differ within as many consecutive bits as a word
has, the least significant bit of each word first, have the same sum.
-/

namespace OsdpMaster.Lib.WordSum

def total (weight : Nat → Int) (words : Nat → Nat) (count : Nat) : Int :=
  ∑ i ∈ Finset.range count, weight i * words i

def bitAt (width : Nat) (words : Nat → Nat) (place : Nat) : Bool := (words (place / width)).testBit (place % width)

/-- All places that differ are within this many from the start on. -/
def Within (width length start : Nat) (first second : Nat → Nat) : Prop :=
  ∀ place, bitAt width first place ≠ bitAt width second place → start ≤ place ∧ place < start + length

section Words

variable {width r x y : Nat}

theorem mod_eq_of_bits (same : ∀ j < r, x.testBit j = y.testBit j) : x % 2 ^ r = y % 2 ^ r := by
  apply Nat.eq_of_testBit_eq
  intro j
  rw [Nat.testBit_mod_two_pow, Nat.testBit_mod_two_pow]
  by_cases below : j < r
  · rw [same j below]
  · simp [below]

theorem div_eq_of_bits (same : ∀ j, r ≤ j → x.testBit j = y.testBit j) : x / 2 ^ r = y / 2 ^ r := by
  rw [← Nat.shiftRight_eq_div_pow, ← Nat.shiftRight_eq_div_pow]
  apply Nat.eq_of_testBit_eq
  intro j
  rw [Nat.testBit_shiftRight, Nat.testBit_shiftRight, same _ (Nat.le_add_right r j)]

theorem eq_of_bits (small : x < 2 ^ width) (small' : y < 2 ^ width)
    (same : ∀ j < width, x.testBit j = y.testBit j) : x = y := by
  have equal := mod_eq_of_bits same
  rwa [Nat.mod_eq_of_lt small, Nat.mod_eq_of_lt small'] at equal

theorem eq_of_dvd_sub (small : x < 2 ^ width) (small' : y < 2 ^ width) (divides : (2 : Int) ^ width ∣ x - y) :
    x = y := by
  have congruent : (x : Int) % 2 ^ width = (y : Int) % 2 ^ width := Int.emod_eq_emod_iff_emod_sub_eq_zero.mpr
    (Int.emod_eq_zero_of_dvd divides)
  have equal : x % 2 ^ width = y % 2 ^ width := by exact_mod_cast congruent
  rwa [Nat.mod_eq_of_lt small, Nat.mod_eq_of_lt small'] at equal

/-- An odd factor has no part in the powers of two. -/
theorem dvd_of_odd {weight value : Int} (odd : Odd weight) (divides : (2 : Int) ^ r ∣ weight * value) :
    (2 : Int) ^ r ∣ value := by
  have coprime : IsCoprime (2 ^ r : Int) weight := (Int.isCoprime_two_left.mpr odd).pow_left
  exact coprime.dvd_of_dvd_mul_left divides

end Words

section Rows

variable {width start count : Nat} {weight : Nat → Int} {first second : Nat → Nat}

theorem same_outside (small : ∀ i, first i < 2 ^ width) (small' : ∀ i, second i < 2 ^ width) (positive : 0 < width)
    (within : Within width width start first second) {i : Nat} (before : i ≠ start / width)
    (after : i ≠ start / width + 1) : first i = second i := by
  apply eq_of_bits (small i) (small' i)
  intro j inside
  by_contra differ
  have word : (j + width * i) / width = i := by
    rw [Nat.add_mul_div_left _ _ positive, Nat.div_eq_of_lt inside, Nat.zero_add]
  have bit : (j + width * i) % width = j := by rw [Nat.add_mul_mod_self_left, Nat.mod_eq_of_lt inside]
  obtain ⟨from_start, to_end⟩ := within (j + width * i) (by rwa [bitAt, bitAt, word, bit])
  have lower := Nat.div_le_div_right (c := width) from_start
  have upper := Nat.div_le_div_right (c := width) to_end.le
  rw [word] at lower upper
  rw [Nat.add_div_right _ positive] at upper
  omega

theorem same_below (positive : 0 < width) (within : Within width width start first second) :
    first (start / width) % 2 ^ (start % width) = second (start / width) % 2 ^ (start % width) := by
  apply mod_eq_of_bits
  intro j below
  by_contra differ
  have inside : j < width := below.trans (Nat.mod_lt start positive)
  have word : (j + width * (start / width)) / width = start / width := by
    rw [Nat.add_mul_div_left _ _ positive, Nat.div_eq_of_lt inside, Nat.zero_add]
  have bit : (j + width * (start / width)) % width = j := by
    rw [Nat.add_mul_mod_self_left, Nat.mod_eq_of_lt inside]
  have from_start := (within (j + width * (start / width)) (by rwa [bitAt, bitAt, word, bit])).1
  have parts := Nat.mod_add_div start width
  omega

theorem same_above (small : ∀ i, first i < 2 ^ width) (small' : ∀ i, second i < 2 ^ width) (positive : 0 < width)
    (within : Within width width start first second) :
    first (start / width + 1) / 2 ^ (start % width) = second (start / width + 1) / 2 ^ (start % width) := by
  apply div_eq_of_bits
  intro j above
  by_contra differ
  have inside : j < width := by
    by_contra beyond
    have power : 2 ^ width ≤ 2 ^ j := Nat.pow_le_pow_right Nat.two_pos (Nat.not_lt.mp beyond)
    rw [Nat.testBit_lt_two_pow ((small _).trans_le power), Nat.testBit_lt_two_pow ((small' _).trans_le power)] at differ
    exact differ rfl
  have word : (j + width * (start / width + 1)) / width = start / width + 1 := by
    rw [Nat.add_mul_div_left _ _ positive, Nat.div_eq_of_lt inside, Nat.zero_add]
  have bit : (j + width * (start / width + 1)) % width = j := by
    rw [Nat.add_mul_mod_self_left, Nat.mod_eq_of_lt inside]
  have to_end := (within (j + width * (start / width + 1)) (by rwa [bitAt, bitAt, word, bit])).2
  have parts := Nat.mod_add_div start width
  rw [Nat.mul_add, Nat.mul_one] at to_end
  omega

/-- The difference of the sums is that of the two words the window reaches into. -/
theorem total_sub (beyond : ∀ i, count ≤ i → first i = second i)
    (same : ∀ i, i ≠ start / width → i ≠ start / width + 1 → first i = second i) :
    total weight first count - total weight second count =
      weight (start / width) * (first (start / width) - second (start / width)) +
        weight (start / width + 1) * (first (start / width + 1) - second (start / width + 1)) := by
  rw [total, total, ← Finset.sum_sub_distrib]
  simp only [← mul_sub]
  apply Finset.sum_eq_add (start / width) (start / width + 1) (Nat.lt_succ_self _).ne
  · intro i _ other
    rw [same i other.1 other.2, sub_self, mul_zero]
  · intro outside
    rw [beyond _ (by simpa using outside), sub_self, mul_zero]
  · intro outside
    rw [beyond _ (by simpa using outside), sub_self, mul_zero]

/-- Rows with the same sum that differ within a window of the width of a word do not differ. -/
theorem eq_of_total (odd : ∀ i, Odd (weight i)) (small : ∀ i, first i < 2 ^ width)
    (small' : ∀ i, second i < 2 ^ width) (positive : 0 < width) (beyond : ∀ i, count ≤ i → first i = second i)
    (within : Within width width start first second)
    (sums : (2 : Int) ^ width ∣ total weight first count - total weight second count) : first = second := by
  have same : ∀ i, i ≠ start / width → i ≠ start / width + 1 → first i = second i :=
    fun i before after => same_outside small small' positive within before after
  rw [total_sub beyond same] at sums
  have power : (2 : Int) ^ (start % width) ∣ 2 ^ width := pow_dvd_pow 2 (Nat.mod_lt start positive).le
  have low : (2 : Int) ^ (start % width) ∣ first (start / width) - second (start / width) := by
    apply Int.dvd_of_emod_eq_zero
    apply Int.emod_eq_emod_iff_emod_sub_eq_zero.mp
    exact_mod_cast same_below positive within
  have next : (2 : Int) ^ (start % width) ∣ first (start / width + 1) - second (start / width + 1) :=
    dvd_of_odd (odd _) ((Int.dvd_add_right (low.mul_left _)).mp (power.trans sums))
  have second_word : first (start / width + 1) = second (start / width + 1) := by
    have rests : (first (start / width + 1) : Int) % 2 ^ (start % width) =
        (second (start / width + 1) : Int) % 2 ^ (start % width) :=
      Int.emod_eq_emod_iff_emod_sub_eq_zero.mpr (Int.emod_eq_zero_of_dvd next)
    have rests' : first (start / width + 1) % 2 ^ (start % width) =
        second (start / width + 1) % 2 ^ (start % width) := by exact_mod_cast rests
    rw [← Nat.mod_add_div (first (start / width + 1)) (2 ^ (start % width)), rests',
      same_above small small' positive within, Nat.mod_add_div]
  have first_word : first (start / width) = second (start / width) := by
    rw [second_word, sub_self, mul_zero, add_zero] at sums
    exact eq_of_dvd_sub (small _) (small' _) (dvd_of_odd (odd _) sums)
  funext i
  by_cases here : i = start / width
  · rw [here, first_word]
  · by_cases there : i = start / width + 1
    · rw [there, second_word]
    · exact same i here there

end Rows

end OsdpMaster.Lib.WordSum
