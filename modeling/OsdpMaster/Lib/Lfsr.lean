import Mathlib.Algebra.BigOperators.Fin
import Mathlib.Algebra.CharP.Two
import Mathlib.Algebra.Field.ZMod

/-!
The shift register that divides a bit string by a polynomial over two elements,
for any width and any polynomial. It is linear in the register and the bits, a
nonzero register never empties while zeros come in, and a polynomial with an odd
number of lower terms keeps track of the parity of everything fed.
-/

namespace OsdpMaster.Lib.Lfsr

variable {n : Nat}

/-- One message bit: the bit leaving at the top and the bit coming in decide whether the lower
terms of the polynomial are added. -/
def round (poly register : BitVec (n + 1)) (bit : Bool) : BitVec (n + 1) :=
  (register <<< 1) ^^^ (if register.msb ^^ bit then poly else 0)

def feed (poly register : BitVec (n + 1)) (bits : List Bool) : BitVec (n + 1) :=
  bits.foldl (round poly) register

@[simp] theorem feed_nil (poly register : BitVec (n + 1)) : feed poly register [] = register := rfl

@[simp] theorem feed_cons (poly register : BitVec (n + 1)) (bit : Bool) (bits : List Bool) :
    feed poly register (bit :: bits) = feed poly (round poly register bit) bits := rfl

theorem feed_append (poly register : BitVec (n + 1)) (first second : List Bool) :
    feed poly register (first ++ second) = feed poly (feed poly register first) second :=
  List.foldl_append

section Differences

def differing (xs ys : List Bool) : List Nat :=
  (List.range xs.length).filter (fun i => xs[i]? != ys[i]?)

theorem differing_self (xs : List Bool) : differing xs xs = [] := by
  simp [differing]

theorem mem_differing {xs ys : List Bool} (same : xs.length = ys.length) {i : Nat} :
    i ∈ differing xs ys ↔ xs[i]? ≠ ys[i]? := by
  simp only [differing, List.mem_filter, List.mem_range, bne_iff_ne, and_iff_right_iff_imp]
  intro differ
  by_contra outside
  rw [List.getElem?_eq_none (by omega), List.getElem?_eq_none (by omega)] at differ
  exact differ rfl

/-- Two messages that differ, and only within `width` consecutive bits. -/
structure Burst (width : Nat) (xs ys : List Bool) : Prop where
  differ : differing xs ys ≠ []
  within : ∃ start, ∀ i ∈ differing xs ys, start ≤ i ∧ i < start + width

theorem zipWith_xor_true {xs ys : List Bool} {i : Nat} (set : (List.zipWith xor xs ys)[i]? = some true) :
    xs[i]? ≠ ys[i]? := by
  intro same
  rw [List.getElem?_zipWith_eq_some] at set
  obtain ⟨x, y, left, right, odd⟩ := set
  rw [left, right] at same
  cases same
  simp at odd

theorem zipWith_xor_false {xs ys : List Bool} (same : xs.length = ys.length)
    (clear : ∀ bit ∈ List.zipWith xor xs ys, bit = false) : xs = ys := by
  apply List.ext_getElem same
  intro i inLeft inRight
  have member : (xs[i] ^^ ys[i]) ∈ List.zipWith xor xs ys :=
    List.mem_iff_getElem.mpr ⟨i, by simp; omega, by simp⟩
  have zero := clear _ member
  revert zero
  cases xs[i] <;> cases ys[i] <;> simp

end Differences

section Linear

theorem round_xor (poly a b : BitVec (n + 1)) (x y : Bool) :
    round poly (a ^^^ b) (x ^^ y) = round poly a x ^^^ round poly b y := by
  simp only [round, BitVec.shiftLeft_xor_distrib, BitVec.msb_xor]
  have regroup : ((a.msb ^^ b.msb) ^^ (x ^^ y)) = ((a.msb ^^ x) ^^ (b.msb ^^ y)) := by
    cases a.msb <;> cases b.msb <;> cases x <;> cases y <;> rfl
  rw [regroup]
  cases a.msb ^^ x <;> cases b.msb ^^ y
  · simp
  · simp only [Bool.false_xor, if_true, Bool.false_eq_true, if_false]
    ac_rfl
  · simp only [Bool.xor_false, if_true, Bool.false_eq_true, if_false]
    ac_rfl
  · simp only [Bool.xor_true, Bool.not_true, Bool.false_eq_true, if_false, if_true]
    calc (a <<< 1 ^^^ b <<< 1) ^^^ 0 = (a <<< 1 ^^^ b <<< 1) ^^^ (poly ^^^ poly) := by simp
      _ = _ := by ac_rfl

theorem feed_xor (poly a b : BitVec (n + 1)) (xs ys : List Bool) (same : xs.length = ys.length) :
    feed poly (a ^^^ b) (List.zipWith xor xs ys) = feed poly a xs ^^^ feed poly b ys := by
  induction xs generalizing a b ys with
  | nil =>
    have empty : ys = [] := List.length_eq_zero_iff.mp same.symm
    subst empty
    rfl
  | cons x xs ih =>
    cases ys with
    | nil => simp at same
    | cons y ys =>
      simp only [List.zipWith_cons_cons, feed_cons]
      rw [round_xor]
      exact ih _ _ ys (by simpa using same)

theorem feed_zeros (poly : BitVec (n + 1)) (count : Nat) :
    feed poly 0 (List.replicate count false) = 0 := by
  induction count with
  | zero => rfl
  | succ count ih =>
    have still : round poly 0 false = 0 := by simp [round]
    rw [List.replicate_succ, feed_cons, still, ih]

end Linear

section Invertible

variable (poly : BitVec (n + 1)) (constant : poly.getLsbD 0 = true)

include constant in
/-- With a constant term the register cannot be shifted to zero. -/
theorem round_ne_zero (register : BitVec (n + 1)) (nonzero : register ≠ 0) :
    round poly register false ≠ 0 := by
  intro emptied
  have bits : ∀ i, (round poly register false).getLsbD i = false := by simp [emptied]
  cases top : register.msb with
  | true =>
    have low := bits 0
    simp only [round, top, Bool.xor_false, if_true, BitVec.getLsbD_xor, constant] at low
    simp at low
  | false =>
    apply nonzero
    apply BitVec.eq_of_getLsbD_eq
    intro i small
    rcases Nat.lt_or_ge i n with below | last
    · have shifted : (register <<< 1).getLsbD (i + 1) = register.getLsbD i := by
        rw [BitVec.getLsbD_shiftLeft]
        simp [below]
      have next := bits (i + 1)
      simp only [round, top, Bool.xor_false, Bool.false_eq_true, if_false, BitVec.getLsbD_xor,
        shifted, BitVec.ofNat_eq_ofNat, BitVec.getLsbD_zero] at next ⊢
      exact next
    · have same : i = n := by omega
      subst same
      simpa [BitVec.msb_eq_getLsbD_last] using top

include constant in
theorem feed_zeros_ne_zero (register : BitVec (n + 1)) (nonzero : register ≠ 0) (count : Nat) :
    feed poly register (List.replicate count false) ≠ 0 := by
  induction count generalizing register with
  | zero => exact nonzero
  | succ count ih =>
    rw [List.replicate_succ, feed_cons]
    exact ih _ (round_ne_zero poly constant register nonzero)

def place : List Bool → BitVec (n + 1)
  | [] => 0
  | bit :: bits => (if bit then BitVec.intMin (n + 1) else 0) ^^^ (place bits >>> 1)

theorem place_low (bits : List Bool) (i : Nat) (below : i + bits.length < n + 1) :
    (place bits : BitVec (n + 1)).getLsbD i = false := by
  induction bits generalizing i with
  | nil => simp [place]
  | cons bit bits ih =>
    simp only [List.length_cons] at below
    have rest := ih (i + 1) (by omega)
    have notTop : i ≠ n := by omega
    cases bit <;>
      simp [place, BitVec.getLsbD_intMin, notTop, Nat.add_comm 1 i, rest]

theorem msb_intMin : (BitVec.intMin (n + 1)).msb = true := by
  rw [BitVec.msb_eq_getLsbD_last, BitVec.getLsbD_intMin]
  simp

theorem place_msb (bit : Bool) (bits : List Bool) :
    (place (bit :: bits) : BitVec (n + 1)).msb = bit := by
  cases bit <;> simp [place, BitVec.msb_ushiftRight, msb_intMin]

theorem shift_back (value : BitVec (n + 1)) (low : value.getLsbD 0 = false) :
    (value >>> 1) <<< 1 = value := by
  apply BitVec.eq_of_getLsbD_eq
  intro i small
  cases i with
  | zero => rw [low]; simp
  | succ i => simp [small, Nat.add_comm 1 i]

theorem place_eq_zero (bits : List Bool) (fits : bits.length ≤ n + 1)
    (empty : (place bits : BitVec (n + 1)) = 0) : ∀ bit ∈ bits, bit = false := by
  induction bits with
  | nil => simp
  | cons bit bits ih =>
    simp only [List.length_cons] at fits
    have first : bit = false := by
      have top := place_msb (n := n) bit bits
      rw [empty] at top
      simpa using top.symm
    subst first
    have shifted : (place bits : BitVec (n + 1)) >>> 1 = 0 := by simpa [place] using empty
    have rest : (place bits : BitVec (n + 1)) = 0 := by
      rw [← shift_back (place bits) (place_low bits 0 (by omega)), shifted]
      simp
    intro other member
    rcases List.mem_cons.mp member with rfl | later
    · rfl
    · exact ih (by omega) rest other later

theorem round_top (register : BitVec (n + 1)) (bit : Bool) :
    round poly register bit =
      round poly (register ^^^ (if bit then BitVec.intMin (n + 1) else 0)) false := by
  have gone : (BitVec.intMin (n + 1)) <<< 1 = 0 := by
    apply BitVec.eq_of_getLsbD_eq
    intro i small
    cases i with
    | zero => simp
    | succ i => simp [BitVec.getLsbD_intMin]; omega
  cases bit
  · simp
  · simp only [round, BitVec.shiftLeft_xor_distrib, BitVec.msb_xor, if_true, gone, msb_intMin,
      Bool.xor_true, Bool.xor_false]
    simp

theorem round_shifted (value : BitVec (n + 1)) (low : value.getLsbD 0 = false) :
    round poly (value >>> 1) false = value := by
  have top : (value >>> 1).msb = false := by simp [BitVec.msb_ushiftRight]
  simp only [round, top, Bool.xor_self, Bool.false_eq_true, if_false, shift_back value low]
  simp

/-- No more bits than the register is wide: feeding them is adding them at the top first and then
feeding zeros. -/
theorem feed_eq_place (register : BitVec (n + 1)) (bits : List Bool) (fits : bits.length ≤ n + 1) :
    feed poly register bits =
      feed poly (register ^^^ place bits) (List.replicate bits.length false) := by
  induction bits generalizing register with
  | nil => simp [place]
  | cons bit bits ih =>
    simp only [List.length_cons] at fits
    have low : (place bits : BitVec (n + 1)).getLsbD 0 = false := place_low bits 0 (by omega)
    rw [feed_cons, ih _ (by omega), List.length_cons, List.replicate_succ, feed_cons]
    congr 1
    have split : register ^^^ place (bit :: bits) =
        (register ^^^ (if bit then BitVec.intMin (n + 1) else 0)) ^^^ (place bits >>> 1) := by
      rw [place, BitVec.xor_assoc]
    rw [split, show false = (false ^^ false) by rfl, round_xor, ← round_top, round_shifted _ _ low]

include constant in
/-- A burst no wider than the register, zeros before it and after it, leaves a nonzero register. -/
theorem feed_burst_ne_zero (before after : Nat) (burst : List Bool) (fits : burst.length ≤ n + 1)
    (some_set : true ∈ burst) :
    feed poly 0 (List.replicate before false ++ burst ++ List.replicate after false) ≠ 0 := by
  rw [feed_append, feed_append, feed_zeros]
  apply feed_zeros_ne_zero poly constant
  rw [feed_eq_place poly 0 burst fits]
  apply feed_zeros_ne_zero poly constant
  intro empty
  have allFalse := place_eq_zero burst fits (by simpa using empty) true some_set
  cases allFalse

include constant in
theorem feed_ne_of_burst (register : BitVec (n + 1)) (xs ys : List Bool) (same : xs.length = ys.length)
    (burst : Burst (n + 1) xs ys) : feed poly register xs ≠ feed poly register ys := by
  intro equal
  obtain ⟨start, within⟩ := burst.within
  have emptied := feed_xor poly register register xs ys same
  rw [equal, BitVec.xor_self, BitVec.xor_self] at emptied
  generalize error_eq : List.zipWith xor xs ys = error at emptied
  have clear (i : Nat) (outside : ¬(start ≤ i ∧ i < start + (n + 1))) : error[i]? ≠ some true := by
    intro set
    rw [← error_eq] at set
    exact outside (within i ((mem_differing same).mpr (zipWith_xor_true set)))
  have before : error.take start = List.replicate (error.take start).length false := by
    refine List.eq_replicate_iff.mpr ⟨rfl, ?_⟩
    intro bit member
    obtain ⟨i, inside, bit_eq⟩ := List.mem_iff_getElem.mp member
    rw [List.getElem_take] at bit_eq
    rw [List.length_take] at inside
    have unset := clear i (by omega)
    rw [List.getElem?_eq_getElem (by omega), bit_eq] at unset
    simpa using unset
  have after : error.drop (start + (n + 1)) =
      List.replicate (error.drop (start + (n + 1))).length false := by
    refine List.eq_replicate_iff.mpr ⟨rfl, ?_⟩
    intro bit member
    obtain ⟨i, inside, bit_eq⟩ := List.mem_iff_getElem.mp member
    rw [List.getElem_drop] at bit_eq
    rw [List.length_drop] at inside
    have unset := clear (start + (n + 1) + i) (by omega)
    rw [List.getElem?_eq_getElem (by omega), bit_eq] at unset
    simpa using unset
  have pieces : error = error.take start ++ (error.drop start).take (n + 1) ++
      error.drop (start + (n + 1)) := by
    rw [List.append_assoc, ← List.drop_drop, List.take_append_drop, List.take_append_drop]
  by_cases some_set : true ∈ (error.drop start).take (n + 1)
  · refine feed_burst_ne_zero poly constant (error.take start).length
      (error.drop (start + (n + 1))).length _ (List.length_take_le _ _) some_set ?_
    rw [← before, ← after, ← pieces]
    exact emptied
  · refine burst.differ ?_
    have equal_messages : xs = ys := by
      refine zipWith_xor_false same ?_
      intro bit member
      rw [error_eq, pieces, before, after] at member
      cases bit with
      | false => rfl
      | true => simp [some_set] at member
    rw [equal_messages, differing_self]

end Invertible

section Parity

def bitWeight (bit : Bool) : ZMod 2 := if bit then 1 else 0

def weight (register : BitVec (n + 1)) : ZMod 2 :=
  ∑ i : Fin (n + 1), bitWeight (register.getLsbD i)

def weightOf (bits : List Bool) : ZMod 2 := (bits.map bitWeight).sum

theorem weightOf_append (first second : List Bool) :
    weightOf (first ++ second) = weightOf first + weightOf second := by
  simp [weightOf]

theorem bitWeight_xor (a b : Bool) : bitWeight (a ^^ b) = bitWeight a + bitWeight b := by
  revert a b
  decide

theorem weight_xor (a b : BitVec (n + 1)) : weight (a ^^^ b) = weight a + weight b := by
  simp only [weight, BitVec.getLsbD_xor, bitWeight_xor, Finset.sum_add_distrib]

theorem weight_shiftLeft (register : BitVec (n + 1)) :
    weight (register <<< 1) = weight register + bitWeight register.msb := by
  unfold weight
  rw [Fin.sum_univ_succ]
  conv_rhs => rw [Fin.sum_univ_castSucc]
  have head : bitWeight ((register <<< 1).getLsbD (0 : Fin (n + 1))) = 0 := by simp [bitWeight]
  have tail : ∀ i : Fin n, (register <<< 1).getLsbD i.succ = register.getLsbD i.castSucc := by
    intro i
    simp
  have last : register.getLsbD (Fin.last n) = register.msb := by
    simp [BitVec.msb_eq_getLsbD_last]
  simp only [head, tail, last, zero_add]
  rw [add_assoc, CharTwo.add_self_eq_zero, add_zero]

theorem weight_round (poly register : BitVec (n + 1)) (odd : weight poly = 1) (bit : Bool) :
    weight (round poly register bit) = weight register + bitWeight bit := by
  have added : weight (if register.msb ^^ bit then poly else 0) = bitWeight (register.msb ^^ bit) := by
    cases register.msb ^^ bit
    · simp [weight, bitWeight]
    · simp [odd, bitWeight]
  rw [round, weight_xor, weight_shiftLeft, added, bitWeight_xor]
  calc weight register + bitWeight register.msb + (bitWeight register.msb + bitWeight bit)
      = weight register + bitWeight bit + (bitWeight register.msb + bitWeight register.msb) := by
        ac_rfl
    _ = weight register + bitWeight bit := by rw [CharTwo.add_self_eq_zero, add_zero]

theorem weight_feed (poly register : BitVec (n + 1)) (odd : weight poly = 1) (bits : List Bool) :
    weight (feed poly register bits) = weight register + weightOf bits := by
  induction bits generalizing register with
  | nil => simp [weightOf]
  | cons bit bits ih =>
    rw [feed_cons, ih, weight_round poly register odd]
    simp only [weightOf, List.map_cons, List.sum_cons, add_assoc]

theorem length_differing_cons (x y : Bool) (xs ys : List Bool) :
    (differing (x :: xs) (y :: ys)).length = (if x != y then 1 else 0) + (differing xs ys).length := by
  simp only [differing, List.length_cons, List.range_succ_eq_map, List.filter_cons,
    List.filter_map, List.getElem?_cons_zero]
  have shifted : ((fun i => (x :: xs)[i]? != (y :: ys)[i]?) ∘ Nat.succ) =
      fun i => xs[i]? != ys[i]? := rfl
  rw [shifted]
  cases x <;> cases y <;> simp [Nat.add_comm]

theorem weightOf_differing (xs ys : List Bool) (same : xs.length = ys.length) :
    weightOf xs + weightOf ys = ((differing xs ys).length : ZMod 2) := by
  induction xs generalizing ys with
  | nil =>
    have empty : ys = [] := List.length_eq_zero_iff.mp same.symm
    subst empty
    rfl
  | cons x xs ih =>
    cases ys with
    | nil => cases same
    | cons y ys =>
      have rest := ih ys (Nat.succ.inj same)
      rw [length_differing_cons, Nat.cast_add, ← rest]
      have first : bitWeight x + bitWeight y = ((if x != y then 1 else 0 : Nat) : ZMod 2) := by
        cases x <;> cases y <;> decide
      rw [← first]
      simp only [weightOf, List.map_cons, List.sum_cons]
      exact add_add_add_comm _ _ _ _

/-- Messages that differ in an odd number of bits have different parities. -/
theorem weightOf_ne_of_odd (xs ys : List Bool) (same : xs.length = ys.length)
    (odd : Odd (differing xs ys).length) : weightOf xs ≠ weightOf ys := by
  intro equal
  have sum := weightOf_differing xs ys same
  rw [equal, CharTwo.add_self_eq_zero, eq_comm, ZMod.natCast_eq_zero_iff_even] at sum
  exact Nat.not_even_iff_odd.mpr odd sum

end Parity

end OsdpMaster.Lib.Lfsr
