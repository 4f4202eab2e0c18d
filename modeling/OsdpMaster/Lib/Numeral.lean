import Mathlib.Tactic.Common

/-!
Numbers in print: their digits in a base, upper case, read back by their value, and
what stands before and after them told apart by a character that is no digit.
-/

namespace OsdpMaster.Lib.Numeral

def numeral (base value : Nat) : List Char := (Nat.toDigits base value).map Char.toUpper

def worth (c : Char) : Nat := if c.toNat < 0x41 then c.toNat - 0x30 else c.toNat - 0x37

def isDigit (c : Char) : Bool := (0x30 ≤ c.toNat && c.toNat ≤ 0x39) || (0x41 ≤ c.toNat && c.toNat ≤ 0x46)

def number (base : Nat) (text : List Char) : Nat := text.foldl (fun value c => base * value + worth c) 0

def padded (width : Nat) (fill : Char) (text : List Char) : List Char :=
  List.replicate (width - text.length) fill ++ text

theorem digit_upper : ∀ d : Fin 16, worth (Nat.digitChar d).toUpper = d ∧ isDigit (Nat.digitChar d).toUpper = true := by
  decide

section Reading

variable {base : Nat} (large : 1 < base) (small : base ≤ 16)

theorem numeral_eq (value : Nat) (large : 1 < base) : numeral base value =
    (if value < base then [] else numeral base (value / base)) ++ [(Nat.digitChar (value % base)).toUpper] := by
  rw [numeral, Nat.toDigits_eq_if large]
  split
  next few => rw [Nat.mod_eq_of_lt few, List.map_singleton, List.nil_append]
  next => rw [List.map_append, List.map_singleton, numeral]

theorem number_append_singleton (text : List Char) (c : Char) :
    number base (text ++ [c]) = base * number base text + worth c := by
  rw [number, List.foldl_append, List.foldl_cons, List.foldl_nil, number]

include large small in
theorem number_numeral (value : Nat) : number base (numeral base value) = value := by
  induction value using Nat.strongRecOn with
  | ind value ih =>
    have bounded : value % base < 16 := Nat.lt_of_lt_of_le (Nat.mod_lt value (by omega)) small
    have last : worth (Nat.digitChar (value % base)).toUpper = value % base := (digit_upper ⟨_, bounded⟩).1
    rw [numeral_eq value large, number_append_singleton, last]
    split
    next few => rw [number, List.foldl_nil, Nat.mul_zero, Nat.zero_add, Nat.mod_eq_of_lt few]
    next many =>
      have shorter : value / base < value := Nat.div_lt_self (by omega) large
      rw [ih _ shorter]
      exact Nat.div_add_mod value base

include large small in
theorem numeral_digits (value : Nat) : ∀ c ∈ numeral base value, isDigit c = true := by
  induction value using Nat.strongRecOn with
  | ind value ih =>
    have bounded : value % base < 16 := Nat.lt_of_lt_of_le (Nat.mod_lt value (by omega)) small
    have last : isDigit (Nat.digitChar (value % base)).toUpper = true := (digit_upper ⟨_, bounded⟩).2
    rw [numeral_eq value large]
    intro c member
    rcases List.mem_append.mp member with before | here
    · split at before
      · exact absurd before List.not_mem_nil
      · exact ih _ (Nat.div_lt_self (by omega) large) c before
    · rw [List.mem_singleton.mp here]
      exact last

include large small in
theorem numeral_inj {value value' : Nat} (same : numeral base value = numeral base value') : value = value' := by
  rw [← number_numeral large small value, same, number_numeral large small]

theorem number_zeros (zeros : Nat) (text : List Char) :
    number base (List.replicate zeros '0' ++ text) = number base text := by
  induction zeros with
  | zero => rfl
  | succ zeros ih =>
    rw [List.replicate_succ, List.cons_append, number, List.foldl_cons]
    exact ih

include large small in
theorem padded_inj {width value value' : Nat}
    (same : padded width '0' (numeral base value) = padded width '0' (numeral base value')) : value = value' := by
  have numbers := congrArg (number base) same
  rw [padded, padded, number_zeros, number_zeros] at numbers
  rwa [number_numeral large small, number_numeral large small] at numbers

include large small in
theorem padded_digits (width value : Nat) : ∀ c ∈ padded width '0' (numeral base value), isDigit c = true := by
  intro c member
  rcases List.mem_append.mp member with filled | digit
  · rw [List.eq_of_mem_replicate filled]
    decide
  · exact numeral_digits large small value c digit

end Reading

theorem digits_end {text text' rest rest' : List Char} {c : Char} (digits : ∀ b ∈ text, isDigit b = true)
    (digits' : ∀ b ∈ text', isDigit b = true) (stop : isDigit c = false)
    (same : text ++ c :: rest = text' ++ c :: rest') : text = text' ∧ rest = rest' := by
  induction text generalizing text' with
  | nil =>
    cases text' with
    | nil => exact ⟨rfl, List.tail_eq_of_cons_eq same⟩
    | cons b text' =>
      obtain ⟨rfl, _⟩ := List.cons.inj same
      rw [digits' c List.mem_cons_self] at stop
      cases stop
  | cons b text ih =>
    cases text' with
    | nil =>
      obtain ⟨rfl, _⟩ := List.cons.inj same
      rw [digits b List.mem_cons_self] at stop
      cases stop
    | cons b' text' =>
      obtain ⟨rfl, tails⟩ := List.cons.inj same
      obtain ⟨rfl, rests⟩ := ih (List.forall_mem_cons.mp digits).2 (List.forall_mem_cons.mp digits').2 tails
      exact ⟨rfl, rests⟩

theorem field_end {label text text' rest rest' : List Char} {c : Char} (digits : ∀ b ∈ text, isDigit b = true)
    (digits' : ∀ b ∈ text', isDigit b = true) (stop : isDigit c = false)
    (same : label ++ (text ++ c :: rest) = label ++ (text' ++ c :: rest')) : text = text' ∧ rest = rest' :=
  digits_end digits digits' stop (List.append_cancel_left same)

end OsdpMaster.Lib.Numeral
