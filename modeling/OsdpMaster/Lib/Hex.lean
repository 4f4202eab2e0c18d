import Mathlib.Algebra.Group.Nat.Even
import Mathlib.Tactic.Common

/-!
Bytes spelt as pairs of hex digits. A text is read as far as its pairs go, and
what that leaves depends on the run of digits it starts with.
-/

namespace OsdpMaster.Lib.Hex

def value (c : UInt8) : Option Nat :=
  if 0x30 ≤ c ∧ c ≤ 0x39 then some (c.toNat - 0x30)
  else if 0x41 ≤ c ∧ c ≤ 0x46 then some (c.toNat - 0x41 + 10)
  else if 0x61 ≤ c ∧ c ≤ 0x66 then some (c.toNat - 0x61 + 10)
  else none

def isDigit (c : UInt8) : Bool := (value c).isSome

def run (text : List UInt8) : List UInt8 := text.takeWhile isDigit

def unread (text : List UInt8) : List UInt8 := text.dropWhile isDigit

def pairs : List UInt8 → List UInt8
  | c :: d :: text =>
    match value c, value d with
    | some high, some low => UInt8.ofNat (16 * high + low) :: pairs text
    | _, _ => []
  | _ => []

/-- The text is the bytes, two digits for each. -/
inductive Spells : List UInt8 → List UInt8 → Prop
  | nothing : Spells [] []
  | byte {c d : UInt8} {high low : Nat} {text bytes : List UInt8} (first : value c = some high)
      (second : value d = some low) (others : Spells text bytes) :
      Spells (c :: d :: text) (UInt8.ofNat (16 * high + low) :: bytes)

theorem isDigit_of_value {c : UInt8} {high : Nat} (is : value c = some high) : isDigit c = true := by
  rw [isDigit, is, Option.isSome_some]

theorem isDigit_of_none {c : UInt8} (no : value c = none) : isDigit c = false := by
  rw [isDigit, no, Option.isSome_none]

theorem stops_cons {c : UInt8} (no : value c = none) (rest : List UInt8) :
    ∀ b ∈ (c :: rest).head?, isDigit b = false := by
  intro b first
  cases first
  exact isDigit_of_none no

theorem value_lt {c : UInt8} {high : Nat} (is : value c = some high) : high < 16 := by
  simp only [value, UInt8.le_iff_toNat_le] at is
  grind

theorem run_append_unread (text : List UInt8) : run text ++ unread text = text :=
  List.takeWhile_append_dropWhile

theorem Spells.length {text bytes : List UInt8} (spells : Spells text bytes) :
    text.length = 2 * bytes.length := by
  induction spells with
  | nothing => rfl
  | byte first second others ih =>
    simp only [List.length_cons]
    omega

theorem Spells.digits {text bytes : List UInt8} (spells : Spells text bytes) :
    ∀ c ∈ text, isDigit c = true := by
  induction spells with
  | nothing => simp
  | byte first second others ih =>
    intro c member
    rcases List.mem_cons.mp member with same | member
    · exact same ▸ isDigit_of_value first
    · rcases List.mem_cons.mp member with same | member
      · exact same ▸ isDigit_of_value second
      · exact ih c member

theorem pairs_stopped {rest : List UInt8} (stops : ∀ c ∈ rest.head?, isDigit c = false) : pairs rest = [] := by
  cases rest with
  | nil => rfl
  | cons c rest =>
    have no : value c = none := by simpa [isDigit] using stops c rfl
    cases rest with
    | nil => rfl
    | cons d rest => simp only [pairs, no]

theorem unread_stopped {rest : List UInt8} (stops : ∀ c ∈ rest.head?, isDigit c = false) : unread rest = rest := by
  cases rest with
  | nil => rfl
  | cons c rest =>
    apply List.dropWhile_cons_of_neg
    simp only [stops c rfl, Bool.false_eq_true, not_false_eq_true]

theorem Spells.pairs_append {text bytes rest : List UInt8} (spells : Spells text bytes)
    (stops : ∀ c ∈ rest.head?, isDigit c = false) : pairs (text ++ rest) = bytes := by
  induction spells with
  | nothing => exact pairs_stopped stops
  | byte first second others ih => simp only [List.cons_append, pairs, first, second, ih]

theorem Spells.unread_append {text bytes rest : List UInt8} (spells : Spells text bytes)
    (stops : ∀ c ∈ rest.head?, isDigit c = false) : unread (text ++ rest) = rest := by
  rw [unread, List.dropWhile_append_of_pos spells.digits]
  exact unread_stopped stops

theorem run_cons {c : UInt8} {high : Nat} (is : value c = some high) (text : List UInt8) :
    run (c :: text) = c :: run text := List.takeWhile_cons_of_pos (isDigit_of_value is)

theorem unread_cons {c : UInt8} {high : Nat} (is : value c = some high) (text : List UInt8) :
    unread (c :: text) = unread text := List.dropWhile_cons_of_pos (isDigit_of_value is)

theorem run_stopped {c : UInt8} (no : value c = none) (text : List UInt8) : run (c :: text) = [] := by
  apply List.takeWhile_cons_of_neg
  rw [isDigit_of_none no]
  exact Bool.false_ne_true

theorem spells_run {text : List UInt8} (even : Even (run text).length) : Spells (run text) (pairs text) := by
  induction text using pairs.induct with
  | case1 c d text high low second first ih =>
    rw [run_cons first, run_cons second] at even ⊢
    have shorter : Even (run text).length := by simpa [Nat.even_add_one] using even
    simp only [pairs, first, second]
    exact .byte first second (ih shorter)
  | case2 c d text missing =>
    cases first : value c with
    | none =>
      rw [run_stopped first]
      simp only [pairs, first]
      exact .nothing
    | some high =>
      cases second : value d with
      | none =>
        rw [run_cons first, run_stopped second] at even
        exact absurd even Nat.not_even_one
      | some low => exact (missing high low first second).elim
  | case3 text short =>
    cases text with
    | nil => exact .nothing
    | cons c text =>
      cases text with
      | nil =>
        cases first : value c with
        | none =>
          rw [run_stopped first]
          exact .nothing
        | some high =>
          rw [run_cons first] at even
          exact absurd even Nat.not_even_one
      | cons d text => exact (short c d text rfl).elim

/-- What a spelling of the pairs leaves is the run read to its end, exactly when the run is even. -/
theorem spells_run_iff (text : List UInt8) : Spells (run text) (pairs text) ↔ Even (run text).length := by
  constructor
  · intro spells
    exact ⟨(pairs text).length, by rw [spells.length]; omega⟩
  · exact spells_run

section Spelling

def digit (worth : Nat) : UInt8 := UInt8.ofNat (if worth < 10 then 0x30 + worth else 0x41 + (worth - 10))

def spell (bytes : List UInt8) : List UInt8 :=
  bytes.flatMap fun byte => [digit (byte.toNat / 16), digit (byte.toNat % 16)]

theorem value_digit {worth : Nat} (small : worth < 16) : value (digit worth) = some worth := by
  have all : ∀ worth < 16, value (digit worth) = some worth := by decide
  exact all worth small

theorem spells_spell (bytes : List UInt8) : Spells (spell bytes) bytes := by
  induction bytes with
  | nil => exact .nothing
  | cons byte bytes ih =>
    have below : byte.toNat < 256 := byte.toNat_lt
    have whole : UInt8.ofNat (16 * (byte.toNat / 16) + byte.toNat % 16) = byte := by
      rw [Nat.div_add_mod, UInt8.ofNat_toNat]
    have spelt := Spells.byte (value_digit (show byte.toNat / 16 < 16 by omega))
      (value_digit (show byte.toNat % 16 < 16 by omega)) ih
    rw [whole] at spelt
    exact spelt

end Spelling

end OsdpMaster.Lib.Hex
