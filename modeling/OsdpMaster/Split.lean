import OsdpMaster.OsdpDef
import Mathlib.Data.List.TakeWhile

/-! `split.h`, and the C library's text conversions that routing and topics use. -/

namespace OsdpMaster.Split

/-- The loop of `split` on what is left of the string; `rounds` of it are enough. -/
def splitLoop (sep : UInt8) (count : Nat) : Nat → Nat → Bytes → List Bytes
  | 0, _, _ => []
  | rounds + 1, splitcount, str =>
    if str = [] then []
    else if count = 0 ∨ splitcount < count then
      match str.findIdx? (· == sep) with
      | none => [str]
      | some endpos =>
        str.take endpos :: splitLoop sep count rounds (splitcount + 1) (str.drop (endpos + 1))
    else [str]

/-- `split(str, xsplit, sep, count)` into an empty `xsplit`. -/
def split (str : Bytes) (sep : UInt8) (count : Nat) : List Bytes :=
  splitLoop sep count (str.length + 1) 0 str

def isspace (byte : UInt8) : Bool := byte = 0x20 || (0x09 ≤ byte && byte ≤ 0x0D)

def isdigit (byte : UInt8) : Bool := 0x30 ≤ byte && byte ≤ 0x39

/-- Of a 64-bit `unsigned long`. -/
def ULONG_MAX : Nat := 18446744073709551615

def strtoul (text : Bytes) : Nat :=
  let body := text.dropWhile isspace
  let negative := body.head? = some 0x2D
  let digits := if negative ∨ body.head? = some 0x2B then body.tail else body
  let value := (digits.takeWhile isdigit).foldl (fun sum digit => 10 * sum + (digit.toNat - 0x30)) 0
  if value > ULONG_MAX then ULONG_MAX
  else if negative then (ULONG_MAX + 1 - value) % (ULONG_MAX + 1)
  else value

/-- What `<<` and `%d` print for a number that is not negative. -/
def decimal (value : Nat) : Bytes := ascii (toString value)

section Levels

variable (sep : UInt8)

/-- The parts of a string between its separators, empty ones too. -/
def levels : Bytes → List Bytes
  | [] => [[]]
  | byte :: rest =>
    if byte = sep then [] :: levels rest
    else
      match levels rest with
      | [] => [[byte]]
      | level :: more => (byte :: level) :: more

theorem levels_ne_nil (str : Bytes) : levels sep str ≠ [] := by
  cases str with
  | nil => exact List.cons_ne_nil _ _
  | cons byte rest =>
    rw [levels]
    split
    · exact List.cons_ne_nil _ _
    · split
      · exact List.cons_ne_nil _ _
      · exact List.cons_ne_nil _ _

variable {sep} {first : Bytes} (free : sep ∉ first)

include free in
theorem levels_free : levels sep first = [first] := by
  induction first with
  | nil => rfl
  | cons byte first ih =>
    simp only [List.mem_cons, not_or] at free
    rw [levels, if_neg (Ne.symm free.1), ih free.2]

include free in
theorem levels_append (rest : Bytes) : levels sep (first ++ sep :: rest) = first :: levels sep rest := by
  induction first with
  | nil => rw [List.nil_append, levels, if_pos rfl]
  | cons byte first ih =>
    simp only [List.mem_cons, not_or] at free
    rw [List.cons_append, levels, if_neg (Ne.symm free.1), ih free.2]

theorem head_levels (str : Bytes) : (levels sep str).head? = some (str.takeWhile (· != sep)) := by
  induction str with
  | nil => rfl
  | cons byte rest ih =>
    rw [levels, List.takeWhile_cons]
    by_cases here : byte = sep
    · simp [here]
    · have other : (byte != sep) = true := bne_iff_ne.mpr here
      rw [if_neg here, other, if_pos rfl]
      cases later : levels sep rest with
      | nil => exact absurd later (levels_ne_nil sep rest)
      | cons level more =>
        rw [later, List.head?_cons, Option.some.injEq] at ih
        rw [List.head?_cons, ih]

theorem splitLoop_rounds (sep : UInt8) {rounds rounds' : Nat} (splits splits' : Nat) {str : Bytes}
    (enough : str.length < rounds) (enough' : str.length < rounds') :
    splitLoop sep 0 rounds splits str = splitLoop sep 0 rounds' splits' str := by
  induction rounds generalizing rounds' splits splits' str with
  | zero => omega
  | succ rounds ih =>
    cases rounds' with
    | zero => omega
    | succ rounds' =>
      simp only [splitLoop, true_or, if_true]
      split
      · rfl
      next some_bytes =>
        have positive : 0 < str.length := List.length_pos_iff.mpr some_bytes
        split
        · rfl
        next endpos _ =>
          have shorter : (str.drop (endpos + 1)).length < str.length := by
            rw [List.length_drop]
            omega
          exact congrArg _ (ih _ _ (by omega) (by omega))

include free in
theorem findIdx_free : first.findIdx? (· == sep) = none := by
  rw [List.findIdx?_eq_none_iff]
  intro byte member
  exact beq_false_of_ne (fun same => free (same ▸ member))

include free in
theorem split_free (some_bytes : first ≠ []) : split first sep 0 = [first] := by
  simp only [split, splitLoop, if_neg some_bytes, true_or, if_true, findIdx_free free]

include free in
theorem split_append (rest : Bytes) : split (first ++ sep :: rest) sep 0 = first :: split rest sep 0 := by
  have some_bytes : first ++ sep :: rest ≠ [] := by simp
  have found : (first ++ sep :: rest).findIdx? (· == sep) = some first.length := by
    rw [List.findIdx?_append, findIdx_free free, List.findIdx?_cons, beq_self_eq_true, if_pos rfl]
    simp
  have tail : (first ++ sep :: rest).drop (first.length + 1) = rest := by
    rw [List.drop_append, List.drop_eq_nil_of_le (by omega)]
    simp
  simp only [split, splitLoop, if_neg some_bytes, true_or, if_true, found, tail, List.take_left]
  have enough : rest.length < (first ++ sep :: rest).length := by
    rw [List.length_append, List.length_cons]
    omega
  exact congrArg _ (splitLoop_rounds sep _ _ enough (Nat.lt_succ_self _))

theorem head_split {str : Bytes} (some_bytes : str ≠ []) :
    (split str sep 0).head? = some (str.takeWhile (· != sep)) := by
  rw [← head_levels]
  by_cases member : sep ∈ str
  · obtain ⟨first, rest, str_eq, free⟩ := List.eq_append_cons_of_mem member
    rw [str_eq, split_append free, levels_append free]
    rfl
  · rw [split_free member some_bytes, levels_free member]

end Levels

def isNumeral (text : Bytes) : Bool := text != [] && text.all isdigit

def numeral (text : Bytes) : Nat := text.foldl (fun sum digit => 10 * sum + (digit.toNat - 0x30)) 0

theorem isdigit_range {byte : UInt8} (digit : isdigit byte = true) : 0x30 ≤ byte.toNat ∧ byte.toNat ≤ 0x39 := by
  simp only [isdigit, Bool.and_eq_true, decide_eq_true_eq, UInt8.le_iff_toNat_le] at digit
  exact digit

theorem strtoul_numeral {text : Bytes} (digits : isNumeral text = true) :
    strtoul text = min (numeral text) ULONG_MAX := by
  simp only [isNumeral, Bool.and_eq_true, bne_iff_ne, List.all_eq_true] at digits
  obtain ⟨some_digits, all⟩ := digits
  cases text with
  | nil => exact absurd rfl some_digits
  | cons digit rest =>
    have range := isdigit_range (all digit List.mem_cons_self)
    have other {byte : UInt8} (outside : byte.toNat < 0x30) : digit ≠ byte := by
      intro same
      rw [same] at range
      omega
    have black : isspace digit = false := by
      have low : ¬digit ≤ 0x0D := by
        rw [UInt8.le_iff_toNat_le]
        change ¬digit.toNat ≤ 13
        omega
      have space : digit ≠ 0x20 := other (by decide)
      simp [isspace, low, space]
    have plus : digit ≠ 0x2B := other (by decide)
    have minus : digit ≠ 0x2D := other (by decide)
    have digits_only : (digit :: rest).takeWhile isdigit = digit :: rest :=
      List.takeWhile_eq_self_iff.mpr all
    have body : (digit :: rest).dropWhile isspace = digit :: rest := by simp [black]
    simp only [strtoul, body, List.head?_cons, Option.some.injEq, plus, minus, or_self, if_false,
      digits_only]
    change (if numeral (digit :: rest) > ULONG_MAX then _ else numeral (digit :: rest)) = _
    split <;> omega

end OsdpMaster.Split
