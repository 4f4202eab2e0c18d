import OsdpMaster.Split

/-!
`split` as its loop computes it, with its cursors and the conversions between
`size_t` and `int`, and `join`. On strings that an `int` can index it is the
`split` that goes by what is left of the string.
-/

namespace OsdpMaster.SplitJoin

section Cursors

def npos : Nat := 18446744073709551615

/-- A `size_t` put into an `int`. -/
def toInt (value : Nat) : Int := (value : Int).bmod 4294967296

/-- An `int` put into a `size_t`. -/
def toSize (value : Int) : Nat := (value % 18446744073709551616).toNat

def find (str : Bytes) (sep : UInt8) (pos : Nat) : Nat :=
  match (str.drop pos).findIdx? (· == sep) with
  | none => npos
  | some offset => pos + offset

def substr (str : Bytes) (pos n : Nat) : Bytes := (str.drop pos).take n

/-- The loop, with the position and the pieces it ends with. -/
def splitLoop (str : Bytes) (sep : UInt8) (count : Int) : Nat → Nat → Int → List Bytes → Nat × List Bytes
  | 0, pos, _, xsplit => (pos, xsplit)
  | rounds + 1, pos, splitcount, xsplit =>
    if (count = 0 ∨ splitcount < count) ∧ pos < str.length then
      let found := toInt (find str sep pos)
      let endpos := if found = -1 then toInt str.length else found
      let nextpos := if found = -1 then toInt str.length else found + 1
      splitLoop str sep count rounds (toSize nextpos) (splitcount + 1)
        (xsplit ++ [substr str pos (toSize (endpos - pos))])
    else (pos, xsplit)

/-- The rest of the string is the last piece, if there is one. -/
def rest (str : Bytes) (loop : Nat × List Bytes) : List Bytes :=
  if loop.1 < str.length then loop.2 ++ [str.drop loop.1] else loop.2

def split (str : Bytes) (sep : UInt8) (count : Int) : List Bytes :=
  rest str (splitLoop str sep count (str.length + 1) 0 0 [])

/-- `join`: the `combined` string, and what goes before the next part. -/
def join (xsplit : List Bytes) (sep : UInt8) : Bytes :=
  (xsplit.foldl (fun (state : Bytes × Bytes) (part : Bytes) => (state.1 ++ (state.2 ++ part), [sep])) ([], [])).1

end Cursors

section Refinement

variable {str : Bytes} {sep : UInt8} {pos : Nat}

/-- What an `int` can index. -/
def Short (str : Bytes) : Prop := str.length < 2147483648

instance (str : Bytes) : Decidable (Short str) := inferInstanceAs (Decidable (_ < _))

theorem toInt_small {value : Nat} (small : value < 2147483648) : toInt value = value :=
  Int.bmod_eq_of_le (by omega) (by omega)

theorem toSize_nat {value : Nat} (small : value < 2147483648) : toSize value = value := by
  have fits : (value : Int) % 18446744073709551616 = value := Int.emod_eq_of_lt (by omega) (by omega)
  rw [toSize, fits, Int.toNat_natCast]

theorem toInt_npos : toInt npos = -1 := by decide

theorem splitLoop_round {count splitcount : Int} {xsplit : List Bytes} (short : Short str)
    (more : count = 0 ∨ splitcount < count) (inside : pos < str.length) (rounds : Nat) :
    splitLoop str sep count (rounds + 1) pos splitcount xsplit =
      match (str.drop pos).findIdx? (· == sep) with
      | none => splitLoop str sep count rounds str.length (splitcount + 1) (xsplit ++ [str.drop pos])
      | some offset =>
        splitLoop str sep count rounds (pos + offset + 1) (splitcount + 1)
          (xsplit ++ [(str.drop pos).take offset]) := by
  unfold Short at short
  rw [splitLoop, if_pos ⟨more, inside⟩]
  dsimp only
  cases found : (str.drop pos).findIdx? (· == sep) with
  | none =>
    have whole : substr str pos (str.length - pos) = str.drop pos := by
      rw [substr, List.take_of_length_le (by rw [List.length_drop])]
    have cursor : ((str.length : Int) - pos) = ((str.length - pos : Nat) : Int) := by omega
    simp only [find, found, toInt_npos, if_true, toInt_small short, toSize_nat short, cursor,
      toSize_nat (show str.length - pos < 2147483648 by omega), whole]
  | some offset =>
    have early : offset < (str.drop pos).length := (List.findIdx?_eq_some_iff_findIdx_eq.mp found).1
    rw [List.length_drop] at early
    have at_pos : find str sep pos = pos + offset := by
      rw [find, found]
    have no_sentinel : ¬((pos + offset : Nat) : Int) = -1 := by omega
    have next : ((pos + offset : Nat) : Int) + 1 = ((pos + offset + 1 : Nat) : Int) := by omega
    have length : ((pos + offset : Nat) : Int) - pos = (offset : Int) := by omega
    simp only [at_pos, toInt_small (show pos + offset < 2147483648 by omega), if_neg no_sentinel, next, length,
      toSize_nat (show pos + offset + 1 < 2147483648 by omega), toSize_nat (show offset < 2147483648 by omega),
      substr]

theorem splitLoop_ended {count splitcount : Int} {xsplit : List Bytes} {rounds : Nat} (short : Short str)
    (enough : str.length - pos < rounds) :
    splitLoop str sep count (rounds + 1) pos splitcount xsplit =
      splitLoop str sep count rounds pos splitcount xsplit := by
  induction rounds generalizing pos splitcount xsplit with
  | zero => omega
  | succ rounds ih =>
    by_cases goes_on : (count = 0 ∨ splitcount < count) ∧ pos < str.length
    · obtain ⟨more, inside⟩ := goes_on
      rw [splitLoop_round short more inside, splitLoop_round short more inside]
      cases (str.drop pos).findIdx? (· == sep) with
      | none => exact ih (by omega)
      | some offset => exact ih (by omega)
    · rw [splitLoop, if_neg goes_on, splitLoop, if_neg goes_on]

theorem splitLoop_drop (count : Nat) (splits : Nat) {xsplit : List Bytes} {rounds : Nat} (short : Short str)
    (enough : str.length - pos < rounds) :
    rest str (splitLoop str sep count rounds pos splits xsplit) =
      xsplit ++ Split.splitLoop sep count rounds splits (str.drop pos) := by
  induction rounds generalizing pos splits xsplit with
  | zero => omega
  | succ rounds ih =>
    by_cases inside : pos < str.length
    · have some_left : str.drop pos ≠ [] := by
        rw [ne_eq, List.drop_eq_nil_iff]
        omega
      by_cases more : count = 0 ∨ splits < count
      · have more' : (count : Int) = 0 ∨ (splits : Int) < count := by omega
        have splits' : (splits : Int) + 1 = ((splits + 1 : Nat) : Int) := rfl
        rw [splitLoop_round short more' inside, Split.splitLoop, if_neg some_left, if_pos more, splits']
        cases found : (str.drop pos).findIdx? (· == sep) with
        | none =>
          dsimp only
          have early : str.length - str.length < rounds := by omega
          rw [ih (splits + 1) early, List.drop_length]
          cases rounds with
          | zero => rw [Split.splitLoop, List.append_nil]
          | succ rounds => rw [Split.splitLoop, if_pos rfl, List.append_nil]
        | some offset =>
          dsimp only
          have early : str.length - (pos + offset + 1) < rounds := by omega
          rw [ih (splits + 1) early, List.append_assoc, List.singleton_append, List.drop_drop]
          rfl
      · have limit : ¬(((count : Int) = 0 ∨ (splits : Int) < count) ∧ pos < str.length) := by omega
        rw [splitLoop, if_neg limit, rest, if_pos inside, Split.splitLoop, if_neg some_left, if_neg more]
    · have none_left : str.drop pos = [] := List.drop_eq_nil_of_le (Nat.not_lt.mp inside)
      have ended : ¬(((count : Int) = 0 ∨ (splits : Int) < count) ∧ pos < str.length) := fun both => inside both.2
      rw [splitLoop, if_neg ended, rest, if_neg inside, none_left, Split.splitLoop, if_pos rfl, List.append_nil]

theorem split_eq (short : Short str) (sep : UInt8) (count : Nat) : split str sep count = Split.split str sep count :=
  splitLoop_drop count 0 short (Nat.lt_succ_self _)

end Refinement

section Pieces

variable {sep : UInt8}

theorem foldl_join (pieces : List Bytes) (combined : Bytes) :
    (pieces.foldl (fun (state : Bytes × Bytes) (part : Bytes) => (state.1 ++ (state.2 ++ part), [sep]))
      (combined, [sep])).1 = combined ++ pieces.flatMap (sep :: ·) := by
  induction pieces generalizing combined with
  | nil => simp
  | cons piece pieces ih => simp [ih]

theorem join_cons (piece : Bytes) (pieces : List Bytes) :
    join (piece :: pieces) sep = piece ++ pieces.flatMap (sep :: ·) := by
  rw [join, List.foldl_cons, List.nil_append, List.nil_append, foldl_join]

theorem join_singleton (piece : Bytes) : join [piece] sep = piece := by
  rw [join_cons, List.flatMap_nil, List.append_nil]

theorem join_cons_cons (piece next : Bytes) (pieces : List Bytes) :
    join (piece :: next :: pieces) sep = piece ++ sep :: join (next :: pieces) sep := by
  rw [join_cons, join_cons, List.flatMap_cons, List.cons_append]

/-- A string less one separator at its end, if it had one. -/
def trimmed (str : Bytes) (sep : UInt8) : Bytes := if str.getLast? = some sep then str.dropLast else str

theorem trimmed_of_not {str : Bytes} (other : str.getLast? ≠ some sep) : trimmed str sep = str := if_neg other

theorem trimmed_append (first : Bytes) {str : Bytes} (some_bytes : str ≠ []) :
    trimmed (first ++ sep :: str) sep = first ++ sep :: trimmed str sep := by
  have same_last : (first ++ sep :: str).getLast? = str.getLast? := by
    rw [List.getLast?_append, List.getLast?_cons_of_ne_nil some_bytes, List.getLast?_eq_some_getLast some_bytes]
    rfl
  rw [trimmed, trimmed, same_last]
  split
  · rw [List.dropLast_append_of_ne_nil (List.cons_ne_nil _ _), List.dropLast_cons_of_ne_nil some_bytes]
  · rfl

/-- What a loop of `split` may leave of the string when its pieces are joined. -/
def Joins (str : Bytes) (sep : UInt8) (count : Nat) (pieces : List Bytes) : Prop :=
  join pieces sep = trimmed str sep ∨ count ≠ 0 ∧ join pieces sep = str

theorem found_sep {str : Bytes} {offset : Nat} (found : str.findIdx? (· == sep) = some offset) :
    str = str.take offset ++ sep :: str.drop (offset + 1) ∧ sep ∉ str.take offset := by
  obtain ⟨inside, here, before⟩ := List.findIdx?_eq_some_iff_getElem.mp found
  constructor
  · have at_sep : str[offset] = sep := eq_of_beq here
    rw [← at_sep, List.getElem_cons_drop, List.take_append_drop]
  · intro member
    obtain ⟨i, early, same⟩ := List.mem_take_iff_getElem.mp member
    have none_before := before i (by omega)
    rw [same, beq_self_eq_true] at none_before
    exact none_before rfl

variable {count rounds : Nat} {str : Bytes}

/-- What a round does: nothing is left, the limit is reached, there is no separator, or the first one ends a
piece. -/
theorem round_cases (sep : UInt8) (count rounds splits : Nat) (str : Bytes) :
    (str = [] ∧ Split.splitLoop sep count (rounds + 1) splits str = []) ∨
    (str ≠ [] ∧ ¬(count = 0 ∨ splits < count) ∧ Split.splitLoop sep count (rounds + 1) splits str = [str]) ∨
    (str ≠ [] ∧ (count = 0 ∨ splits < count) ∧ sep ∉ str ∧
      Split.splitLoop sep count (rounds + 1) splits str = [str]) ∨
    ∃ first left, str = first ++ sep :: left ∧ (count = 0 ∨ splits < count) ∧ sep ∉ first ∧
      Split.splitLoop sep count (rounds + 1) splits str =
        first :: Split.splitLoop sep count rounds (splits + 1) left := by
  rw [Split.splitLoop]
  by_cases empty : str = []
  · exact Or.inl ⟨empty, if_pos empty⟩
  rw [if_neg empty]
  by_cases more : count = 0 ∨ splits < count
  · rw [if_pos more]
    cases found : str.findIdx? (· == sep) with
    | none =>
      have free : sep ∉ str := by
        intro member
        have other := List.findIdx?_eq_none_iff.mp found sep member
        exact absurd other (by simp)
      exact Or.inr (Or.inr (Or.inl ⟨empty, more, free, rfl⟩))
    | some offset =>
      obtain ⟨parts, free⟩ := found_sep found
      exact Or.inr (Or.inr (Or.inr ⟨_, _, parts, more, free, rfl⟩))
  · exact Or.inr (Or.inl ⟨empty, more, if_neg more⟩)

theorem shorter_left {first left : Bytes} (parts : str = first ++ sep :: left) (enough : str.length < rounds + 1) :
    left.length < rounds := by
  rw [parts, List.length_append, List.length_cons] at enough
  omega

theorem splitLoop_some (splits : Nat) (some_bytes : str ≠ []) (enough : str.length < rounds) :
    ∃ next pieces, Split.splitLoop sep count rounds splits str = next :: pieces := by
  cases rounds with
  | zero => omega
  | succ rounds =>
    obtain ⟨empty, _⟩ | ⟨_, _, last⟩ | ⟨_, _, _, last⟩ | ⟨first, left, _, _, _, goes_on⟩ :=
      round_cases sep count rounds splits str
    · exact absurd empty some_bytes
    · exact ⟨str, [], last⟩
    · exact ⟨str, [], last⟩
    · exact ⟨first, _, goes_on⟩

theorem splitLoop_joins (splits : Nat) (enough : str.length < rounds) :
    Joins str sep count (Split.splitLoop sep count rounds splits str) := by
  induction rounds generalizing splits str with
  | zero => omega
  | succ rounds ih =>
    obtain ⟨empty, none_left⟩ | ⟨_, limit, last⟩ | ⟨_, _, free, last⟩ | ⟨first, left, parts, _, free, goes_on⟩ :=
      round_cases sep count rounds splits str
    · rw [none_left, empty]
      exact Or.inl rfl
    · rw [last]
      exact Or.inr ⟨fun none => limit (Or.inl none), join_singleton str⟩
    · have other : str.getLast? ≠ some sep := fun ends => free (List.mem_of_getLast? ends)
      rw [last]
      exact Or.inl ((join_singleton str).trans (trimmed_of_not other).symm)
    · have shorter := shorter_left parts enough
      rw [goes_on, parts]
      by_cases ends : left = []
      · -- The separator at the end of the string ends its last piece.
        have none_left : Split.splitLoop sep count rounds (splits + 1) left = [] := by
          cases rounds with
          | zero => rfl
          | succ rounds => rw [Split.splitLoop, if_pos ends]
        rw [none_left, ends]
        exact Or.inl (by simp [join_singleton, trimmed])
      · obtain ⟨next, pieces, split_left⟩ := splitLoop_some (splits + 1) ends shorter
        have joins : Joins left sep count (next :: pieces) := split_left ▸ ih (splits + 1) shorter
        rw [split_left, Joins, join_cons_cons, trimmed_append first ends]
        exact joins.imp (fun joined => by rw [joined]) fun limited => ⟨limited.1, by rw [limited.2]⟩

theorem splitLoop_free (splits : Nat) (unlimited : count = 0) (enough : str.length < rounds) :
    ∀ piece ∈ Split.splitLoop sep count rounds splits str, sep ∉ piece := by
  induction rounds generalizing splits str with
  | zero => omega
  | succ rounds ih =>
    obtain ⟨_, none_left⟩ | ⟨_, limit, _⟩ | ⟨_, _, free, last⟩ | ⟨first, left, parts, _, free, goes_on⟩ :=
      round_cases sep count rounds splits str
    · rw [none_left]
      exact fun piece member => absurd member List.not_mem_nil
    · exact absurd (Or.inl unlimited) limit
    · rw [last]
      exact List.forall_mem_singleton.mpr free
    · rw [goes_on]
      exact List.forall_mem_cons.mpr ⟨free, ih (splits + 1) (shorter_left parts enough)⟩

/-- Up to the limit the pieces have no separator, and at most one more follows. -/
theorem splitLoop_limited (splits : Nat) (limited : splits ≤ count) (positive : 0 < count) (enough : str.length < rounds) :
    (Split.splitLoop sep count rounds splits str).length ≤ count - splits + 1 ∧
      ∀ piece ∈ (Split.splitLoop sep count rounds splits str).take (count - splits), sep ∉ piece := by
  induction rounds generalizing splits str with
  | zero => omega
  | succ rounds ih =>
    obtain ⟨_, none_left⟩ | ⟨_, limit, last⟩ | ⟨_, more, free, last⟩ | ⟨first, left, parts, more, free, goes_on⟩ :=
      round_cases sep count rounds splits str
    · rw [none_left, List.take_nil]
      exact ⟨Nat.zero_le _, fun piece member => absurd member List.not_mem_nil⟩
    · have reached : count - splits = 0 := by omega
      rw [last, reached]
      exact ⟨Nat.le_refl _, fun piece member => absurd member List.not_mem_nil⟩
    · rw [last]
      constructor
      · rw [List.length_singleton]
        omega
      · intro piece member
        rw [List.mem_singleton.mp (List.mem_of_mem_take member)]
        exact free
    · obtain ⟨few, rest_free⟩ := ih (splits + 1) (by omega) (shorter_left parts enough)
      have one_less : count - splits = count - (splits + 1) + 1 := by omega
      rw [goes_on, one_less, List.take_succ_cons]
      constructor
      · rw [List.length_cons]
        omega
      · exact List.forall_mem_cons.mpr ⟨free, rest_free⟩

theorem split_join_pieces {pieces : List Bytes} (some_piece : pieces ≠ []) (free : ∀ piece ∈ pieces, sep ∉ piece)
    (closed : pieces.getLast? ≠ some []) : Split.split (join pieces sep) sep 0 = pieces := by
  induction pieces with
  | nil => exact absurd rfl some_piece
  | cons piece pieces ih =>
    obtain ⟨piece_free, rest_free⟩ := List.forall_mem_cons.mp free
    cases pieces with
    | nil =>
      have some_bytes : piece ≠ [] := fun empty => closed (by rw [empty, List.getLast?_singleton])
      rw [join_singleton, Split.split_free piece_free some_bytes]
    | cons next pieces =>
      have rest_closed : (next :: pieces).getLast? ≠ some [] := by
        rwa [List.getLast?_cons_of_ne_nil (List.cons_ne_nil next pieces)] at closed
      rw [join_cons_cons, Split.split_append piece_free, ih (List.cons_ne_nil _ _) rest_free rest_closed]

structure Whole (str : Bytes) (sep : UInt8) (pieces : List Bytes) : Prop where
  free : ∀ piece ∈ pieces, sep ∉ piece
  joined : join pieces sep = trimmed str sep

structure Limited (str : Bytes) (sep : UInt8) (count : Int) (pieces : List Bytes) : Prop where
  few : (pieces.length : Int) ≤ count + 1
  free : ∀ piece ∈ pieces.take count.toNat, sep ∉ piece
  joined : str.getLast? ≠ some sep → join pieces sep = str

theorem split_whole (short : Short str) : Whole str sep (split str sep 0) := by
  have by_rest : split str sep 0 = Split.split str sep 0 := split_eq short sep 0
  rw [by_rest]
  have enough := Nat.lt_succ_self str.length
  constructor
  · exact splitLoop_free 0 rfl enough
  · have joins : Joins str sep 0 (Split.split str sep 0) := splitLoop_joins 0 enough
    rcases joins with joined | ⟨limited, _⟩
    · exact joined
    · exact absurd rfl limited

theorem split_limited (short : Short str) {limit : Int} (positive : 0 < limit) :
    Limited str sep limit (split str sep limit) := by
  obtain ⟨count, rfl⟩ := Int.eq_ofNat_of_zero_le (Int.le_of_lt positive)
  have some_count : 0 < count := by omega
  have enough := Nat.lt_succ_self str.length
  have pieces : (Split.split str sep count).length ≤ count - 0 + 1 ∧
      ∀ piece ∈ (Split.split str sep count).take (count - 0), sep ∉ piece :=
    splitLoop_limited 0 (Nat.zero_le count) some_count enough
  rw [split_eq short]
  refine ⟨?_, pieces.2, ?_⟩
  · have few := pieces.1
    omega
  · intro other
    have joins : Joins str sep count (Split.split str sep count) := splitLoop_joins 0 enough
    rcases joins with joined | ⟨_, joined⟩
    · exact joined.trans (trimmed_of_not other)
    · exact joined

/-- `split` and `join` undo each other, less a separator at the end. -/
theorem split_join (sep : UInt8) :
    (∀ str, Short str → Whole str sep (split str sep 0) ∧
      ∀ count, 0 < count → Limited str sep count (split str sep count)) ∧
    ∀ pieces, pieces ≠ [] → (∀ piece ∈ pieces, sep ∉ piece) → pieces.getLast? ≠ some [] →
      Short (join pieces sep) → split (join pieces sep) sep 0 = pieces := by
  constructor
  · exact fun str short => ⟨split_whole short, fun count positive => split_limited short positive⟩
  · intro pieces some_piece free closed short
    exact (split_eq short sep 0).trans (split_join_pieces some_piece free closed)

theorem split_join_slash :
    Whole [0x61, 0x2F, 0x62] 0x2F (split [0x61, 0x2F, 0x62] 0x2F 0) ∧
    Limited [0x6B, 0x3D, 0x76, 0x3D, 0x77] 0x3D 2 (split [0x6B, 0x3D, 0x76, 0x3D, 0x77] 0x3D 2) ∧
    split (join [[0x61], [0x62]] 0x2F) 0x2F 0 = [[0x61], [0x62]] :=
  ⟨((split_join 0x2F).1 _ (by decide)).1, ((split_join 0x3D).1 _ (by decide)).2 2 (by decide),
    (split_join 0x2F).2 _ (by decide) (by decide) (by decide) (by decide)⟩

end Pieces

end OsdpMaster.SplitJoin
