import OsdpMaster.Timespec

/-!
The operators of `timespec.h`. A sum of exactly one second is not carried, and a
value that is not normalised is not compared by its time.
-/

namespace OsdpMaster.Timespec

section Operators

def le (tv1 tv2 : Timespec) : Bool :=
  if tv1.sec < tv2.sec then true
  else if tv1.sec > tv2.sec then false
  else decide (tv1.nsec ≤ tv2.nsec)

def ge (tv1 tv2 : Timespec) : Bool :=
  if tv1.sec < tv2.sec then false
  else if tv1.sec > tv2.sec then true
  else decide (tv1.nsec ≥ tv2.nsec)

def lt (tv1 tv2 : Timespec) : Bool := !ge tv1 tv2

def gt (tv1 tv2 : Timespec) : Bool := !le tv1 tv2

def eq (tv1 tv2 : Timespec) : Bool := tv1.sec = tv2.sec && tv1.nsec = tv2.nsec

/-- `operator-=`, and `operator-` on a copy. -/
def minus (later earlier : Timespec) : Timespec :=
  let sec := later.sec - earlier.sec
  let nsec := later.nsec - earlier.nsec
  if nsec < 0 then ⟨sec - 1, nsec + 1000000000⟩ else ⟨sec, nsec⟩

def toMs (ts : Timespec) : Int := ts.sec * 1000 + ts.nsec.tdiv 1000000

def plus (ts : Timespec) (interval : Int) : Timespec :=
  let sec := ts.sec + interval.tdiv 1000
  let nsec := ts.nsec + interval.tmod 1000 * 1000000
  if nsec > 1000000000 then ⟨sec + 1, nsec - 1000000000⟩ else ⟨sec, nsec⟩

end Operators

section Comparison

structure Agree (x y : Timespec) : Prop where
  le : le x y = true ↔ x.nanoseconds ≤ y.nanoseconds
  ge : ge x y = true ↔ x.nanoseconds ≥ y.nanoseconds
  lt : lt x y = true ↔ x.nanoseconds < y.nanoseconds
  gt : gt x y = true ↔ x.nanoseconds > y.nanoseconds
  eq : eq x y = true ↔ x.nanoseconds = y.nanoseconds

theorem le_iff {x y : Timespec} (xNormal : x.Normal) (yNormal : y.Normal) :
    le x y = true ↔ x.nanoseconds ≤ y.nanoseconds := by
  obtain ⟨xLow, xHigh⟩ := xNormal
  obtain ⟨yLow, yHigh⟩ := yNormal
  unfold le nanoseconds
  split
  · simp only [true_iff]
    omega
  · split
    · simp only [Bool.false_eq_true, false_iff]
      omega
    · rw [decide_eq_true_eq]
      omega

theorem ge_eq (x y : Timespec) : ge x y = le y x := by
  unfold ge le
  by_cases less : x.sec < y.sec
  · have not_more : ¬y.sec < x.sec := by omega
    simp only [if_pos less, if_neg not_more, gt_iff_lt]
  · simp only [if_neg less, gt_iff_lt, ge_iff_le]

theorem agree_of_normal {x y : Timespec} (xNormal : x.Normal) (yNormal : y.Normal) : Agree x y := by
  have less := le_iff xNormal yNormal
  have more : ge x y = true ↔ x.nanoseconds ≥ y.nanoseconds := by
    rw [ge_eq]
    exact le_iff yNormal xNormal
  refine ⟨less, more, ?_, ?_, ?_⟩
  · rw [lt, Bool.not_eq_true', ← Bool.not_eq_true, more, ge_iff_le, Int.not_le]
  · rw [gt, Bool.not_eq_true', ← Bool.not_eq_true, less, Int.not_le]
  · obtain ⟨xLow, xHigh⟩ := xNormal
    obtain ⟨yLow, yHigh⟩ := yNormal
    simp only [eq, nanoseconds, Bool.and_eq_true, decide_eq_true_eq]
    omega

end Comparison

section Arithmetic

variable {a b : Timespec} {ms : Int}

theorem minus_nanoseconds (later earlier : Timespec) :
    (minus later earlier).nanoseconds = later.nanoseconds - earlier.nanoseconds := by
  simp only [minus, nanoseconds]
  split
  · dsimp only
    omega
  · dsimp only
    omega

theorem minus_normal (aNormal : a.Normal) (bNormal : b.Normal) : (minus a b).Normal := by
  obtain ⟨aLow, aHigh⟩ := aNormal
  obtain ⟨bLow, bHigh⟩ := bNormal
  simp only [minus, Normal]
  split
  · dsimp only
    omega
  · dsimp only
    omega

theorem plus_eq (a : Timespec) (nonneg : 0 ≤ ms) : plus a ms =
    if a.nsec + ms % 1000 * 1000000 > 1000000000 then
      ⟨a.sec + ms / 1000 + 1, a.nsec + ms % 1000 * 1000000 - 1000000000⟩
    else ⟨a.sec + ms / 1000, a.nsec + ms % 1000 * 1000000⟩ := by
  rw [plus, Int.tdiv_eq_ediv_of_nonneg nonneg, Int.tmod_eq_emod_of_nonneg nonneg]

theorem plus_nanoseconds (a : Timespec) (nonneg : 0 ≤ ms) :
    (plus a ms).nanoseconds = a.nanoseconds + ms * 1000000 := by
  rw [plus_eq a nonneg]
  simp only [nanoseconds]
  split
  · dsimp only
    omega
  · dsimp only
    omega

/-- The sum of the nanoseconds is not one full second. -/
def OffSecond (a : Timespec) (ms : Int) : Prop := a.nsec + ms % 1000 * 1000000 ≠ 1000000000

instance (a : Timespec) (ms : Int) : Decidable (OffSecond a ms) := inferInstanceAs (Decidable (_ ≠ _))

theorem plus_normal_iff (normal : a.Normal) (nonneg : 0 ≤ ms) : (plus a ms).Normal ↔ OffSecond a ms := by
  obtain ⟨low, high⟩ := normal
  rw [plus_eq a nonneg]
  simp only [Normal, OffSecond]
  split
  · dsimp only
    omega
  · dsimp only
    omega

/-- The difference to the sum has the fields of the interval, carried or not. -/
theorem minus_plus (normal : a.Normal) (nonneg : 0 ≤ ms) :
    minus (plus a ms) a = ⟨ms / 1000, ms % 1000 * 1000000⟩ := by
  obtain ⟨low, high⟩ := normal
  rw [plus_eq a nonneg]
  simp only [minus]
  split
  · dsimp only
    rw [if_pos (by omega)]
    congr 1 <;> omega
  · dsimp only
    rw [if_neg (by omega)]
    congr 1 <;> omega

theorem toMs_minus_plus (normal : a.Normal) (nonneg : 0 ≤ ms) : toMs (minus (plus a ms) a) = ms := by
  rw [minus_plus normal nonneg, toMs, Int.mul_tdiv_cancel _ (by decide)]
  dsimp only
  omega

def Long (value : Int) : Prop := -9223372036854775808 ≤ value ∧ value ≤ 9223372036854775807

/-- A clock's reading and an interval that is a `long` leave no field, and no step to one, out of range. -/
theorem plus_fits (normal : a.Normal) (nonneg : 0 ≤ ms) (long : Long ms)
    (reading : 0 ≤ a.sec ∧ a.sec ≤ 4611686018427387904) :
    Long (a.sec + ms.tdiv 1000 + 1) ∧ Long (a.nsec + ms.tmod 1000 * 1000000) ∧
      Long ((minus (plus a ms) a).sec * 1000) := by
  obtain ⟨low, high⟩ := normal
  obtain ⟨_, longHigh⟩ := long
  rw [minus_plus ⟨low, high⟩ nonneg, Int.tdiv_eq_ediv_of_nonneg nonneg, Int.tmod_eq_emod_of_nonneg nonneg]
  unfold Long
  dsimp only
  omega

/-- What is asked of the sum, of the difference and of their comparisons. -/
structure Laws (a b : Timespec) (ms : Int) : Prop where
  sum_normal : (plus a ms).Normal
  sum_exact : (plus a ms).nanoseconds = a.nanoseconds + ms * 1000000
  elapsed : toMs (minus (plus a ms) a) = ms
  difference_normal : (minus a b).Normal
  difference_exact : (minus a b).nanoseconds = a.nanoseconds - b.nanoseconds
  compared : ∀ y : Timespec, y.Normal → Agree (plus a ms) y ∧ Agree (minus a b) y

/-- The values that come of normalised ones by any number of operations. -/
inductive Produced (may : Timespec → Int → Prop) : Timespec → Prop
  | given {a : Timespec} (normal : a.Normal) : Produced may a
  | sum {a : Timespec} {ms : Int} (before : Produced may a) (nonneg : 0 ≤ ms) (allowed : may a ms) :
      Produced may (plus a ms)
  | difference {later earlier : Timespec} (left : Produced may later) (right : Produced may earlier) :
      Produced may (minus later earlier)

theorem Produced.normal {x : Timespec} (produced : Produced OffSecond x) : x.Normal := by
  induction produced with
  | given normal => exact normal
  | sum before nonneg allowed ih => exact (plus_normal_iff ih nonneg).mpr allowed
  | difference left right ihLeft ihRight => exact minus_normal ihLeft ihRight

/-- The laws hold exactly where the sum of the nanoseconds is not a full second; and while all sums are such,
everything that comes of them is compared by its time. -/
theorem laws_iff (aNormal : a.Normal) (bNormal : b.Normal) (nonneg : 0 ≤ ms) :
    (Laws a b ms ↔ OffSecond a ms) ∧ ∀ x y, Produced OffSecond x → Produced OffSecond y → Agree x y := by
  constructor
  · constructor
    · exact fun laws => (plus_normal_iff aNormal nonneg).mp laws.sum_normal
    · intro clear
      have normal := (plus_normal_iff aNormal nonneg).mpr clear
      have difference := minus_normal aNormal bNormal
      exact ⟨normal, plus_nanoseconds a nonneg, toMs_minus_plus aNormal nonneg, difference, minus_nanoseconds a b,
        fun y yNormal => ⟨agree_of_normal normal yNormal, agree_of_normal difference yNormal⟩⟩
  · exact fun x y left right => agree_of_normal left.normal right.normal

theorem laws_carried : Laws ⟨1, 999999999⟩ ⟨2, 5⟩ 1 :=
  (laws_iff (by decide) (by decide) (by decide)).1.mpr (by decide)

/-- Half a second and half a second. -/
theorem half_seconds : ¬Laws ⟨0, 500000000⟩ ⟨0, 0⟩ 500 := by
  intro laws
  exact absurd laws.sum_normal (by decide)

/-- The sum is a second, and compares as less than one. -/
example : lt (plus ⟨0, 500000000⟩ 500) ⟨1, 0⟩ = true ∧
    (plus ⟨0, 500000000⟩ 500).nanoseconds = (Timespec.mk 1 0).nanoseconds := by
  decide

end Arithmetic

end OsdpMaster.Timespec
