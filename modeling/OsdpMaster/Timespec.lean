import Mathlib.Tactic.Common

/-! `struct timespec` as the clocks fill it in. -/

namespace OsdpMaster

structure Timespec where
  sec : Int
  nsec : Int
  deriving DecidableEq, Repr

namespace Timespec

def Normal (time : Timespec) : Prop := 0 ≤ time.nsec ∧ time.nsec < 1000000000

instance (time : Timespec) : Decidable time.Normal := inferInstanceAs (Decidable (_ ∧ _))

def nanoseconds (time : Timespec) : Int := time.sec * 1000000000 + time.nsec

/-- The comparison spelled out in `slave_poll`. -/
def before (left right : Timespec) : Bool :=
  left.sec < right.sec || (left.sec = right.sec && left.nsec < right.nsec)

/-- The sum of a reading and an interval, of which one second is carried if need be. -/
def carried (sec nsec : Int) : Timespec :=
  if nsec ≥ 1000000000 then ⟨sec + 1, nsec - 1000000000⟩ else ⟨sec, nsec⟩

theorem carried_nanoseconds (sec nsec : Int) :
    (carried sec nsec).nanoseconds = sec * 1000000000 + nsec := by
  simp only [carried, nanoseconds]
  split
  · dsimp only
    omega
  · rfl

theorem carried_normal (sec nsec : Int) :
    (carried sec nsec).Normal ↔ 0 ≤ nsec ∧ nsec < 2000000000 := by
  simp only [carried, Normal]
  split
  · dsimp only
    omega
  · dsimp only
    omega

theorem before_iff {left right : Timespec} (leftNormal : left.Normal) (rightNormal : right.Normal) :
    left.before right = true ↔ left.nanoseconds < right.nanoseconds := by
  obtain ⟨leftLow, leftHigh⟩ := leftNormal
  obtain ⟨rightLow, rightHigh⟩ := rightNormal
  simp only [before, nanoseconds, Bool.or_eq_true, Bool.and_eq_true, decide_eq_true_eq]
  omega

theorem not_before_iff {left right : Timespec} (leftNormal : left.Normal) (rightNormal : right.Normal) :
    left.before right = false ↔ right.nanoseconds ≤ left.nanoseconds := by
  rw [← Bool.not_eq_true, before_iff leftNormal rightNormal, Int.not_lt]

end Timespec

end OsdpMaster
