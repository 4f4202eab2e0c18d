import OsdpMaster.ReadSpec

/-!
When `readcook` comes back from an endless input. The deadline is looked at only
after `EAGAIN`, so a call returns if it meets one after its deadline or if the
stream settles it, and otherwise reads on for ever.
-/

namespace OsdpMaster.ReadDeadline
open OsdpMaster.Protocol OsdpMaster.Lib.Program OsdpMaster.ReadInput OsdpMaster.FrameSpec OsdpMaster.ReadSpec

theorem expired_iff {deadline tick : Timespec} (deadlineNormal : deadline.Normal)
    (tickNormal : tick.Normal) : expired deadline tick = true ↔ deadline.before tick = true := by
  obtain ⟨deadlineLow, deadlineHigh⟩ := deadlineNormal
  obtain ⟨tickLow, tickHigh⟩ := tickNormal
  rw [expired, decide_eq_true_iff]
  simp only [pollTimer, Timespec.before, decide_eq_true_eq, Bool.or_eq_true, Bool.and_eq_true]
  split
  · rw [Int.tdiv_eq_ediv_of_nonneg (by omega)]
    omega
  · rw [Int.tdiv_eq_ediv_of_nonneg (by omega)]
    omega

def upTo (outcomes : Nat → ReadOutcome) (n : Nat) : List ReadOutcome := (List.range n).map outcomes

theorem mem_upTo {outcomes : Nat → ReadOutcome} {n i : Nat} (early : i < n) :
    outcomes i ∈ upTo outcomes n := by
  exact List.mem_map.mpr ⟨i, List.mem_range.mpr early, rfl⟩

/-- The call returns after finitely many reads. -/
def Returns (m : Protocol) (now stamp : Timespec) (outcomes : Nat → ReadOutcome) : Prop :=
  ∃ n value after, readcook now stamp { m with input := upTo outcomes n } = .ok value after

def MeetsDeadline (deadline : Timespec) (outcomes : Nat → ReadOutcome) : Prop :=
  ∃ i tick, outcomes i = .eagain tick ∧ expired deadline tick = true

/-- The reads so far end a call: they bring a whole frame or a refused header, or, at the checksum
byte of another station's frame, nothing. -/
def Settles (me : UInt8) (marks : List (Option UInt8)) : Prop :=
  (parse me (arrived marks)).isSome = true ∨
    ∃ before rest, marks = before ++ none :: rest ∧ awaitsChecksum me (arrived before)

theorem settles_of_returns {m : Protocol} {now stamp : Timespec} {outcomes : Nat → ReadOutcome}
    (returns : Returns m now stamp outcomes) :
    MeetsDeadline (deadlineFrom now m.config.timeout) outcomes ∨
      ∃ n, Settles m.myAddr (marksOf (upTo outcomes n)) := by
  obtain ⟨n, value, final, run⟩ := returns
  obtain ⟨after, outcome, _⟩ := (readcook_ends _ now stamp).of_ok run
  cases outcome with
  | timeout tick member late _ =>
    obtain ⟨i, _, outcome_eq⟩ := List.mem_map.mp member
    exact Or.inl ⟨i, tick, outcome_eq, late⟩
  | parsed p marks parse_eq _ _ _ _ _ =>
    have complete : parse m.myAddr (arrived (marksOf (upTo outcomes n))) = some p := parse_eq
    exact Or.inr ⟨n, Or.inl (by rw [complete]; rfl)⟩
  | stale before rest split awaits _ =>
    exact Or.inr ⟨n, Or.inr ⟨before, rest, split, awaits⟩⟩

/-- Without a fatal error a call returns, or waits with everything read and nothing settled. -/
theorem returns_or_waits (m : Protocol) (now stamp : Timespec) (outcomes : Nat → ReadOutcome)
    (nonfatal : ∀ i, outcomes i ≠ .error) (n : Nat) :
    Returns m now stamp outcomes ∨
      (∀ outcome ∈ upTo outcomes n, Quiet (deadlineFrom now m.config.timeout) outcome) ∧
        ¬Settles m.myAddr (marksOf (upTo outcomes n)) := by
  cases run : readcook now stamp { m with input := upTo outcomes n } with
  | ok value after => exact Or.inl ⟨n, value, after, run⟩
  | error stop after =>
    obtain ⟨halts, notCode⟩ := (readcook_ends _ now stamp).of_error run
    cases stop with
    | code value => exact absurd rfl (notCode value)
    | exception message =>
      obtain ⟨i, _, fatal⟩ := List.mem_map.mp halts
      exact absurd fatal (nonfatal i)
    | blocked =>
      obtain ⟨quiet, incomplete, dry⟩ := halts
      refine Or.inr ⟨quiet, ?_⟩
      intro holds
      rcases holds with complete | ⟨before, rest, split, awaits⟩
      · have waiting : parse m.myAddr (arrived (marksOf (upTo outcomes n))) = none := incomplete
        rw [waiting] at complete
        cases complete
      · exact dry before rest split awaits
    | fault => exact absurd halts id

theorem returns_of_meetsDeadline {m : Protocol} {now stamp : Timespec} {outcomes : Nat → ReadOutcome}
    (nonfatal : ∀ i, outcomes i ≠ .error)
    (late : MeetsDeadline (deadlineFrom now m.config.timeout) outcomes) :
    Returns m now stamp outcomes := by
  obtain ⟨i, tick, outcome_eq, passed⟩ := late
  rcases returns_or_waits m now stamp outcomes nonfatal (i + 1) with returns | ⟨quiet, _⟩
  · exact returns
  · have early := quiet (outcomes i) (mem_upTo (Nat.lt_succ_self i))
    rw [outcome_eq, Quiet, passed] at early
    cases early

theorem returns_of_settles {m : Protocol} {now stamp : Timespec} {outcomes : Nat → ReadOutcome}
    (nonfatal : ∀ i, outcomes i ≠ .error) {n : Nat}
    (settles : Settles m.myAddr (marksOf (upTo outcomes n))) : Returns m now stamp outcomes := by
  rcases returns_or_waits m now stamp outcomes nonfatal n with returns | ⟨_, open_end⟩
  · exact returns
  · exact absurd settles open_end

/-- A port that keeps answering `EAGAIN` to a clock that passes the deadline ends the call. -/
theorem returns_of_waiting {m : Protocol} {now stamp : Timespec} {outcomes : Nat → ReadOutcome}
    (nonfatal : ∀ i, outcomes i ≠ .error) (start : Nat)
    (passed : ∀ i tick, start ≤ i → outcomes i = .eagain tick →
      expired (deadlineFrom now m.config.timeout) tick = true)
    (waiting : ∀ n, ∃ i tick, n ≤ i ∧ outcomes i = .eagain tick) : Returns m now stamp outcomes := by
  obtain ⟨i, tick, late, outcome_eq⟩ := waiting start
  exact returns_of_meetsDeadline nonfatal ⟨i, tick, outcome_eq, passed i tick late outcome_eq⟩

/-- `readcook` returns exactly when it meets an `EAGAIN` after its deadline or the stream settles
it; a clock past the deadline alone does not bring it back. -/
theorem readcook_returns_iff (m : Protocol) (now stamp : Timespec) (outcomes : Nat → ReadOutcome)
    (nonfatal : ∀ i, outcomes i ≠ .error) :
    Returns m now stamp outcomes ↔
      MeetsDeadline (deadlineFrom now m.config.timeout) outcomes ∨
        ∃ n, Settles m.myAddr (marksOf (upTo outcomes n)) := by
  refine ⟨settles_of_returns, ?_⟩
  intro holds
  rcases holds with late | ⟨n, settles⟩
  · exact returns_of_meetsDeadline nonfatal late
  · exact returns_of_settles nonfatal settles

def seconds (i : Nat) : Timespec := ⟨i, 0⟩

theorem readcook_returns_idle :
    Returns (Protocol.construct ⟨0, 0, 50000, 0, 0⟩) ⟨0, 0⟩ ⟨1, 0⟩ (fun i => .eagain (seconds i)) := by
  refine (readcook_returns_iff _ _ _ _ ?_).mpr (Or.inl ⟨1, seconds 1, rfl, by decide +kernel⟩)
  intro i
  exact nofun

theorem marksOf_hangup (n : Nat) :
    marksOf (upTo (fun _ => .data []) n) = List.replicate n none := by
  have same : upTo (fun _ => .data []) n = List.replicate n (.data []) := by
    simp [upTo]
  rw [same]
  clear same
  induction n with
  | zero => rfl
  | succ n ih => rw [List.replicate_succ, marksOf, ih, ← List.replicate_succ]

/-- A hung-up port, whose reads all give 0 bytes, keeps a master reading for ever. -/
theorem readcook_hangs_up :
    ¬∀ (m : Protocol) (now stamp : Timespec) (outcomes : Nat → ReadOutcome) (clock : Nat → Timespec),
      (∀ i, outcomes i ≠ .error) → (∀ i, (clock i).Normal) →
      (∀ i, (clock (i + 1)).before (clock i) = false) →
      (∃ i, (deadlineFrom now m.config.timeout).before (clock i) = true) →
      (∀ i tick, outcomes i = .eagain tick → tick = clock i) →
      Returns m now stamp outcomes := by
  intro always
  have returns := always (Protocol.construct ⟨0, 0, 50000, 0, 0⟩) ⟨0, 0⟩ ⟨0, 0⟩ (fun _ => .data []) seconds
    (fun _ => nofun) (fun _ => by simp [seconds, Timespec.Normal])
    (fun i => by simp [seconds, Timespec.before]) ⟨1, by decide +kernel⟩ (fun _ _ => nofun)
  rcases settles_of_returns returns with ⟨_, _, impossible, _⟩ | ⟨n, settles⟩
  · cases impossible
  · have nothing (k : Nat) : arrived (List.replicate k none) = [] := by
      simp [arrived, List.reduceOption]
    rw [marksOf_hangup] at settles
    rcases settles with complete | ⟨before, rest, split, awaits⟩
    · rw [nothing] at complete
      exact absurd complete (by decide)
    · obtain ⟨length, before_eq, _⟩ := List.replicate_eq_append_iff.mp split
      rw [before_eq, nothing] at awaits
      exact absurd awaits (by decide)

end OsdpMaster.ReadDeadline
