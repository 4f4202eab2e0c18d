import OsdpMaster.Timespec

/-!
`sync_queue`: `push` by other threads, and `wait` by the reader, who alone takes
items out. What its waits return is up to the threads and the clock, except that
none times out before the deadline it is given.
-/

namespace OsdpMaster.SyncQueue

variable {α : Type}

inductive Code
  /-- 0: the signal of a `push`, or no reason. -/
  | woken
  /-- `ETIMEDOUT` -/
  | timedOut
  /-- Some other error, like EINTR. -/
  | other
  deriving DecidableEq

/-- A `pthread_cond_timedwait`: what is pushed while it has released the lock, what it returns, and when. -/
structure Wait (α : Type) where
  pushed : List α
  code : Code
  now : Timespec

/-- What a call of `wait` meets: the clock when it is called, the clock as it reads it, what is pushed before it
has the lock, and its waits for a deadline. -/
structure Schedule (α : Type) where
  called : Timespec
  reading : Timespec
  pushed : List α
  waits : Timespec → List (Wait α)

section Code

/-- `push`, less the signal. -/
def push (queue : List α) (v : α) : List α := queue ++ [v]

/-- `ts`: the remainder of milliseconds is counted as microseconds. -/
def deadline (ms : UInt32) (reading : Timespec) : Timespec :=
  Timespec.carried (reading.sec + (ms.toNat / 1000 : Nat)) (reading.nsec + (ms.toNat % 1000 : Nat) * 1000)

structure Returned (α : Type) where
  ok : Bool
  queue : List α
  code : Code
  now : Timespec

/-- The loop of `wait`; `none` while it is waiting. -/
def waitLoop (queue : List α) : List (Wait α) → Option (Returned α)
  | [] => none
  | w :: waits =>
    let queue := w.pushed.foldl push queue
    let ok := !queue.isEmpty
    match w.code with
    | .woken => some ⟨ok, queue, .woken, w.now⟩
    | .timedOut => some ⟨ok, queue, .timedOut, w.now⟩
    | .other => waitLoop queue waits

def wait (ms : UInt32) (queue : List α) (s : Schedule α) : Option (Returned α) :=
  waitLoop (s.pushed.foldl push queue) (s.waits (deadline ms s.reading))

end Code

section Law

/-- The clock does not go back, and for no proper deadline does a wait time out before it. -/
structure Legal (s : Schedule α) : Prop where
  reading_normal : s.reading.Normal
  read : s.called.nanoseconds ≤ s.reading.nanoseconds
  clock : ∀ ts, ts.Normal → (s.reading :: (s.waits ts).map Wait.now).Pairwise
    (fun early late => early.nanoseconds ≤ late.nanoseconds)
  timed : ∀ ts, ts.Normal → ∀ w ∈ s.waits ts, w.code = .timedOut → ts.nanoseconds ≤ w.now.nanoseconds

def Passed (ms : UInt32) (s : Schedule α) (now : Timespec) : Prop :=
  s.called.nanoseconds + ms.toNat * 1000000 ≤ now.nanoseconds

structure Holds (ms : UInt32) (queue : List α) (s : Schedule α) (r : Returned α) : Prop where
  at_once : queue ≠ [] → r.ok = true ∧ r.code ≠ .timedOut
  waited : r.ok = false → r.queue = [] ∧ Passed ms s r.now

def last (waits : List (Wait α)) : Option (Wait α) := waits.find? (·.code != .other)

def arrived (waits : List (Wait α)) : List α :=
  (waits.takeWhile (·.code == .other)).flatMap Wait.pushed ++ (last waits).elim [] Wait.pushed

/-- The wait ends so long after its deadline, and the clock was read so long after the call, that together this is
the 999 of 1000 parts of the remainder of milliseconds that the deadline lacks. -/
def Late (ms : UInt32) (s : Schedule α) (w : Wait α) : Prop :=
  (ms.toNat % 1000 : Nat) * 999000 ≤ (w.now.nanoseconds - (deadline ms s.reading).nanoseconds) +
    (s.reading.nanoseconds - s.called.nanoseconds)

/-- None of the three defects shows: a signal from before the wait is not missed, no wake-up is taken for a signal,
and no time-out is short of its remainder of milliseconds. `items` are all that have been in the queue. -/
structure Clean (ms : UInt32) (queue items : List α) (s : Schedule α) (w : Wait α) : Prop where
  not_missed : queue ≠ [] → w.code = .woken
  not_spurious : w.code = .woken → items = [] → Passed ms s w.now
  not_short : w.code = .timedOut → items = [] → Late ms s w

end Law

section Deadline

variable {ms : UInt32} {reading : Timespec}

theorem deadline_normal (normal : reading.Normal) : (deadline ms reading).Normal := by
  obtain ⟨low, high⟩ := normal
  rw [deadline, Timespec.carried_normal]
  omega

theorem deadline_nanoseconds (ms : UInt32) (reading : Timespec) :
    (deadline ms reading).nanoseconds =
      reading.nanoseconds + ms.toNat * 1000000 - (ms.toNat % 1000 : Nat) * 999000 := by
  rw [deadline, Timespec.carried_nanoseconds, Timespec.nanoseconds]
  omega

theorem deadline_exact_iff : (deadline ms reading).nanoseconds = reading.nanoseconds + ms.toNat * 1000000 ↔
    ms.toNat % 1000 = 0 := by
  rw [deadline_nanoseconds]
  omega

end Deadline

section Loop

theorem foldl_push (queue items : List α) : items.foldl push queue = queue ++ items := by
  induction items generalizing queue with
  | nil => rw [List.foldl_nil, List.append_nil]
  | cons v items ih => rw [List.foldl_cons, ih, push, List.append_assoc, List.singleton_append]

/-- The loop goes by the first wait that is woken or times out, and has all that has been pushed by then. -/
theorem waitLoop_last {queue : List α} {waits : List (Wait α)} {w : Wait α} (ends : last waits = some w) :
    waitLoop queue waits =
      some ⟨!(queue ++ arrived waits).isEmpty, queue ++ arrived waits, w.code, w.now⟩ := by
  induction waits generalizing queue with
  | nil => cases ends
  | cons first waits ih =>
    rw [waitLoop, foldl_push]
    cases code : first.code with
    | woken =>
      have here : last (first :: waits) = some first := by simp [last, code]
      obtain rfl : first = w := Option.some.inj (here.symm.trans ends)
      simp [arrived, here, code]
    | timedOut =>
      have here : last (first :: waits) = some first := by simp [last, code]
      obtain rfl : first = w := Option.some.inj (here.symm.trans ends)
      simp [arrived, here, code]
    | other =>
      have later : last (first :: waits) = last waits := by simp [last, code]
      have more : arrived (first :: waits) = first.pushed ++ arrived waits := by
        simp [arrived, later, code]
      rw [later] at ends
      dsimp only
      rw [ih ends, more, List.append_assoc]

theorem last_of_waitLoop {queue : List α} {waits : List (Wait α)} {r : Returned α}
    (returns : waitLoop queue waits = some r) : ∃ w, last waits = some w := by
  induction waits generalizing queue with
  | nil => cases returns
  | cons first waits ih =>
    rw [waitLoop] at returns
    cases code : first.code with
    | woken => exact ⟨first, by simp [last, code]⟩
    | timedOut => exact ⟨first, by simp [last, code]⟩
    | other =>
      rw [code] at returns
      obtain ⟨w, ends⟩ := ih returns
      exact ⟨w, by rw [← ends]; simp [last, code]⟩

theorem last_mem {waits : List (Wait α)} {w : Wait α} (ends : last waits = some w) :
    w ∈ waits ∧ w.code ≠ .other := by
  have is := List.find?_some ends
  exact ⟨List.mem_of_find?_eq_some ends, by simpa using is⟩

end Loop

section Defects

variable {ms : UInt32} {queue : List α} {s : Schedule α} {w : Wait α}

theorem late_iff (ms : UInt32) (s : Schedule α) (w : Wait α) : Late ms s w ↔ Passed ms s w.now := by
  rw [Late, Passed, deadline_nanoseconds]
  omega

/-- A time-out is not before its deadline, so one of whole seconds is not short. -/
theorem Legal.late_of_whole (legal : Legal s) (ends : last (s.waits (deadline ms s.reading)) = some w)
    (out : w.code = .timedOut) (whole : ms.toNat % 1000 = 0) : Late ms s w := by
  have timed := legal.timed _ (deadline_normal legal.reading_normal) w (last_mem ends).1 out
  have read := legal.read
  rw [Late, whole]
  omega

theorem Legal.later (legal : Legal s) (ends : last (s.waits (deadline ms s.reading)) = some w) :
    s.called.nanoseconds ≤ w.now.nanoseconds := by
  have order := legal.clock (deadline ms s.reading) (deadline_normal legal.reading_normal)
  have later := (List.pairwise_cons.mp order).1 w.now (List.mem_map_of_mem (last_mem ends).1)
  exact Int.le_trans legal.read later

theorem wait_last (ends : last (s.waits (deadline ms s.reading)) = some w) :
    wait ms queue s = some
      ⟨!(queue ++ s.pushed ++ arrived (s.waits (deadline ms s.reading))).isEmpty,
        queue ++ s.pushed ++ arrived (s.waits (deadline ms s.reading)), w.code, w.now⟩ := by
  rw [wait, foldl_push]
  exact waitLoop_last ends

theorem holds_iff_clean (ends : last (s.waits (deadline ms s.reading)) = some w) (more : List α) :
    Holds ms queue s ⟨!(queue ++ more).isEmpty, queue ++ more, w.code, w.now⟩ ↔
      Clean ms queue (queue ++ more) s w := by
  constructor
  · intro holds
    have waited (none : queue ++ more = []) : Passed ms s w.now :=
      (holds.waited (by rw [none]; rfl)).2
    refine ⟨?_, fun _ none => waited none, fun _ none => (late_iff ms s w).mpr (waited none)⟩
    intro queued
    have not_out := (holds.at_once queued).2
    cases code : w.code with
    | woken => rfl
    | timedOut => exact absurd code not_out
    | other => exact absurd code (last_mem ends).2
  · intro clean
    constructor
    · intro queued
      have some_item : queue ++ more ≠ [] := fun none => queued (List.append_eq_nil_iff.mp none).1
      refine ⟨by simpa using some_item, ?_⟩
      rw [clean.not_missed queued]
      exact Code.noConfusion
    · intro refused
      have none : queue ++ more = [] := by simpa using refused
      refine ⟨none, ?_⟩
      cases code : w.code with
      | woken => exact clean.not_spurious code none
      | timedOut => exact (late_iff ms s w).mp (clean.not_short code none)
      | other => exact absurd code (last_mem ends).2

end Defects

section Schedules

def timingOut : Schedule α where
  called := ⟨0, 0⟩
  reading := ⟨0, 0⟩
  pushed := []
  waits ts := [⟨[], .timedOut, if ts.before ⟨0, 0⟩ then ⟨0, 0⟩ else ts⟩]

def waking : Schedule α where
  called := ⟨0, 0⟩
  reading := ⟨0, 0⟩
  pushed := []
  waits _ := [⟨[], .woken, ⟨0, 0⟩⟩]

theorem legal_timingOut : Legal (timingOut : Schedule α) where
  reading_normal := show Timespec.Normal ⟨0, 0⟩ by decide
  read := Int.le_refl _
  clock ts normal := by
    simp only [timingOut, List.map_cons, List.map_nil, List.pairwise_pair]
    split
    · exact Int.le_refl _
    next late => exact (Timespec.not_before_iff normal (by decide)).mp (by simpa using late)
  timed ts normal w member _ := by
    rw [List.mem_singleton.mp member]
    dsimp only
    split
    next early => exact Int.le_of_lt ((Timespec.before_iff normal (by decide)).mp early)
    next => exact Int.le_refl _

theorem legal_waking : Legal (waking : Schedule α) where
  reading_normal := show Timespec.Normal ⟨0, 0⟩ by decide
  read := Int.le_refl _
  clock ts _ := by
    simp only [waking, List.map_cons, List.map_nil, List.pairwise_pair]
    exact Int.le_refl _
  timed ts _ w member out := by
    rw [List.mem_singleton.mp member] at out
    cases out

end Schedules

section Calls

variable {ms : UInt32} {queue : List α}

theorem wait_waking (holds : ∀ (s : Schedule α) (r : Returned α), Legal s → wait ms queue s = some r →
    Holds ms queue s r) (none_queued : queue = []) : ms = 0 := by
  have returns : wait ms queue waking = some ⟨false, [], .woken, ⟨0, 0⟩⟩ := by
    rw [none_queued]
    rfl
  have passed : (0 : Int) + ms.toNat * 1000000 ≤ 0 := ((holds waking _ legal_waking returns).waited rfl).2
  apply UInt32.toNat_inj.mp
  change ms.toNat = 0
  omega

theorem wait_timingOut (holds : ∀ (s : Schedule α) (r : Returned α), Legal s → wait ms queue s = some r →
    Holds ms queue s r) : queue = [] := by
  by_contra queued
  have returns : wait ms queue timingOut = some _ := wait_last rfl
  exact ((holds timingOut _ legal_timingOut returns).at_once queued).2 rfl

theorem holds_of_zero {s : Schedule α} {r : Returned α} (legal : Legal s) (zero : ms = 0) (none_queued : queue = [])
    (returns : wait ms queue s = some r) : Holds ms queue s r := by
  obtain ⟨w, ends⟩ := last_of_waitLoop returns
  have passed : Passed ms s w.now := by
    have later := legal.later ends
    rw [Passed, zero, UInt32.toNat_zero]
    omega
  rw [wait_last ends, List.append_assoc] at returns
  rw [← Option.some.inj returns, holds_iff_clean ends]
  exact ⟨fun queued => absurd none_queued queued, fun _ _ => passed, fun _ _ => (late_iff ms s w).mpr passed⟩

end Calls

/-- In every schedule `wait` meets the law exactly where no defect shows; and it meets the law in every schedule
only if it is not to wait and nothing is queued. -/
theorem wait_iff (ms : UInt32) (queue : List α) :
    (∀ (s : Schedule α) (w : Wait α), Legal s → last (s.waits (deadline ms s.reading)) = some w →
      ∃ r, wait ms queue s = some r ∧
        (Holds ms queue s r ↔
          Clean ms queue (queue ++ (s.pushed ++ arrived (s.waits (deadline ms s.reading)))) s w)) ∧
    ((∀ (s : Schedule α) (r : Returned α), Legal s → wait ms queue s = some r → Holds ms queue s r) ↔
      ms = 0 ∧ queue = []) := by
  constructor
  · intro s w legal ends
    have returns : wait ms queue s = some _ := wait_last ends
    rw [List.append_assoc] at returns
    exact ⟨_, returns, holds_iff_clean ends _⟩
  · constructor
    · intro holds
      have none_queued := wait_timingOut holds
      exact ⟨wait_waking holds none_queued, none_queued⟩
    · exact fun right s r legal returns => holds_of_zero legal right.1 right.2 returns

/-- Half a second is over in half a millisecond. -/
theorem half_second_short : ∃ (s : Schedule Nat) (r : Returned Nat),
    Legal s ∧ wait 500 [] s = some r ∧ ¬Holds 500 [] s r := by
  refine ⟨timingOut, ⟨false, [], .timedOut, ⟨0, 500000⟩⟩, legal_timingOut, rfl, ?_⟩
  intro holds
  have passed := (holds.waited rfl).2
  revert passed
  unfold Passed
  decide

end OsdpMaster.SyncQueue
