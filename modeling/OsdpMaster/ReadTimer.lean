import OsdpMaster.ReadDeadline
import OsdpMaster.ReadLaw

/-!
The timer of `readcook`: what each clock reading it takes after `EAGAIN` leads
to, and that no call gives up before its time.
-/

namespace OsdpMaster.ReadTimer
open OsdpMaster.Protocol OsdpMaster.Lib.Program OsdpMaster.ReadDeadline OsdpMaster.ReadSpec

theorem deadlineFrom_eq (now : Timespec) (timeout : Int) : deadlineFrom now timeout =
    Timespec.carried (now.sec + timeout.tdiv 1000000) (now.nsec + timeout.tmod 1000000 * 1000) := rfl

theorem deadlineFrom_exact {now : Timespec} (nowNormal : now.Normal) {timeout : Int}
    (nonneg : 0 ≤ timeout) : (deadlineFrom now timeout).Normal ∧
      (deadlineFrom now timeout).nanoseconds = now.nanoseconds + timeout * 1000 := by
  obtain ⟨low, high⟩ := nowNormal
  rw [deadlineFrom_eq, Int.tdiv_eq_ediv_of_nonneg nonneg, Int.tmod_eq_emod_of_nonneg nonneg]
  constructor
  · rw [Timespec.carried_normal]
    omega
  · rw [Timespec.carried_nanoseconds]
    simp only [Timespec.nanoseconds]
    omega

/-- A wait before the deadline: one to a thousand milliseconds, and past the deadline only if it is
the shortest one. -/
structure Waits (deadline tick : Timespec) (wait : Int) : Prop where
  early : tick.nanoseconds ≤ deadline.nanoseconds
  least : 1 ≤ wait
  most : wait ≤ 1000
  within : wait = 1 ∨ tick.nanoseconds + wait * 1000000 ≤ deadline.nanoseconds

theorem late_iff {deadline tick : Timespec} (deadlineNormal : deadline.Normal) (tickNormal : tick.Normal) :
    expired deadline tick = true ↔ deadline.nanoseconds < tick.nanoseconds := by
  rw [expired_iff deadlineNormal tickNormal, Timespec.before_iff deadlineNormal tickNormal]

/-- The remaining time is cut to milliseconds, so it is never more than is left. -/
theorem pollTimer_le {deadline tick : Timespec} (deadlineNormal : deadline.Normal) (tickNormal : tick.Normal) :
    tick.nanoseconds + pollTimer deadline tick * 1000000 ≤ deadline.nanoseconds := by
  obtain ⟨deadlineLow, deadlineHigh⟩ := deadlineNormal
  obtain ⟨tickLow, tickHigh⟩ := tickNormal
  simp only [pollTimer, Timespec.nanoseconds]
  split
  · rw [Int.tdiv_eq_ediv_of_nonneg (by omega)]
    omega
  · rw [Int.tdiv_eq_ediv_of_nonneg (by omega)]
    omega

theorem waits_of_early {deadline tick : Timespec} (deadlineNormal : deadline.Normal)
    (tickNormal : tick.Normal) (early : expired deadline tick = false) :
    Waits deadline tick (pollWait (pollTimer deadline tick)) := by
  have notLate : ¬deadline.nanoseconds < tick.nanoseconds := by
    rw [← late_iff deadlineNormal tickNormal, early]
    exact Bool.false_ne_true
  have left := pollTimer_le deadlineNormal tickNormal
  have nonneg : 0 ≤ pollTimer deadline tick := by
    rw [expired, decide_eq_false_iff_not] at early
    omega
  generalize pollTimer deadline tick = itime at left nonneg
  refine ⟨by omega, ?_, ?_, ?_⟩
  · simp only [pollWait]
    split <;> split <;> omega
  · simp only [pollWait]
    split <;> split <;> omega
  · simp only [pollWait]
    split <;> split <;> omega

section Calls

def ticksOf (input : List ReadOutcome) : List Timespec :=
  input.filterMap fun outcome => match outcome with
    | .eagain tick => some tick
    | _ => none

/-- What `read_some` asks `poll(2)` for at these readings. -/
def waitsFor (deadline : Timespec) (ticks : List Timespec) : List Int :=
  ticks.map fun tick => pollWait (pollTimer deadline tick)

/-- Between the two states the clock showed these readings, all of them in time, and `left` are to
come. -/
structure Polls (s : Protocol) (ticks left : List Timespec) (after : Protocol) : Prop where
  deadline : after.deadline = s.deadline
  early : ∀ tick ∈ ticks, expired s.deadline tick = false
  ticks_eq : ticksOf s.input = ticks ++ left
  waits : after.waits = s.waits ++ waitsFor s.deadline ticks

theorem Polls.none {s after : Protocol} (deadline : after.deadline = s.deadline)
    (waits : after.waits = s.waits) : Polls s [] (ticksOf s.input) after where
  deadline := deadline
  early := by simp
  ticks_eq := rfl
  waits := by simp [waits, waitsFor]

theorem Polls.trans {s middle after : Protocol} {first second left : List Timespec}
    (start : Polls s first (ticksOf middle.input) middle) (rest : Polls middle second left after) :
    Polls s (first ++ second) left after where
  deadline := rest.deadline.trans start.deadline
  early tick member := by
    rcases List.mem_append.mp member with here | there
    · exact start.early tick here
    · rw [← start.deadline]
      exact rest.early tick there
  ticks_eq := by rw [start.ticks_eq, rest.ticks_eq, List.append_assoc]
  waits := by
    rw [rest.waits, start.waits, start.deadline, waitsFor, waitsFor, waitsFor, List.map_append,
      List.append_assoc]

def Polled (s after : Protocol) : Prop := ∃ ticks, Polls s ticks (ticksOf after.input) after

def TimedOut (s after : Protocol) : Prop :=
  ∃ ticks late, Polls s ticks (late :: ticksOf after.input) after ∧ expired s.deadline late = true

/-- A part that stops has timed out, or polled in time and stopped for another reason. -/
def GaveUp (stop : Stop) (s after : Protocol) : Prop :=
  stop = .code PROTO_ERR_TIMEOUT ∧ TimedOut s after ∨ stop ≠ .code PROTO_ERR_TIMEOUT ∧ Polled s after

theorem law_polled : Law Polled GaveUp where
  refl s := ⟨[], Polls.none rfl rfl⟩
  trans first second := by
    obtain ⟨ticks, start⟩ := first
    obtain ⟨more, rest⟩ := second
    exact ⟨ticks ++ more, start.trans rest⟩
  stop first second := by
    obtain ⟨ticks, start⟩ := first
    rcases second with ⟨timeout, more, late, rest, past⟩ | ⟨other, more, rest⟩
    · refine Or.inl ⟨timeout, ticks ++ more, late, start.trans rest, ?_⟩
      rw [← start.deadline]
      exact past
    · exact Or.inr ⟨other, ticks ++ more, start.trans rest⟩

theorem readAgain_polled (offset count : Nat) (room : offset + count ≤ SLAVE_BUFF_SIZE)
    (input : List ReadOutcome) (m : Protocol) :
    Ends (fun m => readAgain offset count room m input) m
      (fun _ after => Polled { m with input := input } after)
      (fun stop after => GaveUp stop { m with input := input } after) := by
  induction input generalizing m with
  | nil => exact Or.inr ⟨by decide, [], Polls.none rfl rfl⟩
  | cons outcome rest ih =>
    have goes_on (later : Protocol) (first : Polled { m with input := outcome :: rest } { later with input := rest }) :
        Ends (fun m => readAgain offset count room m rest) later
          (fun _ after => Polled { m with input := outcome :: rest } after)
          (fun stop after => GaveUp stop { m with input := outcome :: rest } after) := by
      apply (ih later).mono
      · intro _ after more
        exact law_polled.trans first more
      · intro _ after more
        exact law_polled.stop first more
    cases outcome with
    | data bytes =>
      refine ⟨[], rfl, by simp, ?_, by simp [waitsFor]⟩
      change ticksOf rest = ticksOf (if bytes.drop count = [] then rest else .data (bytes.drop count) :: rest)
      split <;> rfl
    | eintr => exact goes_on m ⟨[], Polls.none rfl rfl⟩
    | error => exact Or.inr ⟨by decide, [], Polls.none rfl rfl⟩
    | eagain tick =>
      by_cases late : expired m.deadline tick = true
      · simp only [Ends, readAgain, if_pos late]
        exact Or.inl ⟨rfl, [], tick, ⟨rfl, by simp, rfl, by simp [waitsFor]⟩, late⟩
      · have early : expired m.deadline tick = false := by simpa using late
        simp only [Ends, readAgain, if_neg late]
        exact goes_on { m with waits := m.waits ++ [pollWait (pollTimer m.deadline tick)] }
          ⟨[tick], rfl, by simpa using early, rfl, rfl⟩

theorem readSome_polled (offset count : Nat) : Obeys Polled GaveUp (readSome offset count) := by
  intro m
  unfold readSome
  by_cases request : 0 < count ∧ offset + count ≤ SLAVE_BUFF_SIZE
  · simp only [Ends, dif_pos request]
    exact readAgain_polled offset count request.2 m.input m
  · simp only [Ends, dif_neg request]
    exact Or.inr ⟨by decide, law_polled.refl m⟩

theorem polled_allows : ReadLaw.Allows Polled GaveUp where
  law := law_polled
  buffer _ _ := ⟨[], Polls.none rfl rfl⟩
  own _ s other := Or.inr ⟨other, law_polled.refl s⟩
  some := readSome_polled

theorem readeof_value (offset : Nat) (m : Protocol) :
    Ends (readeof offset) m (fun value _ => 5 < (value : Int)) (fun _ _ => True) := by
  simp only [readeof, ends_bind]
  apply ends_any
  intro total s
  split
  · trivial
  · apply ends_forever_value
    intro offset s
    rw [ends_bind]
    apply ends_any
    intro got s
    split
    · rw [ends_pure]
      omega
    · trivial

theorem integrityCheck_value (size : Int) (m : Protocol) :
    Ends (integrityCheck size) m (fun value _ => size - 2 ≤ value) (fun _ _ => True) := by
  simp only [integrityCheck, ends_bind]
  apply ends_any
  intro ctrl s
  split
  · simp only [ends_bind]
    refine ends_any _ _ fun body s => ends_any _ _ fun low s => ends_any _ _ fun high s => ?_
    split
    · trivial
    · exact le_refl _
  · simp only [ends_bind]
    refine ends_any _ _ fun body s => ends_any _ _ fun last s => ?_
    split
    · trivial
    · change size - 2 ≤ size - 1
      omega

theorem flyby_value (offset : Nat) (m : Protocol) :
    Ends (flyby offset) m (fun value _ => value = PROTO_ERR_FLYBY) (fun _ _ => True) := by
  have verdict {condition : Prop} [Decidable condition] (s : Protocol) :
      Ends (if condition then throw (.code PROTO_ERR_CRC) else pure PROTO_ERR_FLYBY : Proto Int) s
        (fun value _ => value = PROTO_ERR_FLYBY) (fun _ _ => True) := by
    split
    · trivial
    · rfl
  simp only [flyby, flybyTrailer, ends_bind]
  refine ends_any _ _ fun total s => ends_any _ _ fun ctrl s => ends_any _ _ fun header s =>
    ends_any _ _ fun check s => ?_
  split
  · simp only [ends_bind]
    exact ends_any _ _ fun _ s => ends_any _ _ fun _ s => ends_any _ _ fun _ s => verdict s
  · simp only [ends_bind]
    exact ends_any _ _ fun _ s => ends_any _ _ fun _ s => verdict s

theorem readFrame_value (m : Protocol) :
    Ends readFrame m (fun value _ => value ≠ PROTO_ERR_TIMEOUT) (fun _ _ => True) := by
  simp only [readFrame, ends_bind, ends_get]
  refine ends_any _ _ fun size s => ends_any _ _ fun addr s => ?_
  split
  · refine (flyby_value size s).mono ?_ (fun _ _ stopped => stopped)
    intro value _ flown
    rw [flown]
    decide
  · rw [ends_bind]
    refine (readeof_value size s).mono ?_ (fun _ _ stopped => stopped)
    intro total s long
    refine (integrityCheck_value total s).mono ?_ (fun _ _ stopped => stopped)
    intro value _ least
    simp only [PROTO_ERR_TIMEOUT]
    omega

theorem readstamp_polled (stamp : Timespec) (m : Protocol) :
    Ends (readstamp stamp) m (fun _ after => after.deadline = m.deadline ∧ after.input = m.input ∧
      after.waits = m.waits) (fun _ _ => False) := by
  simp only [readstamp, ends_modify]
  split <;> exact ⟨rfl, rfl, rfl⟩

/-- A call times out at its first late reading, and only there. -/
theorem readcook_polled (m : Protocol) (now stamp : Timespec) :
    Ends (readcook now stamp) m
      (fun value after => value ≠ PROTO_ERR_TIMEOUT ∧ Polled (started m now) after ∨
        value = PROTO_ERR_TIMEOUT ∧ TimedOut (started m now) after)
      (fun _ after => Polled (started m now) after) := by
  have leave (value : Int) (s : Protocol) (done : value ≠ PROTO_ERR_TIMEOUT ∧ Polled (started m now) s ∨
      value = PROTO_ERR_TIMEOUT ∧ TimedOut (started m now) s) :
      Ends (readstamp stamp >>= fun _ => pure value) s
        (fun value after => value ≠ PROTO_ERR_TIMEOUT ∧ Polled (started m now) after ∨
          value = PROTO_ERR_TIMEOUT ∧ TimedOut (started m now) after)
        (fun _ after => Polled (started m now) after) := by
    rw [ends_bind]
    refine (readstamp_polled stamp s).mono ?_ (fun _ _ => False.elim)
    intro _ after same
    obtain ⟨deadline, input, waits⟩ := same
    rcases done with ⟨value_ne, ticks, polls⟩ | ⟨value_eq, ticks, late, polls, past⟩
    · refine Or.inl ⟨value_ne, ticks, deadline.trans polls.deadline, polls.early, ?_, waits.trans polls.waits⟩
      rw [input]
      exact polls.ticks_eq
    · refine Or.inr ⟨value_eq, ticks, late,
        ⟨deadline.trans polls.deadline, polls.early, ?_, waits.trans polls.waits⟩, past⟩
      rw [input]
      exact polls.ticks_eq
  simp only [readcook, ends_bind, ends_modify, ends_tryCatch]
  refine ((polled_allows.readFrame (started m now)).and (readFrame_value (started m now))).mono ?_ ?_
  · intro value s done
    exact leave value s (Or.inl ⟨done.2, done.1⟩)
  · intro stop s done
    rcases done.1 with ⟨timeout, late⟩ | ⟨other, polled⟩
    · subst timeout
      exact leave PROTO_ERR_TIMEOUT s (Or.inr ⟨rfl, late⟩)
    · cases stop with
      | code value =>
        refine leave value s (Or.inl ⟨?_, polled⟩)
        intro same
        exact other (by rw [same])
      | exception message => exact polled
      | blocked => exact polled
      | fault => exact polled

def Waited (m : Protocol) (deadline : Timespec) (ticks left : List Timespec) (after : Protocol) : Prop :=
  ticksOf m.input = ticks ++ left ∧
    ∃ waits, after.waits = m.waits ++ waits ∧ List.Forall₂ (Waits deadline) ticks waits

theorem Polls.waited {m after : Protocol} {now : Timespec} {ticks left : List Timespec}
    (polls : Polls (started m now) ticks left after) (nowNormal : now.Normal)
    (nonneg : 0 ≤ m.config.timeout) (ticksNormal : ∀ tick ∈ ticksOf m.input, tick.Normal) :
    Waited m (deadlineFrom now m.config.timeout) ticks left after := by
  have split : ticksOf m.input = ticks ++ left := polls.ticks_eq
  refine ⟨split, waitsFor (deadlineFrom now m.config.timeout) ticks, polls.waits, ?_⟩
  rw [waitsFor, List.forall₂_map_right_iff, List.forall₂_same]
  intro tick member
  refine waits_of_early (deadlineFrom_exact nowNormal nonneg).1 (ticksNormal tick ?_) (polls.early tick member)
  rw [split]
  exact List.mem_append_left _ member

/-- The deadline of a call is its first reading plus the timeout. Of the readings it takes after
`EAGAIN`, it goes on waiting at those that are not later than the deadline, for one to a thousand
milliseconds that end by the deadline unless they are one, and returns the timeout at the first that
is strictly later. -/
theorem readcook_timer (m : Protocol) (now stamp : Timespec) (nowNormal : now.Normal)
    (nonneg : 0 ≤ m.config.timeout) (ticksNormal : ∀ tick ∈ ticksOf m.input, tick.Normal) :
    (deadlineFrom now m.config.timeout).Normal ∧
    (deadlineFrom now m.config.timeout).nanoseconds = now.nanoseconds + m.config.timeout * 1000 ∧
    Ends (readcook now stamp) m
      (fun value after => after.deadline = deadlineFrom now m.config.timeout ∧ ∃ ticks,
        (value ≠ PROTO_ERR_TIMEOUT ∧
          Waited m (deadlineFrom now m.config.timeout) ticks (ticksOf after.input) after ∨
        value = PROTO_ERR_TIMEOUT ∧ ∃ late,
          Waited m (deadlineFrom now m.config.timeout) ticks (late :: ticksOf after.input) after ∧
          now.nanoseconds + m.config.timeout * 1000 < late.nanoseconds))
      (fun _ after => after.deadline = deadlineFrom now m.config.timeout ∧
        ∃ ticks, Waited m (deadlineFrom now m.config.timeout) ticks (ticksOf after.input) after) := by
  obtain ⟨normal, exact_eq⟩ := deadlineFrom_exact nowNormal nonneg
  refine ⟨normal, exact_eq, (readcook_polled m now stamp).mono ?_ ?_⟩
  · intro value after done
    rcases done with ⟨value_ne, ticks, polls⟩ | ⟨value_eq, ticks, late, polls, past⟩
    · exact ⟨polls.deadline, ticks, Or.inl ⟨value_ne, polls.waited nowNormal nonneg ticksNormal⟩⟩
    · have waited := polls.waited nowNormal nonneg ticksNormal
      refine ⟨polls.deadline, ticks, Or.inr ⟨value_eq, late, waited, ?_⟩⟩
      have lateNormal : late.Normal := by
        apply ticksNormal
        rw [waited.1]
        simp
      rw [← exact_eq]
      exact (late_iff normal lateNormal).mp past
  · intro stop after polled
    obtain ⟨ticks, polls⟩ := polled
    exact ⟨polls.deadline, ticks, polls.waited nowNormal nonneg ticksNormal⟩

/-- A port that is not ready for a while, with a timeout of 1.5 ms: at exact equality it waits once
more, a nanosecond later it gives up. -/
def unready : Protocol :=
  { Protocol.construct ⟨0, 0, 1500, 0, 0⟩ with
    input := [.eagain ⟨7, 999000000⟩, .eagain ⟨8, 500000⟩, .eagain ⟨8, 500001⟩] }

theorem readcook_timer_unready :
    ∃ after ticks late, readcook ⟨7, 999000000⟩ ⟨8, 600000⟩ unready = .ok PROTO_ERR_TIMEOUT after ∧
      ticksOf unready.input = ticks ++ late :: ticksOf after.input ∧ 8000500000 < late.nanoseconds := by
  obtain ⟨value, after, run, timeout⟩ := @exists_ok _ _ _ (readcook ⟨7, 999000000⟩ ⟨8, 600000⟩) unready
    (fun value _ => value == PROTO_ERR_TIMEOUT) (by decide +kernel)
  have value_eq : value = PROTO_ERR_TIMEOUT := by simpa using timeout
  obtain ⟨_, _, ends⟩ := readcook_timer unready ⟨7, 999000000⟩ ⟨8, 600000⟩ (by decide) (by decide)
    (by decide +kernel)
  obtain ⟨_, ticks, in_time | ⟨_, late, waited, past⟩⟩ := ends.of_ok run
  · exact absurd value_eq in_time.1
  · rw [value_eq] at run
    exact ⟨after, ticks, late, run, waited.1, past⟩

end Calls

end OsdpMaster.ReadTimer
