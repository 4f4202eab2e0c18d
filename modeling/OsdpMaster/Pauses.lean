import OsdpMaster.ProtocolKept
import OsdpMaster.ReadTimer
import OsdpMaster.WriteSpec

/-!
The pauses the protocol keeps: `waitidle` listens until the bus has been silent,
and `delaywait` sleeps until `readstamp`'s time for the next write has come.
-/

namespace OsdpMaster.Pauses
open OsdpMaster.Protocol OsdpMaster.Lib.Program OsdpMaster.ReadTimer

section Waitidle

/-- The deadline `waitidle` computes. The quotient, of tenths of a second, counts as seconds. -/
def idleDeadline (now : Timespec) (idle : Int) : Timespec :=
  let sec := now.sec + idle.tdiv 100000
  let nsec := now.nsec + idle.tmod 100000 * 1000
  if nsec ≥ 1000000000 then ⟨sec + 1, nsec - 1000000000⟩ else ⟨sec, nsec⟩

def listen (now : Timespec) : Proto Int := do
  modify fun m => { m with deadline := idleDeadline now m.config.idle }
  tryCatch
    (do
      let size ← readSome 0 4
      pure (size : Int))
    (fun stop => match stop with
      | .code value => pure value
      | other => throw other)

def waitidle : List Timespec → Proto Int
  | [] => throw .blocked
  | now :: clocks => do
    let i ← listen now
    if i = PROTO_ERR_TIMEOUT then pure i else waitidle clocks

theorem idleDeadline_eq (now : Timespec) (idle : Int) : idleDeadline now idle =
    Timespec.carried (now.sec + idle.tdiv 100000) (now.nsec + idle.tmod 100000 * 1000) := rfl

theorem listen_deadline (now : Timespec) (m : Protocol) :
    Ends (listen now) m (fun _ after => after.deadline = idleDeadline now m.config.idle)
      (fun _ after => after.deadline = idleDeadline now m.config.idle) := by
  simp only [listen, ends_bind, ends_modify, ends_tryCatch]
  apply (readSome_polled 0 4 _).mono
  · intro _ after polled
    obtain ⟨_, polls⟩ := polled
    exact polls.deadline
  · intro stop after gaveUp
    have kept : after.deadline = idleDeadline now m.config.idle := by
      rcases gaveUp with ⟨_, _, _, polls, _⟩ | ⟨_, _, polls⟩
      · exact polls.deadline
      · exact polls.deadline
    cases stop with
    | code value => exact kept
    | exception message => exact kept
    | blocked => exact kept
    | fault => exact kept

theorem listen_keeps (now : Timespec) : Keeps ProtocolKept.settings (listen now) := by
  apply keeps_bind
  · exact keeps_modify fun _ => rfl
  intro _
  apply keeps_tryCatch
  · exact keeps_bind (ProtocolKept.readSome_keeps 0 4) fun _ => keeps_pure _
  · intro stop
    cases stop with
    | code value => exact keeps_pure value
    | exception message => exact keeps_throw _
    | blocked => exact keeps_throw _
    | fault => exact keeps_throw _

theorem waitidle_ends (now : Timespec) (clocks : List Timespec) (m : Protocol) :
    Ends (waitidle (now :: clocks)) m
      (fun value after => value = PROTO_ERR_TIMEOUT ∧
        ∃ reading ∈ now :: clocks, after.deadline = idleDeadline reading m.config.idle)
      (fun _ after => ∃ reading ∈ now :: clocks, after.deadline = idleDeadline reading m.config.idle) := by
  induction clocks generalizing now m with
  | nil =>
    rw [waitidle, ends_bind]
    apply (listen_deadline now m).mono
    · intro i middle deadline
      by_cases timeout : i = PROTO_ERR_TIMEOUT
      · rw [if_pos timeout, ends_pure]
        exact ⟨timeout, now, List.mem_cons_self, deadline⟩
      · rw [if_neg timeout]
        exact ⟨now, List.mem_cons_self, deadline⟩
    · intro _ after deadline
      exact ⟨now, List.mem_cons_self, deadline⟩
  | cons next clocks ih =>
    rw [waitidle, ends_bind]
    apply ((listen_deadline now m).and (listen_keeps now m)).mono
    · intro i middle done
      obtain ⟨deadline, kept⟩ := done
      have config : middle.config = m.config := congrArg Prod.fst kept
      by_cases timeout : i = PROTO_ERR_TIMEOUT
      · rw [if_pos timeout, ends_pure]
        exact ⟨timeout, now, List.mem_cons_self, deadline⟩
      · rw [if_neg timeout]
        have later := ih next middle
        rw [config] at later
        apply later.mono
        · intro value after ended
          obtain ⟨value_eq, reading, member, deadline'⟩ := ended
          exact ⟨value_eq, reading, List.mem_cons_of_mem _ member, deadline'⟩
        · intro _ after ended
          obtain ⟨reading, member, deadline'⟩ := ended
          exact ⟨reading, List.mem_cons_of_mem _ member, deadline'⟩
    · intro _ after gaveUp
      exact ⟨now, List.mem_cons_self, gaveUp.1⟩

/-- From a tenth of a second on it is too late by nine tenths of a second for each. -/
theorem idleDeadline_nanoseconds (now : Timespec) {idle : Int} (nonneg : 0 ≤ idle) :
    (idleDeadline now idle).nanoseconds =
      now.nanoseconds + idle * 1000 + idle / 100000 * 900000000 := by
  rw [idleDeadline_eq, Timespec.carried_nanoseconds, Int.tdiv_eq_ediv_of_nonneg nonneg,
    Int.tmod_eq_emod_of_nonneg nonneg, Timespec.nanoseconds]
  omega

theorem idleDeadline_normal {now : Timespec} (nowNormal : now.Normal) {idle : Int} (nonneg : 0 ≤ idle) :
    (idleDeadline now idle).Normal := by
  obtain ⟨low, high⟩ := nowNormal
  rw [idleDeadline_eq, Timespec.carried_normal, Int.tmod_eq_emod_of_nonneg nonneg]
  omega

end Waitidle

section Delaywait

def nextWriteFrom (stamp : Timespec) (delay : Int) : Timespec :=
  Timespec.carried stamp.sec (stamp.nsec + delay * 1000)

theorem readstamp_ends (stamp : Timespec) (m : Protocol) :
    Ends (readstamp stamp) m
      (fun _ after => after = { m with nextWrite := nextWriteFrom stamp m.config.delay })
      (fun _ _ => False) := by
  simp only [readstamp, ends_modify, nextWriteFrom, Timespec.carried]
  split <;> rfl

theorem nextWriteFrom_nanoseconds (stamp : Timespec) (delay : Int) :
    (nextWriteFrom stamp delay).nanoseconds = stamp.nanoseconds + delay * 1000 := by
  rw [nextWriteFrom, Timespec.carried_nanoseconds, Timespec.nanoseconds]
  omega

/-- The one carry is enough for a delay up to a second, and for a longer one only early in a second. -/
theorem nextWriteFrom_normal {stamp : Timespec} (stampNormal : stamp.Normal) {delay : Int}
    (nonneg : 0 ≤ delay) :
    (nextWriteFrom stamp delay).Normal ↔ stamp.nsec + delay * 1000 < 2000000000 := by
  obtain ⟨low, high⟩ := stampNormal
  rw [nextWriteFrom, Timespec.carried_normal]
  omega

/-- How `clock_nanosleep` comes back at `woke` from a sleep until the absolute time `request`: with
`EINVAL` at once if that is not normal, and not before it otherwise, unless a signal handler runs. -/
inductive Sleeps (request start : Timespec) (signal : Bool) (woke : Timespec) : Prop
  | invalid (bad : ¬request.Normal) (later : start.nanoseconds ≤ woke.nanoseconds)
  | slept (good : request.Normal) (later : start.nanoseconds ≤ woke.nanoseconds)
      (reached : request.nanoseconds ≤ woke.nanoseconds)
  | interrupted (caught : signal = true) (good : request.Normal)
      (later : start.nanoseconds ≤ woke.nanoseconds)

def delaywaits : List Timespec → Proto Unit
  | [] => pure ()
  | start :: starts => do
    delaywait start
    delaywaits starts

/-- `m_next_write` lets nothing out before the delay has passed since `stamp`. -/
structure Holds (stamp : Timespec) (delay : Int) (m : Protocol) : Prop where
  delay_eq : m.config.delay = delay
  nonneg : 0 ≤ delay
  normal : m.nextWrite.Normal
  late : stamp.nanoseconds + delay * 1000 ≤ m.nextWrite.nanoseconds
  /-- A time of zero is taken for none, and then a delay of up to a second is added to a new one. -/
  unset : m.nextWrite = ⟨0, 0⟩ → delay * 1000 ≤ 1000000000

theorem zero_delay {reading : Timespec} (normal : reading.Normal) {delay : Int}
    (zero : nextWriteFrom reading delay = ⟨0, 0⟩) : delay * 1000 ≤ 1000000000 := by
  obtain ⟨low, high⟩ := normal
  have nsec := congrArg Timespec.nsec zero
  simp only [nextWriteFrom, Timespec.carried] at nsec
  split at nsec
  · dsimp only at nsec
    omega
  · dsimp only at nsec
    omega

theorem Holds.delaywait {stamp start : Timespec} {delay : Int} {m : Protocol} (holds : Holds stamp delay m)
    (startNormal : start.Normal) (later : stamp.nanoseconds ≤ start.nanoseconds) :
    Ends (delaywait start) m (fun _ after => Holds stamp delay after) (fun _ _ => False) := by
  simp only [Protocol.delaywait, ends_bind, ends_get]
  by_cases zero : m.nextWrite.sec = 0 ∧ m.nextWrite.nsec = 0
  · rw [if_pos zero]
    have unset : m.nextWrite = ⟨0, 0⟩ := by
      calc
        m.nextWrite = ⟨m.nextWrite.sec, m.nextWrite.nsec⟩ := rfl
        _ = ⟨0, 0⟩ := by rw [zero.1, zero.2]
    have short := holds.unset unset
    refine (readstamp_ends start m).mono ?_ (fun _ _ => False.elim)
    intro _ after after_eq
    rw [after_eq, holds.delay_eq]
    refine ⟨holds.delay_eq, holds.nonneg, ?_, ?_, zero_delay startNormal⟩
    · rw [nextWriteFrom_normal startNormal holds.nonneg]
      obtain ⟨_, high⟩ := startNormal
      omega
    · rw [nextWriteFrom_nanoseconds]
      omega
  · rw [if_neg zero, ends_pure]
    exact holds

theorem Holds.delaywaits {stamp : Timespec} {delay : Int} {m : Protocol} (holds : Holds stamp delay m)
    (starts : List Timespec)
    (readings : ∀ start ∈ starts, start.Normal ∧ stamp.nanoseconds ≤ start.nanoseconds) :
    Ends (delaywaits starts) m (fun _ after => Holds stamp delay after) (fun _ _ => False) := by
  induction starts generalizing m with
  | nil => exact holds
  | cons start starts ih =>
    obtain ⟨startNormal, later⟩ := readings start List.mem_cons_self
    rw [Pauses.delaywaits, ends_bind]
    refine (holds.delaywait startNormal later).mono ?_ (fun _ _ => False.elim)
    intro _ middle holds'
    exact ih holds' fun other member => readings other (List.mem_cons_of_mem _ member)

end Delaywait

section Exact

variable (m : Protocol) (now stamp : Timespec) (signal : Bool)

/-- The time `micros` microseconds after a reading, as a valid argument for a timer. -/
structure Past (reading : Timespec) (micros : Int) (time : Timespec) : Prop where
  normal : time.Normal
  exact_eq : time.nanoseconds = reading.nanoseconds + micros * 1000

/-- However a round of `waitidle` that reads `now` ends, its deadline is right; and however a call that begins
with it ends, so is the one of the round it ends in. -/
structure IdleExact : Prop where
  round : Ends (listen now) m (fun _ after => Past now m.config.idle after.deadline)
    (fun _ after => Past now m.config.idle after.deadline)
  call : ∀ clocks : List Timespec, (∀ reading ∈ clocks, reading.Normal) →
    Ends (waitidle (now :: clocks)) m
      (fun _ after => ∃ reading ∈ now :: clocks, Past reading m.config.idle after.deadline)
      (fun _ after => ∃ reading ∈ now :: clocks, Past reading m.config.idle after.deadline)

def StampExact : Prop :=
  Ends (readstamp stamp) m (fun _ after => Past stamp m.config.delay after.nextWrite) (fun _ _ => False)

/-- After a receipt at `stamp`, whatever the later clock readings, no sleep of a `delaywait` ends
before the delay has passed. -/
def SendsLate : Prop :=
  ∀ (stamped later asleep : Protocol) (starts : List Timespec) (start woke : Timespec),
    (∀ reading ∈ starts ++ [start], reading.Normal ∧ stamp.nanoseconds ≤ reading.nanoseconds) →
    readstamp stamp m = .ok () stamped → delaywaits starts stamped = .ok () later →
    delaywait start later = .ok () asleep → Sleeps asleep.nextWrite start signal woke →
    stamp.nanoseconds + m.config.delay * 1000 ≤ woke.nanoseconds

variable {m now stamp signal}

theorem idleDeadline_past {reading : Timespec} (normal : reading.Normal) {idle : Int} (nonneg : 0 ≤ idle)
    (short : idle < 100000) : Past reading idle (idleDeadline reading idle) := by
  have value := idleDeadline_nanoseconds reading nonneg
  exact ⟨idleDeadline_normal normal nonneg, by omega⟩

theorem idleExact_iff (nowNormal : now.Normal) (nonneg : 0 ≤ m.config.idle) :
    IdleExact m now ↔ m.config.idle < 100000 := by
  constructor
  · intro exact_all
    have both := (listen_deadline now m).and exact_all.round
    have past : Past now m.config.idle (idleDeadline now m.config.idle) := by
      unfold Ends at both
      split at both
      · rw [← both.1]
        exact both.2
      · rw [← both.1]
        exact both.2
    have value := idleDeadline_nanoseconds now nonneg
    have exact_eq := past.exact_eq
    omega
  · intro short
    have past {reading after : Timespec} (normal : reading.Normal) (deadline : after = idleDeadline reading m.config.idle) :
        Past reading m.config.idle after := deadline ▸ idleDeadline_past normal nonneg short
    constructor
    · exact (listen_deadline now m).mono (fun _ _ => past nowNormal) (fun _ _ => past nowNormal)
    · intro clocks normal
      have all : ∀ reading ∈ now :: clocks, reading.Normal := List.forall_mem_cons.mpr ⟨nowNormal, normal⟩
      apply (waitidle_ends now clocks m).mono
      · rintro _ after ⟨_, reading, member, deadline⟩
        exact ⟨reading, member, past (all reading member) deadline⟩
      · rintro _ after ⟨reading, member, deadline⟩
        exact ⟨reading, member, past (all reading member) deadline⟩

theorem stampExact_iff (stampNormal : stamp.Normal) (nonneg : 0 ≤ m.config.delay) :
    StampExact m stamp ↔ stamp.nsec + m.config.delay * 1000 < 2000000000 := by
  rw [← nextWriteFrom_normal stampNormal nonneg]
  constructor
  · intro exact_all
    have both := (readstamp_ends stamp m).and exact_all
    unfold Ends at both
    split at both
    · have past := both.2
      rw [both.1] at past
      exact past.normal
    · exact both.1.elim
  · intro normal
    refine (readstamp_ends stamp m).mono ?_ (fun _ _ => False.elim)
    intro _ after after_eq
    rw [after_eq]
    exact ⟨normal, nextWriteFrom_nanoseconds stamp m.config.delay⟩

theorem delaywait_stamped (stamp : Timespec) (s : Protocol)
    (stamped : s.nextWrite = nextWriteFrom stamp s.config.delay) :
    Ends (delaywait stamp) s (fun _ after => after.nextWrite = s.nextWrite) (fun _ _ => False) := by
  simp only [delaywait, ends_bind, ends_get]
  split
  · refine (readstamp_ends stamp s).mono ?_ (fun _ _ => False.elim)
    intro _ after after_eq
    rw [after_eq, stamped]
  · rfl

/-- With a valid `m_next_write`, only a signal handler lets a frame out too early. -/
theorem sendsLate_iff (stampNormal : stamp.Normal) (nonneg : 0 ≤ m.config.delay)
    (normal : (nextWriteFrom stamp m.config.delay).Normal) :
    SendsLate m stamp signal ↔ signal = false ∨ m.config.delay = 0 := by
  have exact_eq := nextWriteFrom_nanoseconds stamp m.config.delay
  constructor
  · intro late
    by_contra woken
    rw [not_or, Bool.not_eq_false] at woken
    obtain ⟨caught, delayed⟩ := woken
    obtain ⟨_, stamped, run, stamped_eq⟩ := (readstamp_ends stamp m).returns
    obtain ⟨_, asleep, run', asleep_eq⟩ := (delaywait_stamped stamp stamped (by rw [stamped_eq])).returns
    have request : asleep.nextWrite.Normal := by
      rw [asleep_eq, stamped_eq]
      exact normal
    have early := late stamped stamped asleep [] stamp stamp (by simp [stampNormal]) run rfl run'
      (.interrupted caught request (le_refl _))
    omega
  · intro calm stamped later asleep starts start woke readings run runs runs' sleeps
    have stamped_eq := (readstamp_ends stamp m).of_ok run
    have holds : Holds stamp m.config.delay stamped := by
      rw [stamped_eq]
      exact ⟨rfl, nonneg, normal, exact_eq.ge, zero_delay stampNormal⟩
    obtain ⟨startNormal, after_stamp⟩ := readings start (by simp)
    have holds' := (holds.delaywaits starts fun reading member =>
      readings reading (List.mem_append_left _ member)).of_ok runs
    have asleepHolds := (holds'.delaywait startNormal after_stamp).of_ok runs'
    cases sleeps with
    | invalid bad _ => exact absurd asleepHolds.normal bad
    | slept _ _ reached => exact asleepHolds.late.trans reached
    | interrupted caught _ woken =>
      rcases calm with quiet | undelayed
      · rw [caught] at quiet
        cases quiet
      · rw [undelayed]
        omega

/-- All the timers of the two pauses are right, and no frame goes out before the delay after a
receipt has passed, exactly when `idle` is below a tenth of a second, one carry is enough for the
delay, and no signal handler runs while `delaywait` sleeps off a delay. -/
theorem pauses_exact_iff (nowNormal : now.Normal) (stampNormal : stamp.Normal)
    (idle_nonneg : 0 ≤ m.config.idle) (delay_nonneg : 0 ≤ m.config.delay) :
    (IdleExact m now ∧ StampExact m stamp ∧ SendsLate m stamp signal) ↔
      m.config.idle < 100000 ∧ stamp.nsec + m.config.delay * 1000 < 2000000000 ∧
        (signal = false ∨ m.config.delay = 0) := by
  rw [idleExact_iff nowNormal idle_nonneg, stampExact_iff stampNormal delay_nonneg]
  have late (short : stamp.nsec + m.config.delay * 1000 < 2000000000) :=
    @sendsLate_iff m stamp signal stampNormal delay_nonneg
      ((nextWriteFrom_normal stampNormal delay_nonneg).mpr short)
  constructor
  · intro holds
    obtain ⟨idle, short, sends⟩ := holds
    exact ⟨idle, short, (late short).mp sends⟩
  · intro holds
    obtain ⟨idle, short, calm⟩ := holds
    exact ⟨idle, short, (late short).mpr calm⟩

theorem pauses_exact_default :
    IdleExact (Protocol.construct ⟨0, 0, 100000, 300, 300⟩) ⟨5, 999999999⟩ ∧
      StampExact (Protocol.construct ⟨0, 0, 100000, 300, 300⟩) ⟨6, 999999999⟩ ∧
      SendsLate (Protocol.construct ⟨0, 0, 100000, 300, 300⟩) ⟨6, 999999999⟩ false :=
  (pauses_exact_iff (by decide) (by decide) (by decide) (by decide)).mpr (by decide)

/-- An idle time of a tenth of a second makes `waitidle` listen for a whole one. -/
theorem idle_tenfold :
    ¬∀ (m : Protocol) (now stamp : Timespec), now.Normal → stamp.Normal → 0 ≤ m.config.idle →
      0 ≤ m.config.delay → IdleExact m now ∧ StampExact m stamp ∧ SendsLate m stamp false := by
  intro always
  obtain ⟨idle, _⟩ := always (Protocol.construct ⟨0, 0, 100000, 300, 100000⟩) ⟨5, 0⟩ ⟨6, 0⟩ (by decide)
    (by decide) (by decide) (by decide)
  exact absurd ((idleExact_iff (by decide) (by decide)).mp idle) (by decide)

end Exact

end OsdpMaster.Pauses
