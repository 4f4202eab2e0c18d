import OsdpMaster.Bus
import OsdpMaster.Lib.RoundRobin

/-!
The selection loop of `slave_poll` as a cursor on the ring of slaves. Each call
moves `m_poll_slave` to the first slave after it that is defined and enabled,
and the slaves take turns, however the MQTT thread enables and disables them
between the calls.
-/

namespace OsdpMaster.Selection
open OsdpMaster.Protocol OsdpMaster.Slave OsdpMaster.SlavePoll OsdpMaster.Split OsdpMaster.Bus
open OsdpMaster.Lib.Trace OsdpMaster.Lib.RoundRobin

def pollableAt (slaves : List OsdpSlave) (a : Nat) : Bool := (slaves[a]?.map pollable).getD false

theorem pollableAt_lt {slaves : List OsdpSlave} {a : Nat} (ready : pollableAt slaves a = true) :
    a < slaves.length := by
  by_contra outside
  rw [pollableAt, List.getElem?_eq_none (Nat.le_of_not_lt outside)] at ready
  exact Bool.noConfusion ready

/-- The loop in so many rounds; no answer where they do not end it. -/
def selectionLoop (master : Master) (rounds : Nat) : Option Nat :=
  scan master.slaves.length (pollableAt master.slaves) master.pollSlave rounds master.pollSlave

theorem nextSlave_scan {slaves : List OsdpSlave} {current selected : Nat} (rounds a : Nat)
    (ended : scan slaves.length (pollableAt slaves) current rounds a = some selected) :
    nextSlave slaves current rounds a = selected := by
  induction rounds generalizing a with
  | zero => exact absurd ended (by simp [scan])
  | succ rounds ih =>
    show (if advance slaves.length a = current then advance slaves.length a
      else if pollableAt slaves (advance slaves.length a) then advance slaves.length a
      else nextSlave slaves current rounds (advance slaves.length a)) = selected
    simp only [scan] at ended
    split at ended
    next back =>
      rw [if_pos back]
      exact Option.some.inj ended
    next other =>
      rw [if_neg other]
      split at ended
      next ready =>
        rw [if_pos ready]
        exact Option.some.inj ended
      next unready =>
        rw [if_neg unready]
        exact ih _ ended

def Selects (master : Master) (a : Nat) : Prop :=
  ∃ after, select master = some (after, []) ∧ after.pollSlave = a

theorem select_turn {master : Master} (inside : master.pollSlave < master.slaves.length) :
    ∃ after, select master = some (after, []) ∧ after.slaves = master.slaves ∧
      after.pollSlave = turn master.slaves.length (pollableAt master.slaves) master.pollSlave := by
  obtain ⟨d, first, lands, ends⟩ := scan_first inside (pollableAt master.slaves)
  have there : nextSlave master.slaves master.pollSlave master.slaves.length master.pollSlave =
      turn master.slaves.length (pollableAt master.slaves) master.pollSlave := by
    rw [lands]
    exact nextSlave_scan _ _ (ends _ le_rfl)
  have found : turn master.slaves.length (pollableAt master.slaves) master.pollSlave < master.slaves.length :=
    turn_lt inside _
  rw [select, there, List.getElem?_eq_getElem found]
  exact ⟨_, rfl, rfl, rfl⟩

theorem selects_iff {master : Master} (inside : master.pollSlave < master.slaves.length) (a : Nat) :
    Selects master a ↔ turn master.slaves.length (pollableAt master.slaves) master.pollSlave = a := by
  obtain ⟨after, selected, _, lands⟩ := select_turn inside
  constructor
  · rintro ⟨after', selected', there⟩
    have same : after = after' := congrArg Prod.fst (Option.some.inj (selected.symm.trans selected'))
    rw [← lands, same]
    exact there
  · intro there
    exact ⟨after, selected, lands.trans there⟩

/-- What is left alone between one call and the next: the slaves may change in any way, but none comes or
goes, and `m_poll_slave` stays. -/
structure Between (master later : Master) : Prop where
  slaves : later.slaves.length = master.slaves.length
  cursor : later.pollSlave = master.pollSlave

theorem Between.trans {first second third : Master} (here : Between first second) (there : Between second third) :
    Between first third :=
  ⟨there.slaves.trans here.slaves, there.cursor.trans here.cursor⟩

/-- Inside a call, and in `message_callback`, this is all any step of the bus does to the list. -/
theorem step_between {master later : Master} {action : Action} {events : List (Nat × Event)}
    (stepped : step master action = some (later, events))
    (rest : ∀ t, action = .poll t → master.position ≠ .idle) : Between master later := by
  cases action with
  | poll t =>
    rw [step, if_neg (rest t rfl)] at stepped
    simp only [pollSelected] at stepped
    split at stepped
    · cases stepped
    · split at stepped
      · cases stepped
      · cases stepped
        exact ⟨List.length_set, rfl⟩
  | message topic payload =>
    simp only [step, messageCallback] at stepped
    split at stepped
    · cases stepped
    · cases stepped
      exact ⟨rfl, rfl⟩
    · split at stepped
      · cases stepped
      · cases stepped
        exact ⟨List.length_set, rfl⟩

/-- The steps of the bus from one selection to the next. -/
def Resting : Master → Master → Prop :=
  Relation.ReflTransGen (fun master later => ∃ action events, step master action = some (later, events) ∧
    ∀ t, action = .poll t → master.position ≠ .idle)

theorem Resting.between {master later : Master} (resting : Resting master later) : Between master later := by
  induction resting with
  | refl => exact ⟨rfl, rfl⟩
  | tail _ last ih =>
    obtain ⟨action, events, stepped, rest⟩ := last
    exact ih.trans (step_between stepped rest)

theorem run_inside {config : SerialConfig} {texts : List Bytes} (some_slave : texts ≠ []) {master : Master}
    {history : List (Nat × Event)} (run : Run (bus config texts) free master history) :
    master.pollSlave < master.slaves.length := by
  apply run.invariant (I := fun master _ => master.pollSlave < master.slaves.length)
  · show 0 < (texts.map addSlave).length
    rw [List.length_map]
    exact List.length_pos_iff.mpr some_slave
  · intro master history action later events _ inside _ stepped
    by_cases selection : ∃ t, action = .poll t ∧ master.position = .idle
    · obtain ⟨t, polled, idle⟩ := selection
      subst polled
      obtain ⟨after, selected, same, lands⟩ := select_turn inside
      have stepped : select master = some (later, events) := by
        rw [← stepped]
        exact (if_pos idle).symm
      cases selected.symm.trans stepped
      rw [same, lands]
      exact turn_lt inside _
    · have between := step_between stepped (fun t polled idle => selection ⟨t, polled, idle⟩)
      rw [between.slaves, between.cursor]
      exact inside

structure Calls (masters : Nat → Master) (count : Nat) : Prop where
  inside : (masters 0).pollSlave < (masters 0).slaves.length
  next : ∀ t, t < count → ∃ after, select (masters t) = some (after, []) ∧ Between after (masters (t + 1))

/-- Calls of the poll thread that follow each other from a state of a run are calls in a row, whatever the MQTT
thread does in the meantime. -/
theorem run_calls {config : SerialConfig} {texts : List Bytes} (some_slave : texts ≠ []) {masters : Nat → Master}
    {count : Nat} {history : List (Nat × Event)} (run : Run (bus config texts) free (masters 0) history)
    (called : ∀ t, t < count → ∃ after, select (masters t) = some (after, []) ∧ Resting after (masters (t + 1))) :
    Calls masters count where
  inside := run_inside some_slave run
  next := by
    intro t within
    obtain ⟨after, selected, resting⟩ := called t within
    exact ⟨after, selected, resting.between⟩

section Calls

variable {masters : Nat → Master} {count : Nat}

theorem Calls.kept (calls : Calls masters count) :
    ∀ t, t ≤ count → (masters t).slaves.length = (masters 0).slaves.length ∧
      (masters t).pollSlave < (masters 0).slaves.length := by
  intro t
  induction t with
  | zero =>
    intro _
    exact ⟨rfl, calls.inside⟩
  | succ t ih =>
    intro within
    obtain ⟨length, inside⟩ := ih (Nat.le_of_succ_le within)
    obtain ⟨after, selected, between⟩ := calls.next t within
    obtain ⟨after', selected', same, lands⟩ := select_turn (length ▸ inside)
    cases selected.symm.trans selected'
    rw [between.slaves, between.cursor, same, lands, length]
    exact ⟨rfl, turn_lt inside _⟩

theorem Calls.selects_iff (calls : Calls masters count) {t : Nat} (within : t < count) (a : Nat) :
    Selects (masters t) a ↔ (masters (t + 1)).pollSlave = a := by
  obtain ⟨after, selected, between⟩ := calls.next t within
  rw [between.cursor]
  constructor
  · rintro ⟨after', selected', there⟩
    cases selected.symm.trans selected'
    exact there
  · intro there
    exact ⟨after, selected, there⟩

theorem Calls.turns (calls : Calls masters count) :
    Turns (masters 0).slaves.length (fun t => pollableAt (masters t).slaves) (fun t => (masters t).pollSlave) count where
  inside := calls.inside
  turns := by
    intro t within
    obtain ⟨length, inside⟩ := calls.kept t (Nat.le_of_lt within)
    have lands := (Selection.selects_iff (length ▸ inside) _).mp
      ((calls.selects_iff within _).mpr rfl)
    rw [← lands, length]

end Calls

theorem card_places (slaves : List OsdpSlave) :
    (places slaves.length (pollableAt slaves)).card = slaves.countP pollable := by
  have listed : slaves.map pollable = (List.range slaves.length).map (pollableAt slaves) := by
    apply List.ext_getElem
    · simp
    · intro a inLeft inRight
      rw [List.length_map] at inLeft
      simp [pollableAt, inLeft]
  calc
    (places slaves.length (pollableAt slaves)).card
        = ((List.range slaves.length).filter (pollableAt slaves)).toFinset.card := by
      congr 1
      ext a
      simp [mem_places]
    _ = (List.range slaves.length).countP (pollableAt slaves) := by
      rw [List.toFinset_card_of_nodup (List.nodup_range.filter _), List.countP_eq_length_filter]
    _ = ((List.range slaves.length).map (pollableAt slaves)).countP id := by
      rw [List.countP_map]
      rfl
    _ = slaves.countP pollable := by
      rw [← listed, List.countP_map]
      rfl

/-- The loop ends, at the first pollable slave after the current one or back at the current one. A slave
that stays pollable is selected in as many calls as there are slaves, and while the pollable ones stay the
same, each is selected once in as many calls as there are of them. -/
theorem selection_fair :
    (∀ master : Master, master.pollSlave < master.slaves.length →
      ∃ d, First master.slaves.length (pollableAt master.slaves) master.pollSlave d ∧
        Selects master ((master.pollSlave + d) % master.slaves.length) ∧
        ∀ rounds, master.slaves.length ≤ rounds →
          selectionLoop master rounds = some ((master.pollSlave + d) % master.slaves.length)) ∧
    (∀ masters : Nat → Master, Calls masters (masters 0).slaves.length → ∀ i,
      (∀ t, t < (masters 0).slaves.length → pollableAt (masters t).slaves i = true) →
      ∃ t, t < (masters 0).slaves.length ∧ Selects (masters t) i) ∧
    (∀ masters : Nat → Master, Calls masters ((masters 0).slaves.countP pollable) →
      (∀ t, t < (masters 0).slaves.countP pollable → ∀ i,
        pollableAt (masters t).slaves i = pollableAt (masters 0).slaves i) →
      ∀ i, pollableAt (masters 0).slaves i = true →
        ∃! t, t < (masters 0).slaves.countP pollable ∧ Selects (masters t) i) := by
  refine ⟨?_, ?_, ?_⟩
  · intro master inside
    obtain ⟨d, first, lands, ends⟩ := scan_first inside (pollableAt master.slaves)
    exact ⟨d, first, (selects_iff inside _).mpr lands, ends⟩
  · intro masters calls i stays
    have place : i < (masters 0).slaves.length := pollableAt_lt (stays 0 (Nat.zero_lt_of_lt calls.inside))
    obtain ⟨t, within, visited⟩ := calls.turns.visited place stays
    exact ⟨t, within, (calls.selects_iff within i).mpr visited⟩
  · intro masters calls unchanged i ready
    have same : Turns (masters 0).slaves.length (fun _ => pollableAt (masters 0).slaves)
        (fun t => (masters t).pollSlave) (places (masters 0).slaves.length (pollableAt (masters 0).slaves)).card := by
      rw [card_places]
      exact calls.turns.congr (fun t within => funext (unchanged t within))
    obtain ⟨t, ⟨within, visited⟩, once⟩ := same.visited_once (pollableAt_lt ready) ready
    rw [card_places] at within
    refine ⟨t, ⟨within, (calls.selects_iff within i).mpr visited⟩, ?_⟩
    rintro s ⟨inside, selected⟩
    apply once s
    rw [card_places]
    exact ⟨inside, (calls.selects_iff inside i).mp selected⟩

def alternating (t : Nat) : Master :=
  ⟨[addSlave (ascii "5"), { addSlave (ascii "6") with enabled := false }, addSlave (ascii "7")],
    if t % 2 = 0 then 0 else 2, Protocol.construct plainPort, 0, 0, .idle⟩

theorem alternating_calls (count : Nat) : Calls alternating count where
  inside := by decide
  next := by
    intro t _
    have parity : t % 2 = 0 ∧ (t + 1) % 2 = 1 ∨ t % 2 = 1 ∧ (t + 1) % 2 = 0 := by omega
    rcases parity with ⟨here, there⟩ | ⟨here, there⟩
    · refine ⟨{ alternating t with pollSlave := 2, position := .offlineTest }, ?_, ?_⟩
      · simp only [alternating, here]
        rfl
      · exact ⟨rfl, by simp [alternating, there]⟩
    · refine ⟨{ alternating t with pollSlave := 0, position := .offlineTest }, ?_, ?_⟩
      · simp only [alternating, here]
        rfl
      · exact ⟨rfl, by simp [alternating, there]⟩

theorem selection_fair_three :
    (∃ d, First 3 (pollableAt (alternating 1).slaves) 2 d ∧ Selects (alternating 1) ((2 + d) % 3) ∧
      ∀ rounds, 3 ≤ rounds → selectionLoop (alternating 1) rounds = some ((2 + d) % 3)) ∧
    (∃ t, t < 3 ∧ Selects (alternating t) 2) ∧
    (∃! t, t < 2 ∧ Selects (alternating t) 0) :=
  ⟨selection_fair.1 (alternating 1) (by decide),
    selection_fair.2.1 alternating (alternating_calls 3) 2 (fun _ _ => rfl),
    selection_fair.2.2 alternating (alternating_calls 2) (fun _ _ _ => rfl) 0 rfl⟩

end OsdpMaster.Selection
