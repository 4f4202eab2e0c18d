import OsdpMaster.Lib.Trace

/-!
Monitors: automata that look at the events of a system one after the other and
say, from what came before, which event may come next. A run that a monitor
follows to its end never does anything else.
-/

namespace OsdpMaster.Lib.Monitor
open OsdpMaster.Lib.Trace

variable {S A E Q : Type} {next : Q → E → Option Q}

/-- Where the events lead the monitor; `none` if one of them may not come. -/
def follow (next : Q → E → Option Q) (q : Q) : List E → Option Q
  | [] => some q
  | event :: events => (next q event).bind fun q => follow next q events

theorem follow_append (q : Q) (first second : List E) :
    follow next q (first ++ second) = (follow next q first).bind fun q => follow next q second := by
  induction first generalizing q with
  | nil => rfl
  | cons event first ih =>
    cases reached : next q event with
    | none => simp [follow, reached]
    | some middle => simp [follow, reached, ih]

theorem follow_split {q last : Q} {before after : List E} {event : E}
    (followed : follow next q (before ++ event :: after) = some last) :
    ∃ here there, follow next q before = some here ∧ next here event = some there ∧
      follow next there after = some last := by
  rw [follow_append, Option.bind_eq_some_iff] at followed
  obtain ⟨here, first, rest⟩ := followed
  obtain ⟨there, moved, later⟩ := Option.bind_eq_some_iff.mp rest
  exact ⟨here, there, first, moved, later⟩

theorem follow_quiet {q : Q} {events : List E} (quiet : ∀ event ∈ events, next q event = some q) :
    follow next q events = some q := by
  induction events with
  | nil => rfl
  | cons event events ih =>
    rw [follow, quiet event List.mem_cons_self]
    exact ih fun later member => quiet later (List.mem_cons_of_mem _ member)

theorem follow_inside (region : Q → Prop) (exit : E → Prop)
    (stays : ∀ q event q', region q → ¬exit event → next q event = some q' → region q') {q last : Q}
    {events : List E} (inside : region q) (no_exit : ∀ event ∈ events, ¬exit event)
    (followed : follow next q events = some last) : region last := by
  induction events generalizing q with
  | nil =>
    cases followed
    exact inside
  | cons event events ih =>
    obtain ⟨middle, moved, rest⟩ := Option.bind_eq_some_iff.mp followed
    exact ih (stays q event middle inside (no_exit event List.mem_cons_self) moved)
      (fun later member => no_exit later (List.mem_cons_of_mem _ member)) rest

/-- Every run is followed, if every step is from wherever the monitor may stand. -/
theorem follow_run {sys : System S A E} {ok : S → List E → A → Prop} {R : S → Q → Prop} {first : Q}
    (start : ∃ q, follow next first sys.startup = some q ∧ R sys.start q)
    (stepped : ∀ s history action s' events q, Run sys ok s history → R s q → ok s history action →
      sys.step s action = some (s', events) → ∃ q', follow next q events = some q' ∧ R s' q')
    {s : S} {history : List E} (run : Run sys ok s history) :
    ∃ q, follow next first history = some q ∧ R s q := by
  apply run.invariant (I := fun s history => ∃ q, follow next first history = some q ∧ R s q)
  · exact start
  · rintro s history action s' events run ⟨q, followed, related⟩ allowed step
    obtain ⟨q', more, related'⟩ := stepped s history action s' events q run related allowed step
    refine ⟨q', ?_, related'⟩
    rw [follow_append, followed]
    exact more

end OsdpMaster.Lib.Monitor
