import Mathlib.Data.List.Induction
import Mathlib.Tactic.Common

/-!
Systems whose steps emit events, the runs they make, and what may be said of a
run from its single steps: invariants of state and history, and simulation by
another system that sees a part of the events.
-/

namespace OsdpMaster.Lib.Trace

variable {S A E T B F : Type}

/-- What the system is when it starts, with the events of its start, and its steps: `none` where an
action is not possible. -/
structure System (S A E : Type) where
  start : S
  startup : List E
  step : S → A → Option (S × List E)

/-- A run so far: the state it reached and all events. Each step meets the condition `ok` on the
state before it, the events before it and the action. -/
inductive Run (sys : System S A E) (ok : S → List E → A → Prop) : S → List E → Prop
  | start : Run sys ok sys.start sys.startup
  | step {s s' : S} {history events : List E} {action : A} (run : Run sys ok s history)
      (allowed : ok s history action) (stepped : sys.step s action = some (s', events)) :
      Run sys ok s' (history ++ events)

def free : S → List E → A → Prop := fun _ _ _ => True

/-- What the start satisfies and every allowed step keeps, all of a run satisfies. -/
theorem Run.invariant {sys : System S A E} {ok : S → List E → A → Prop} {I : S → List E → Prop}
    (start : I sys.start sys.startup)
    (kept : ∀ s history action s' events, Run sys ok s history → I s history → ok s history action →
      sys.step s action = some (s', events) → I s' (history ++ events))
    {s : S} {history : List E} (run : Run sys ok s history) : I s history := by
  induction run with
  | start => exact start
  | step run allowed stepped ih => exact kept _ _ _ _ _ run ih allowed stepped

/-- `sys` seen through `see` is a run of `sys'`: each of its steps is one step there, or none. -/
theorem Run.simulated {sys : System S A E} {sys' : System T B F} {ok : S → List E → A → Prop}
    {ok' : T → List F → B → Prop} {see : E → Option F} {R : S → T → Prop}
    (start : R sys.start sys'.start) (startup : sys.startup.filterMap see = sys'.startup)
    (stepped : ∀ s t history action s' events, R s t → Run sys ok s history → ok s history action →
      sys.step s action = some (s', events) →
      R s' t ∧ events.filterMap see = [] ∨
        ∃ t' action', R s' t' ∧ ok' t (history.filterMap see) action' ∧
          sys'.step t action' = some (t', events.filterMap see))
    {s : S} {history : List E} (run : Run sys ok s history) :
    ∃ t, R s t ∧ Run sys' ok' t (history.filterMap see) := by
  induction run with
  | start => exact ⟨sys'.start, start, startup ▸ .start⟩
  | step run allowed step ih =>
    obtain ⟨t, related, image⟩ := ih
    rw [List.filterMap_append]
    rcases stepped _ _ _ _ _ _ related run allowed step with ⟨still, unseen⟩ | ⟨t', action', after, allowed', step'⟩
    · rw [unseen, List.append_nil]
      exact ⟨t, still, image⟩
    · exact ⟨t', after, .step image allowed' step'⟩

instance (s : S) (history : List E) (action : A) : Decidable (free s history action) := isTrue trivial

/-- The actions in a row, from the state and history given; `none` if one is not allowed or not
possible. -/
def replay (sys : System S A E) (ok : S → List E → A → Prop) [∀ s history action, Decidable (ok s history action)]
    (s : S) (history : List E) : List A → Option (S × List E)
  | [] => some (s, history)
  | action :: actions =>
    if ok s history action then
      match sys.step s action with
      | none => none
      | some (after, events) => replay sys ok after (history ++ events) actions
    else none

section Replay

variable {sys : System S A E} {ok : S → List E → A → Prop} [∀ s history action, Decidable (ok s history action)]

theorem Run.replay {s after : S} {history later : List E} {actions : List A} (run : Run sys ok s history)
    (replayed : Trace.replay sys ok s history actions = some (after, later)) : Run sys ok after later := by
  induction actions generalizing s history with
  | nil =>
    cases replayed
    exact run
  | cons action actions ih =>
    simp only [Trace.replay] at replayed
    split at replayed
    next allowed =>
      split at replayed
      · cases replayed
      next middle events stepped => exact ih (.step run allowed stepped) replayed
    · cases replayed

theorem exists_run {actions : List A} {check : S × List E → Bool}
    (checked : (Trace.replay sys ok sys.start sys.startup actions).any check = true) :
    ∃ s history, Run sys ok s history ∧ check (s, history) = true := by
  obtain ⟨⟨s, history⟩, replayed, good⟩ := (Option.any_eq_true _ _).mp checked
  exact ⟨s, history, Run.start.replay replayed, good⟩

end Replay

section Paths

structure Step (S A E : Type) where
  before : S
  action : A
  after : S
  events : List E

variable {sys : System S A E}

inductive Path (sys : System S A E) : S → List (Step S A E) → S → Prop
  | nil (s : S) : Path sys s [] s
  | cons {s after : S} {steps : List (Step S A E)} (step : Step S A E) (here : step.before = s)
      (stepped : sys.step step.before step.action = some (step.after, step.events))
      (rest : Path sys step.after steps after) : Path sys s (step :: steps) after

theorem Path.split {s after : S} {first second : List (Step S A E)} (path : Path sys s (first ++ second) after) :
    ∃ middle, Path sys s first middle ∧ Path sys middle second after := by
  induction first generalizing s with
  | nil => exact ⟨s, .nil s, path⟩
  | cons step first ih =>
    cases path with
    | cons _ here stepped rest =>
      obtain ⟨middle, start, later⟩ := ih rest
      exact ⟨middle, .cons step here stepped start, later⟩

/-- What holds at the start of a path and is kept by each of its steps holds at its end; it may speak of
the steps `before` the path and of those since. -/
theorem Path.invariant {I : S → List (Step S A E) → Prop} {s after : S} {steps : List (Step S A E)}
    (path : Path sys s steps after) (before : List (Step S A E)) (start : I s before)
    (kept : ∀ earlier step, step ∈ steps → I step.before earlier →
      sys.step step.before step.action = some (step.after, step.events) →
      I step.after (earlier ++ [step])) : I after (before ++ steps) := by
  induction path generalizing before with
  | nil => simpa using start
  | cons step here stepped rest ih =>
    subst here
    have next := kept before step List.mem_cons_self start stepped
    have further := ih (before ++ [step]) next fun earlier later member => kept earlier later (List.mem_cons_of_mem _ member)
    rwa [List.append_assoc, List.singleton_append] at further

theorem Path.run {s after : S} {history : List E} {steps : List (Step S A E)} (path : Path sys s steps after)
    (before : Run sys free s history) : Run sys free after (history ++ steps.flatMap Step.events) := by
  induction path generalizing history with
  | nil => simpa using before
  | cons step here stepped rest ih =>
    subst here
    have next := ih (.step before trivial stepped)
    rwa [List.append_assoc, ← List.flatMap_cons] at next

def walk (sys : System S A E) (s : S) : List A → Option (List (Step S A E) × S)
  | [] => some ([], s)
  | action :: actions =>
    match sys.step s action with
    | none => none
    | some (middle, events) =>
      match walk sys middle actions with
      | none => none
      | some (steps, after) => some (⟨s, action, middle, events⟩ :: steps, after)

theorem path_of_walk {s after : S} {actions : List A} {steps : List (Step S A E)}
    (walked : walk sys s actions = some (steps, after)) : Path sys s steps after := by
  induction actions generalizing s steps with
  | nil =>
    cases walked
    exact .nil _
  | cons action actions ih =>
    simp only [walk] at walked
    split at walked
    · cases walked
    next middle events stepped =>
      split at walked
      · cases walked
      next later final rest =>
        cases walked
        exact .cons _ rfl stepped (ih rest)

end Paths

/-- Every event satisfies `P` after the events before it. -/
def Always (P : List E → E → Prop) (history : List E) : Prop :=
  ∀ before event after, history = before ++ event :: after → P before event

theorem always_nil (P : List E → E → Prop) : Always P [] := by
  intro before event after split
  simp at split

theorem always_snoc {P : List E → E → Prop} {history : List E} {event : E} :
    Always P (history ++ [event]) ↔ Always P history ∧ P history event := by
  constructor
  · intro all
    refine ⟨?_, all history event [] rfl⟩
    intro before earlier after split
    exact all before earlier (after ++ [event]) (by rw [split, List.append_assoc, List.cons_append])
  · intro ⟨all, last⟩ before earlier after split
    rcases List.eq_nil_or_concat after with none_after | ⟨middle, final, after_eq⟩
    · subst none_after
      obtain ⟨history_eq, event_eq⟩ := List.append_inj' split rfl
      cases event_eq
      exact history_eq ▸ last
    · subst after_eq
      rw [List.concat_eq_append, ← List.cons_append, ← List.append_assoc] at split
      obtain ⟨history_eq, _⟩ := List.append_inj' split rfl
      exact all before earlier middle history_eq

theorem always_append {P : List E → E → Prop} {history events : List E} :
    Always P (history ++ events) ↔
      Always P history ∧ Always (fun before event => P (history ++ before) event) events := by
  induction events using List.reverseRecOn with
  | nil => simp [always_nil]
  | append_singleton events event ih =>
    rw [← List.append_assoc, always_snoc, always_snoc, ih, and_assoc]

theorem always_cons {P : List E → E → Prop} {event : E} {events : List E} :
    Always P (event :: events) ↔
      P [] event ∧ Always (fun before later => P (event :: before) later) events := by
  have first : Always P [event] ↔ P [] event := by
    rw [← List.nil_append [event], always_snoc]
    exact and_iff_right (always_nil P)
  rw [← List.singleton_append, always_append, first]
  rfl

instance decidableAlways {P : List E → E → Prop} [∀ before event, Decidable (P before event)]
    (history : List E) : Decidable (Always P history) :=
  match history with
  | [] => isTrue (always_nil P)
  | event :: events =>
    have : Decidable (Always (fun before later => P (event :: before) later) events) := decidableAlways events
    decidable_of_iff _ always_cons.symm

theorem foldl_keeps {V : Type} {note : S → E → S} {events : List E} (view : S → V)
    (keeps : ∀ event ∈ events, ∀ s, view (note s event) = view s) (s : S) :
    view (events.foldl note s) = view s := by
  induction events generalizing s with
  | nil => rfl
  | cons event events ih =>
    calc
      view ((event :: events).foldl note s) = view (note s event) :=
        ih (fun later member => keeps later (List.mem_cons_of_mem _ member)) _
      _ = view s := keeps event List.mem_cons_self s

theorem always_of_forall {P : List E → E → Prop} {events : List E}
    (all : ∀ event ∈ events, ∀ before, P before event) : Always P events := by
  intro before event after split
  exact all event (split ▸ by simp) before

end OsdpMaster.Lib.Trace
