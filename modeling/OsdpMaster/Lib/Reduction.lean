import OsdpMaster.Lib.Trace

/-!
Runs with sections that other actions cut into. Where an action foreign to the
section at work can be put off past each step of it, every run can be put in an
order in which no section is cut into, and each observer sees the same.
-/

namespace OsdpMaster.Lib.Reduction
open OsdpMaster.Lib.Trace

variable {S A E F ι : Type} {sys : System S A E} {inside : S → Prop} {foreign : S → A → Prop}
  {see : ι → E → Option F}

/-- No observer can tell the orders of the events. -/
def Alike (see : ι → E → Option F) (first second : List E) : Prop :=
  ∀ i, first.filterMap (see i) = second.filterMap (see i)

/-- Foreign actions begin and end no section, and can be put off past each step of one. -/
structure Movers (sys : System S A E) (inside : S → Prop) (foreign : S → A → Prop) (see : ι → E → Option F) :
    Prop where
  keeps : ∀ {s s' : S} {action : A} {events : List E}, foreign s action → sys.step s action = some (s', events) →
    (inside s' ↔ inside s)
  moves : ∀ {s middle after : S} {late action : A} {out events : List E}, inside s → foreign s late →
    sys.step s late = some (middle, out) → ¬foreign middle action → sys.step middle action = some (after, events) →
    ¬foreign s action ∧ ∃ middle', sys.step s action = some (middle', events) ∧ foreign middle' late ∧
      sys.step middle' late = some (after, out) ∧ Alike see (events ++ out) (out ++ events)

def Apart (inside : S → Prop) (foreign : S → A → Prop) (s : S) (_ : List E) (action : A) : Prop :=
  inside s → ¬foreign s action

def Late (foreign : S → A → Prop) (steps : List (Step S A E)) : Prop :=
  ∀ step ∈ steps, foreign step.before step.action

theorem alike_append {first first' second second' : List E} (here : Alike see first first')
    (there : Alike see second second') : Alike see (first ++ second) (first' ++ second') := by
  intro i
  rw [List.filterMap_append, List.filterMap_append, here i, there i]

theorem Path.append {s middle after : S} {first second : List (Step S A E)} (here : Path sys s first middle)
    (there : Path sys middle second after) : Path sys s (first ++ second) after := by
  induction here with
  | nil => exact there
  | cons step here stepped rest ih => exact .cons step here stepped (ih there)

section Moving

variable (movers : Movers sys inside foreign see)

include movers

theorem inside_late {s after : S} {late : List (Step S A E)} (path : Path sys s late after) (all : Late foreign late) :
    inside after ↔ inside s := by
  induction path with
  | nil => exact Iff.rfl
  | cons step here stepped rest ih =>
    subst here
    rw [ih fun other member => all other (List.mem_cons_of_mem _ member)]
    exact movers.keeps (all step List.mem_cons_self) stepped

/-- A step of the section goes in front of everything foreign that came before it. -/
theorem moved {s middle after : S} {late : List (Step S A E)} {action : A} {events : List E}
    (path : Path sys s late middle) (all : Late foreign late) (open_section : inside s)
    (own : ¬foreign middle action) (stepped : sys.step middle action = some (after, events)) :
    ¬foreign s action ∧ ∃ s' late', sys.step s action = some (s', events) ∧ Path sys s' late' after ∧
      Late foreign late' ∧ Alike see (events ++ late'.flatMap Step.events) (late.flatMap Step.events ++ events) := by
  induction path with
  | nil => exact ⟨own, after, [], stepped, .nil _, by simp [Late], by simp [Alike]⟩
  | @cons _ _ steps step here first rest ih =>
    subst here
    have foreign_first := all step List.mem_cons_self
    have still := (movers.keeps foreign_first first).mpr open_section
    obtain ⟨own', between, late', stepped', path', all', alike⟩ :=
      ih (fun other member => all other (List.mem_cons_of_mem _ member)) still own stepped
    obtain ⟨own_now, s', now, foreign_now, later, swapped⟩ :=
      movers.moves open_section foreign_first first own' stepped'
    refine ⟨own_now, s', ⟨s', step.action, between, step.events⟩ :: late', now, .cons _ rfl later path', ?_, ?_⟩
    · intro other member
      rcases List.mem_cons.mp member with same | more
      · exact same ▸ foreign_now
      · exact all' other more
    · intro i
      rw [List.flatMap_cons, List.flatMap_cons]
      calc (events ++ (step.events ++ late'.flatMap Step.events)).filterMap (see i)
        _ = ((events ++ step.events) ++ late'.flatMap Step.events).filterMap (see i) := by rw [List.append_assoc]
        _ = ((step.events ++ events) ++ late'.flatMap Step.events).filterMap (see i) :=
            alike_append swapped (fun _ => rfl) i
        _ = (step.events ++ (events ++ late'.flatMap Step.events)).filterMap (see i) := by rw [List.append_assoc]
        _ = (step.events ++ (steps.flatMap Step.events ++ events)).filterMap (see i) :=
            alike_append (fun _ => rfl) alike i
        _ = ((step.events ++ steps.flatMap Step.events) ++ events).filterMap (see i) := by rw [List.append_assoc]

theorem flushed {s after : S} {history : List E} {late : List (Step S A E)} (path : Path sys s late after)
    (all : Late foreign late) (closed : ¬inside s) (run : Run sys (Apart inside foreign) s history) :
    Run sys (Apart inside foreign) after (history ++ late.flatMap Step.events) := by
  induction path generalizing history with
  | nil => simpa using run
  | cons step here stepped rest ih =>
    subst here
    have next : Run sys (Apart inside foreign) step.after (history ++ step.events) :=
      .step run (fun open_section => absurd open_section closed) stepped
    have still : ¬inside step.after := by
      rw [movers.keeps (all step List.mem_cons_self) stepped]
      exact closed
    have further := ih (fun other member => all other (List.mem_cons_of_mem _ member)) still next
    rwa [List.append_assoc, ← List.flatMap_cons] at further

/-- Every run is alike to one without cuts, with what is foreign to the section at its end still to come. -/
theorem serialized {s : S} {history : List E} (run : Run sys free s history) :
    ∃ start done late, Run sys (Apart inside foreign) start done ∧ Path sys start late s ∧ Late foreign late ∧
      Alike see (done ++ late.flatMap Step.events) history ∧ (¬inside s → late = []) := by
  induction run with
  | start => exact ⟨sys.start, sys.startup, [], .start, .nil _, by simp [Late], by simp [Alike], fun _ => rfl⟩
  | @step s s' history events action run _ stepped ih =>
    obtain ⟨start, done, late, serial, path, all, alike, flush⟩ := ih
    by_cases section_open : inside s
    · by_cases cuts : foreign s action
      · refine ⟨start, done, late ++ [⟨s, action, s', events⟩], serial,
          Path.append path (.cons _ rfl stepped (.nil _)), ?_, ?_, ?_⟩
        · intro step member
          rcases List.mem_append.mp member with before | now
          · exact all step before
          · exact List.mem_singleton.mp now ▸ cuts
        · rw [List.flatMap_append, ← List.append_assoc]
          exact alike_append alike (by simp [Alike])
        · intro closed
          exact absurd ((movers.keeps cuts stepped).mpr section_open) closed
      · have open_start := (inside_late movers path all).mp section_open
        obtain ⟨own, start', late', now, path', all', swapped⟩ := moved movers path all open_start cuts stepped
        have serial' : Run sys (Apart inside foreign) start' (done ++ events) := .step serial (fun _ => own) now
        have alike' : Alike see ((done ++ events) ++ late'.flatMap Step.events) (history ++ events) := by
          intro i
          calc ((done ++ events) ++ late'.flatMap Step.events).filterMap (see i)
            _ = (done ++ (events ++ late'.flatMap Step.events)).filterMap (see i) := by rw [List.append_assoc]
            _ = (done ++ (late.flatMap Step.events ++ events)).filterMap (see i) :=
                alike_append (fun _ => rfl) swapped i
            _ = ((done ++ late.flatMap Step.events) ++ events).filterMap (see i) := by rw [List.append_assoc]
            _ = (history ++ events).filterMap (see i) := alike_append alike (fun _ => rfl) i
        by_cases goes_on : inside s'
        · exact ⟨start', done ++ events, late', serial', path', all', alike', fun closed => absurd goes_on closed⟩
        · have closed : ¬inside start' := fun open_section => goes_on ((inside_late movers path' all').mpr open_section)
          refine ⟨s', _, [], flushed movers path' all' closed serial', .nil _, by simp [Late], ?_, fun _ => rfl⟩
          simpa [Alike] using alike'
    · have nothing := flush section_open
      subst nothing
      cases path
      refine ⟨s', done ++ events, [], .step serial (fun open_section => absurd open_section section_open) stepped,
        .nil _, by simp [Late], ?_, fun _ => rfl⟩
      have same : Alike see done history := by simpa using alike
      simpa using alike_append same (fun _ => rfl)

end Moving

end OsdpMaster.Lib.Reduction
