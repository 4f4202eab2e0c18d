import Mathlib.Tactic.Common

/-!
Filters for the topics of a hierarchy, level by level: a name, a wildcard for one
level, and a wildcard at the end for all the levels that follow, if any. Topics and
filters are texts, with a symbol between the levels and one for each wildcard.
-/

namespace OsdpMaster.Lib.TopicFilter

section Levels

inductive Level (α : Type)
  | named (name : α)
  | any
  | rest
  deriving DecidableEq

variable {α : Type} [DecidableEq α]

def passes : List (Level α) → List α → Bool
  | [], [] => true
  | [.rest], _ => true
  | .any :: filter, _ :: topic => passes filter topic
  | .named name :: filter, level :: topic => level = name && passes filter topic
  | _, _ => false

theorem passes_named (names topic : List α) : passes (names.map .named) topic = true ↔ topic = names := by
  induction names generalizing topic with
  | nil => cases topic <;> simp [passes]
  | cons name names ih =>
    cases topic with
    | nil => simp [passes]
    | cons level topic => simp [passes, ih]

/-- Names and the wildcard for the rest let through what begins with the names. -/
theorem passes_below (names topic : List α) : passes (names.map .named ++ [.rest]) topic = true ↔ names <+: topic := by
  induction names generalizing topic with
  | nil => simp [passes]
  | cons name names ih =>
    cases topic with
    | nil => simp [passes]
    | cons level topic =>
      simp only [List.map_cons, List.cons_append, passes, Bool.and_eq_true, decide_eq_true_eq, ih, List.cons_prefix_cons]
      exact and_congr_left fun _ => eq_comm

end Levels

section Texts

variable {α : Type} [DecidableEq α] {sep one all : α}

omit [DecidableEq α] in
theorem intercalate_append {levels more : List (List α)} (some_levels : levels ≠ []) (some_more : more ≠ []) :
    [sep].intercalate (levels ++ more) = [sep].intercalate levels ++ sep :: [sep].intercalate more := by
  induction levels with
  | nil => exact absurd rfl some_levels
  | cons level levels ih =>
    by_cases last : levels = []
    · subst last
      rw [List.singleton_append, List.intercalate_cons_of_ne_nil some_more, List.intercalate_singleton,
        List.append_assoc, List.singleton_append]
    · have longer : levels ++ more ≠ [] := by simp [last]
      rw [List.cons_append, List.intercalate_cons_of_ne_nil longer, ih last, List.intercalate_cons_of_ne_nil last,
        ← List.append_assoc]

theorem splitOn_prefix (parent text : List α) :
    parent.splitOn sep <+: text.splitOn sep ↔ text = parent ∨ parent ++ [sep] <+: text := by
  constructor
  · rintro ⟨more, whole⟩
    have joined := congrArg [sep].intercalate whole
    rw [List.intercalate_splitOn] at joined
    by_cases none_more : more = []
    · rw [none_more, List.append_nil, List.intercalate_splitOn] at joined
      exact Or.inl joined.symm
    · rw [intercalate_append (List.splitOn_ne_nil sep parent) none_more, List.intercalate_splitOn] at joined
      exact Or.inr ⟨[sep].intercalate more, by rw [← joined, List.append_assoc, List.singleton_append]⟩
  · rintro (rfl | ⟨rest, rfl⟩)
    · exact List.prefix_rfl
    · rw [List.append_assoc, List.singleton_append, List.splitOn_append_cons_self]
      exact List.prefix_append _ _

theorem splitOn_inj {text text' : List α} (same : text.splitOn sep = text'.splitOn sep) : text = text' := by
  have joined : [sep].intercalate (text.splitOn sep) = text := List.intercalate_splitOn sep
  rw [← joined, same, List.intercalate_splitOn]

theorem mem_of_splitOn {text level : List α} {symbol : α} (here : level ∈ text.splitOn sep) (inside : symbol ∈ level) :
    symbol ∈ text := by
  induction text generalizing level with
  | nil =>
    rw [List.splitOn_nil, List.mem_singleton] at here
    exact here ▸ inside
  | cons first text ih =>
    rw [List.splitOn_cons_eq_if_modifyHead] at here
    split at here
    · rcases List.mem_cons.mp here with rfl | later
      · exact absurd inside List.not_mem_nil
      · exact List.mem_cons_of_mem _ (ih later inside)
    · cases levels : text.splitOn sep with
      | nil => exact absurd levels (List.splitOn_ne_nil sep text)
      | cons top others =>
        rw [levels, List.modifyHead_cons, List.mem_cons] at here
        rw [levels] at ih
        rcases here with rfl | later
        · rcases List.mem_cons.mp inside with rfl | deeper
          · exact List.mem_cons_self
          · exact List.mem_cons_of_mem _ (ih List.mem_cons_self deeper)
        · exact List.mem_cons_of_mem _ (ih (List.mem_cons_of_mem _ later) inside)

variable (sep one all)

def levelOf (level : List α) : Level (List α) :=
  if level = [one] then .any else if level = [all] then .rest else .named level

def accepts (filter topic : List α) : Bool := passes ((filter.splitOn sep).map (levelOf one all)) (topic.splitOn sep)

variable {sep one all} {text : List α} (no_one : one ∉ text) (no_all : all ∉ text)

include no_one no_all in
theorem map_levelOf : (text.splitOn sep).map (levelOf one all) = (text.splitOn sep).map .named := by
  apply List.map_congr_left
  intro level here
  have other {wildcard : α} (absent : wildcard ∉ text) : level ≠ [wildcard] :=
    fun same => absent (mem_of_splitOn here (same ▸ List.mem_singleton_self wildcard))
  rw [levelOf, if_neg (other no_one), if_neg (other no_all)]

include no_one no_all in
theorem accepts_exact (topic : List α) : accepts sep one all text topic = true ↔ topic = text := by
  rw [accepts, map_levelOf no_one no_all, passes_named]
  exact ⟨splitOn_inj, fun same => same ▸ rfl⟩

include no_one no_all in
theorem accepts_below (apart : all ≠ sep) (different : all ≠ one) (topic : List α) :
    accepts sep one all (text ++ [sep, all]) topic = true ↔ topic = text ∨ text ++ [sep] <+: topic := by
  have last : [all].splitOn sep = [[all]] := List.splitOn_eq_singleton (by simpa using apart.symm)
  have wildcard : levelOf one all [all] = .rest := by
    rw [levelOf, if_neg (by simpa using different), if_pos rfl]
  rw [accepts, List.splitOn_append_cons_self, last, List.map_append, map_levelOf no_one no_all, List.map_singleton, wildcard,
    passes_below, splitOn_prefix]

end Texts

end OsdpMaster.Lib.TopicFilter
