import Mathlib.Data.Finset.Card
import Mathlib.Dynamics.PeriodicPts.Defs
import Mathlib.Tactic.Common

/-!
A cursor on a ring of `n` places that goes on from place to place until it finds
an enabled one or is back where it started. However the places are enabled and
disabled between its turns, a place that stays enabled is visited in `n` turns;
while nothing changes, the enabled places are visited one after the other.
-/

namespace OsdpMaster.Lib.RoundRobin

variable {n current : Nat} {enabled : Nat → Bool}

def advance (n a : Nat) : Nat := if a + 1 = n then 0 else a + 1

/-- Goes on from `a` to an enabled place, or round to the current one; no answer within so many steps. -/
def scan (n : Nat) (enabled : Nat → Bool) (current : Nat) : Nat → Nat → Option Nat
  | 0, _ => none
  | steps + 1, a =>
    let a := advance n a
    if a = current then some a
    else if enabled a then some a
    else scan n enabled current steps a

/-- The first enabled place after the current one is `d` places ahead; it is the current one, all `n`
places ahead, where no other is enabled. -/
structure First (n : Nat) (enabled : Nat → Bool) (current d : Nat) : Prop where
  ahead : 0 < d
  round : d ≤ n
  skipped : ∀ e, 0 < e → e < d → enabled ((current + e) % n) = false
  stops : d < n → enabled ((current + d) % n) = true

theorem advance_mod (ring : 0 < n) (a : Nat) : advance n (a % n) = (a + 1) % n := by
  have inside := Nat.mod_lt a ring
  rw [advance, ← Nat.mod_add_mod a n 1]
  split
  next last => rw [last, Nat.mod_self]
  next more => exact (Nat.mod_eq_of_lt (by omega)).symm

theorem ahead_ne {e : Nat} (ahead : 0 < e) (short : e < n) :
    (current + e) % n ≠ current := by
  intro same
  have divides := Nat.div_add_mod (current + e) n
  rw [same] at divides
  have whole : n * ((current + e) / n) = e := by omega
  cases quotient : (current + e) / n with
  | zero => rw [quotient] at whole; omega
  | succ rounds =>
    rw [quotient, Nat.mul_succ] at whole
    omega

theorem exists_first (ring : 0 < n) (enabled : Nat → Bool) (current : Nat) :
    ∃ d, First n enabled current d := by
  have stop : ∃ d, 0 < d ∧ (d = n ∨ enabled ((current + d) % n) = true) := ⟨n, ring, .inl rfl⟩
  have found := Nat.find_spec stop
  have least : ∀ e, e < Nat.find stop → ¬(0 < e ∧ (e = n ∨ enabled ((current + e) % n) = true)) :=
    fun e before => Nat.find_min stop before
  exact ⟨Nat.find stop, {
    ahead := found.1
    round := Nat.find_min' stop ⟨ring, .inl rfl⟩
    skipped := by
      intro e ahead before
      have passed := least e before
      simp only [ahead, true_and, not_or, Bool.not_eq_true] at passed
      exact passed.2
    stops := by
      intro short
      cases found.2 with
      | inl whole => omega
      | inr on => exact on }⟩

theorem First.scan {d : Nat} (first : First n enabled current d) (inside : current < n) :
    ∀ steps e, e < d → d - e ≤ steps →
      RoundRobin.scan n enabled current steps ((current + e) % n) = some ((current + d) % n) := by
  intro steps
  induction steps with
  | zero =>
    intro e before enough
    omega
  | succ steps ih =>
    intro e before enough
    have ring : 0 < n := by omega
    simp only [RoundRobin.scan, advance_mod ring, Nat.add_assoc]
    rcases Nat.lt_or_eq_of_le (Nat.succ_le_of_lt before) with passing | arrived
    · -- Not there yet: this place is not the current one, and it is disabled.
      have short : e + 1 < n := Nat.lt_of_lt_of_le passing first.round
      rw [if_neg (ahead_ne (Nat.succ_pos e) short), first.skipped (e + 1) (Nat.succ_pos e) passing]
      exact ih (e + 1) passing (by omega)
    · subst arrived
      split
      · rfl
      next other =>
        have short : e + 1 < n := by
          rcases Nat.lt_or_eq_of_le first.round with short | whole
          · exact short
          · rw [show e + 1 = n from whole, Nat.add_mod_right, Nat.mod_eq_of_lt inside] at other
            exact absurd rfl other
        have on : enabled ((current + (e + 1)) % n) = true := first.stops short
        rw [on, if_pos rfl]

def turn (n : Nat) (enabled : Nat → Bool) (current : Nat) : Nat :=
  (scan n enabled current n current).getD current

theorem scan_first (inside : current < n) (enabled : Nat → Bool) :
    ∃ d, First n enabled current d ∧ turn n enabled current = (current + d) % n ∧
      ∀ steps, n ≤ steps → scan n enabled current steps current = some ((current + d) % n) := by
  obtain ⟨d, first⟩ := exists_first (Nat.zero_lt_of_lt inside) enabled current
  have ends : ∀ steps, n ≤ steps → scan n enabled current steps current = some ((current + d) % n) := by
    intro steps enough
    have run := first.scan inside steps 0 first.ahead (by have := first.round; omega)
    rwa [Nat.add_zero, Nat.mod_eq_of_lt inside] at run
  exact ⟨d, first, by rw [turn, ends n le_rfl, Option.getD_some], ends⟩

theorem turn_lt (inside : current < n) (enabled : Nat → Bool) : turn n enabled current < n := by
  obtain ⟨d, first, lands, ends⟩ := scan_first inside enabled
  rw [lands]
  exact Nat.mod_lt _ (Nat.zero_lt_of_lt inside)

theorem turn_enabled (inside : current < n) {i : Nat} (place : i < n) (on : enabled i = true) :
    enabled (turn n enabled current) = true := by
  obtain ⟨d, first, lands, ends⟩ := scan_first inside enabled
  rw [lands]
  rcases Nat.lt_or_eq_of_le first.round with short | whole
  · exact first.stops short
  · subst whole
    rw [Nat.add_mod_right, Nat.mod_eq_of_lt inside]
    by_cases same : i = current
    · rw [← same]
      exact on
    · -- Any other place was passed, so it is disabled.
      have behind : (current + (i + d - current) % d) % d = i := by
        rw [Nat.add_mod_mod, show current + (i + d - current) = i + d by omega, Nat.add_mod_right,
          Nat.mod_eq_of_lt place]
      have ahead : 0 < (i + d - current) % d := by
        rcases Nat.eq_zero_or_pos ((i + d - current) % d) with still | ahead
        · rw [still, Nat.add_zero, Nat.mod_eq_of_lt inside] at behind
          exact absurd behind.symm same
        · exact ahead
      have off := first.skipped _ ahead (Nat.mod_lt _ (by omega))
      rw [behind, on] at off
      exact Bool.noConfusion off

/-- The first `count` turns of a cursor, each with the places that are enabled at it. -/
structure Turns (n : Nat) (enabled : Nat → Nat → Bool) (cursor : Nat → Nat) (count : Nat) : Prop where
  inside : cursor 0 < n
  turns : ∀ t, t < count → cursor (t + 1) = turn n (enabled t) (cursor t)

section Turns

variable {cursor : Nat → Nat} {count i : Nat}

theorem Turns.lt {enabled : Nat → Nat → Bool} (turns : Turns n enabled cursor count) :
    ∀ t, t ≤ count → cursor t < n := by
  intro t
  induction t with
  | zero =>
    intro _
    exact turns.inside
  | succ t ih =>
    intro within
    rw [turns.turns t within]
    exact turn_lt (ih (Nat.le_of_succ_le within)) (enabled t)

theorem Turns.congr {enabled enabled' : Nat → Nat → Bool} (turns : Turns n enabled cursor count)
    (same : ∀ t, t < count → enabled t = enabled' t) : Turns n enabled' cursor count where
  inside := turns.inside
  turns := by
    intro t within
    rw [← same t within]
    exact turns.turns t within

/-- Until it is visited, a place that stays enabled comes nearer with each turn. -/
theorem Turns.nearer {enabled : Nat → Nat → Bool} (turns : Turns n enabled cursor count) (place : i < n)
    (on : ∀ t, t < count → enabled t i = true) :
    ∀ t, t ≤ count →
      (∃ s, s < t ∧ cursor (s + 1) = i) ∨ ∃ e, 0 < e ∧ e + t ≤ n ∧ (cursor t + e) % n = i := by
  intro t
  induction t with
  | zero =>
    intro _
    right
    have inside := turns.inside
    rcases Nat.lt_or_ge (cursor 0) i with before | behind
    · refine ⟨i - cursor 0, by omega, by omega, ?_⟩
      rw [show cursor 0 + (i - cursor 0) = i by omega, Nat.mod_eq_of_lt place]
    · refine ⟨i + n - cursor 0, by omega, by omega, ?_⟩
      rw [show cursor 0 + (i + n - cursor 0) = i + n by omega, Nat.add_mod_right, Nat.mod_eq_of_lt place]
  | succ t ih =>
    intro within
    rcases ih (Nat.le_of_succ_le within) with ⟨s, before, visited⟩ | ⟨e, ahead, near, there⟩
    · exact .inl ⟨s, Nat.lt_succ_of_lt before, visited⟩
    · obtain ⟨d, first, lands, _⟩ := scan_first (turns.lt t (Nat.le_of_succ_le within)) (enabled t)
      rw [← turns.turns t within] at lands
      rcases Nat.lt_trichotomy d e with short | same | far
      · -- The cursor stops before the place, at least one step nearer.
        right
        refine ⟨e - d, by omega, by have := first.ahead; omega, ?_⟩
        rw [lands, Nat.mod_add_mod, show cursor t + d + (e - d) = cursor t + e by omega]
        exact there
      · left
        refine ⟨t, Nat.lt_succ_self t, ?_⟩
        rw [lands, same]
        exact there
      · -- It does not pass a place that is enabled.
        have off := first.skipped e ahead far
        rw [there, on t within] at off
        exact Bool.noConfusion off

/-- No starvation: a place that stays enabled is visited in `n` turns. -/
theorem Turns.visited {enabled : Nat → Nat → Bool} (turns : Turns n enabled cursor n) (place : i < n)
    (on : ∀ t, t < n → enabled t i = true) : ∃ t, t < n ∧ cursor (t + 1) = i := by
  rcases turns.nearer place on n le_rfl with visited | ⟨e, ahead, near, _⟩
  · exact visited
  · omega

end Turns

section Unchanged

variable {cursor : Nat → Nat} {count i : Nat}

def places (n : Nat) (enabled : Nat → Bool) : Finset Nat :=
  (Finset.range n).filter (fun i => enabled i = true)

theorem mem_places : i ∈ places n enabled ↔ i < n ∧ enabled i = true := by
  simp only [places, Finset.mem_filter, Finset.mem_range]

theorem Turns.iterate (turns : Turns n (fun _ => enabled) cursor count) :
    ∀ t, t ≤ count → cursor t = (turn n enabled)^[t] (cursor 0) := by
  intro t
  induction t with
  | zero =>
    intro _
    rfl
  | succ t ih =>
    intro within
    rw [turns.turns t within, ih (Nat.le_of_succ_le within), Function.iterate_succ_apply']

theorem iterate_turns (inside : current < n) (enabled : Nat → Bool) (count : Nat) :
    Turns n (fun _ => enabled) (fun t => (turn n enabled)^[t] current) count where
  inside := inside
  turns := by
    intro t _
    exact Function.iterate_succ_apply' _ t current

/-- A place the cursor comes back to after `p` turns is on a round of all enabled places. -/
theorem card_places_le {p : Nat} (inside : current < n) (ahead : 0 < p)
    (back : (turn n enabled)^[p] current = current) : (places n enabled).card ≤ p := by
  have covered : places n enabled ⊆ (Finset.range p).image (fun t => (turn n enabled)^[t] current) := by
    intro i member
    obtain ⟨place, on⟩ := mem_places.mp member
    obtain ⟨t, _, visited⟩ := (iterate_turns inside enabled n).visited place (fun _ _ => on)
    have periodic : Function.IsPeriodicPt (turn n enabled) p current := back
    refine Finset.mem_image.mpr ⟨(t + 1) % p, Finset.mem_range.mpr (Nat.mod_lt _ ahead), ?_⟩
    exact (periodic.iterate_mod_apply (t + 1)).trans visited
  calc
    (places n enabled).card ≤ ((Finset.range p).image (fun t => (turn n enabled)^[t] current)).card :=
      Finset.card_le_card covered
    _ ≤ (Finset.range p).card := Finset.card_image_le
    _ = p := Finset.card_range p

theorem Turns.injective (turns : Turns n (fun _ => enabled) cursor count)
    (few : count ≤ (places n enabled).card) {s t : Nat} (before : s < t) (within : t < count) :
    cursor (s + 1) ≠ cursor (t + 1) := by
  intro same
  have period : (turn n enabled)^[t - s] (cursor (s + 1)) = cursor (s + 1) := by
    calc
      (turn n enabled)^[t - s] (cursor (s + 1))
          = (turn n enabled)^[t - s] ((turn n enabled)^[s + 1] (cursor 0)) := by
        rw [turns.iterate (s + 1) (by omega)]
      _ = (turn n enabled)^[t + 1] (cursor 0) := by
        rw [← Function.iterate_add_apply, show t - s + (s + 1) = t + 1 by omega]
      _ = cursor (s + 1) := by rw [← turns.iterate (t + 1) (by omega), same]
  have round := card_places_le (turns.lt (s + 1) (by omega)) (Nat.sub_pos_of_lt before) period
  omega

/-- While nothing changes, as many turns as there are enabled places visit each of them once. -/
theorem Turns.visited_once (turns : Turns n (fun _ => enabled) cursor (places n enabled).card)
    (place : i < n) (on : enabled i = true) :
    ∃! t, t < (places n enabled).card ∧ cursor (t + 1) = i := by
  have maps : ∀ t ∈ Finset.range (places n enabled).card, cursor (t + 1) ∈ places n enabled := by
    intro t member
    have within := Finset.mem_range.mp member
    rw [turns.turns t within]
    have here := turns.lt t (Nat.le_of_lt within)
    exact mem_places.mpr ⟨turn_lt here enabled, turn_enabled here place on⟩
  have different : ∀ s t, s < (places n enabled).card → t < (places n enabled).card →
      cursor (s + 1) = cursor (t + 1) → s = t := by
    intro s t inS inT same
    rcases Nat.lt_trichotomy s t with before | equal | after
    · exact absurd same (turns.injective le_rfl before inT)
    · exact equal
    · exact absurd same.symm (turns.injective le_rfl after inS)
  have onto : (Finset.range (places n enabled).card).image (fun t => cursor (t + 1)) = places n enabled := by
    apply Finset.eq_of_subset_of_card_le
    · intro j member
      obtain ⟨t, within, lands⟩ := Finset.mem_image.mp member
      exact lands ▸ maps t within
    · rw [Finset.card_image_of_injOn, Finset.card_range]
      intro s inS t inT same
      exact different s t (Finset.mem_range.mp inS) (Finset.mem_range.mp inT) same
  have member : i ∈ (Finset.range (places n enabled).card).image (fun t => cursor (t + 1)) := by
    rw [onto]
    exact mem_places.mpr ⟨place, on⟩
  obtain ⟨t, within, lands⟩ := Finset.mem_image.mp member
  refine ⟨t, ⟨Finset.mem_range.mp within, lands⟩, ?_⟩
  rintro s ⟨inS, there⟩
  exact different s t inS (Finset.mem_range.mp within) (there.trans lands.symm)

end Unchanged

end OsdpMaster.Lib.RoundRobin
