import OsdpMaster.OsdpDef

/-!
Variables that are null or point to a box of bytes, and the operations on them: a
copy points to the same box, a clone to one of its own. A box that one variable
points to is left alone by the operations on the others.
-/

namespace OsdpMaster.BlobShelf

/-- A box is never taken away. A variable that is destroyed has no pointer, and a null one points to no box. -/
structure Shelf where
  boxes : Nat → Option Bytes
  vars : List (Option (Option Nat))

/-- What operations do to variables; `name` is free, for a box to be made. -/
inductive Effect
  | construct (content : Option Bytes) (name : Nat)
  | copy (source : Nat)
  | assign (target source : Nat)
  | clear (target : Nat)
  | update (target : Nat) (content : Bytes) (name : Nat)
  | clone (source name : Nat)
  | destroy (target : Nat)
  deriving DecidableEq

def Shelf.empty : Shelf := ⟨fun _ => none, []⟩

def Shelf.pointer (shelf : Shelf) (v : Nat) : Option (Option Nat) := (shelf.vars[v]?).join

def Shelf.get (shelf : Shelf) (v : Nat) : Option Bytes :=
  match shelf.pointer v with
  | some (some box) => shelf.boxes box
  | _ => none

def Shelf.fill (shelf : Shelf) (box : Nat) (content : Bytes) : Shelf :=
  { shelf with boxes := Function.update shelf.boxes box (some content) }

def Shelf.add (shelf : Shelf) (pointer : Option Nat) : Shelf := { shelf with vars := shelf.vars ++ [some pointer] }

def Shelf.write (shelf : Shelf) (v : Nat) (pointer : Option (Option Nat)) : Shelf :=
  { shelf with vars := shelf.vars.set v pointer }

/-- One of them; no answer where a variable is not there or a name is not free. -/
def perform (shelf : Shelf) : Effect → Option Shelf
  | .construct none _ => some (shelf.add none)
  | .construct (some content) name =>
    if shelf.boxes name = none then some ((shelf.fill name content).add (some name)) else none
  | .copy source => (shelf.pointer source).map shelf.add
  | .assign target source =>
    match shelf.pointer target, shelf.pointer source with
    | some _, some pointer => some (shelf.write target (some pointer))
    | _, _ => none
  | .clear target => (shelf.pointer target).map fun _ => shelf.write target (some none)
  | .update target content name =>
    match shelf.pointer target with
    | none => none
    | some none =>
      if shelf.boxes name = none then some ((shelf.fill name content).write target (some (some name))) else none
    | some (some box) => some (shelf.fill box content)
  | .clone source name =>
    match shelf.pointer source with
    | none => none
    | some none => some (shelf.add none)
    | some (some box) =>
      match shelf.boxes box with
      | none => none
      | some content =>
        if shelf.boxes name = none then some ((shelf.fill name content).add (some name)) else none
  | .destroy target => (shelf.pointer target).map fun _ => shelf.write target none

def Shelf.Whole (shelf : Shelf) : Prop := ∀ v box, shelf.pointer v = some (some box) → shelf.boxes box ≠ none

theorem pointer_add {shelf : Shelf} {added : Option Nat} {v : Nat} {pointer : Option Nat}
    (there : (shelf.add added).pointer v = some pointer) : shelf.pointer v = some pointer ∨ pointer = added := by
  simp only [Shelf.pointer, Shelf.add] at there
  by_cases inside : v < shelf.vars.length
  · rw [List.getElem?_append_left inside] at there
    exact Or.inl there
  · rw [List.getElem?_append_right (Nat.le_of_not_lt inside)] at there
    cases place : v - shelf.vars.length with
    | zero =>
      rw [place] at there
      exact Or.inr (Option.some.inj there).symm
    | succ more =>
      rw [place] at there
      cases there

theorem pointer_write {shelf : Shelf} {v w : Nat} {written : Option (Option Nat)} {pointer : Option Nat}
    (there : (shelf.write v written).pointer w = some pointer) :
    shelf.pointer w = some pointer ∨ written = some pointer := by
  simp only [Shelf.pointer, Shelf.write] at there
  by_cases here : v = w
  · subst here
    by_cases inside : v < shelf.vars.length
    · rw [List.getElem?_set_self inside] at there
      exact Or.inr there
    · rw [List.getElem?_eq_none (by rw [List.length_set]; omega)] at there
      cases there
  · rw [List.getElem?_set_ne here] at there
    exact Or.inl there

section Whole

variable {shelf : Shelf}

theorem fill_some {box other : Nat} {content : Bytes} (there : shelf.boxes other ≠ none) :
    (shelf.fill box content).boxes other ≠ none := by
  simp only [Shelf.fill, Function.update_apply]
  split
  · exact Option.some_ne_none _
  · exact there

theorem fill_self {box : Nat} {content : Bytes} : (shelf.fill box content).boxes box = some content :=
  Function.update_self _ _ _

theorem fill_other {box other : Nat} {content : Bytes} (apart : other ≠ box) :
    (shelf.fill box content).boxes other = shelf.boxes other := Function.update_of_ne apart _ _

theorem Shelf.Whole.fill (whole : shelf.Whole) (box : Nat) (content : Bytes) : (shelf.fill box content).Whole :=
  fun v other there => fill_some (whole v other there)

theorem Shelf.Whole.add (whole : shelf.Whole) {pointer : Option Nat}
    (boxed : ∀ box, pointer = some box → shelf.boxes box ≠ none) : (shelf.add pointer).Whole := by
  intro v box there
  rcases pointer_add there with before | now
  · exact whole v box before
  · exact boxed box now.symm

theorem Shelf.Whole.write (whole : shelf.Whole) (v : Nat) {pointer : Option (Option Nat)}
    (boxed : ∀ box, pointer = some (some box) → shelf.boxes box ≠ none) : (shelf.write v pointer).Whole := by
  intro w box there
  rcases pointer_write there with before | now
  · exact whole w box before
  · exact boxed box now

theorem box_filled {box name : Nat} {content : Bytes} (same : some name = some box) :
    (shelf.fill name content).boxes box ≠ none := by
  cases same
  rw [fill_self]
  exact Option.some_ne_none _

theorem perform_whole {after : Shelf} {effect : Effect} (whole : shelf.Whole)
    (done : perform shelf effect = some after) : after.Whole := by
  cases effect with
  | construct content name =>
    cases content with
    | none =>
      cases done
      exact whole.add (fun box same => by cases same)
    | some content =>
      obtain ⟨_, same⟩ := Option.ite_none_right_eq_some.mp done
      cases same
      exact (whole.fill name content).add fun box => box_filled
  | copy source =>
    obtain ⟨pointer, there, same⟩ := Option.map_eq_some_iff.mp done
    subst same
    exact whole.add fun box points => whole source box (points ▸ there)
  | assign target source =>
    simp only [perform] at done
    split at done
    next _ pointer _ there =>
      cases done
      exact whole.write target fun box points => whole source box (there.trans points)
    · cases done
  | clear target =>
    obtain ⟨_, _, same⟩ := Option.map_eq_some_iff.mp done
    subst same
    exact whole.write target (fun box points => by cases points)
  | update target content name =>
    simp only [perform] at done
    split at done
    · cases done
    · obtain ⟨_, same⟩ := Option.ite_none_right_eq_some.mp done
      cases same
      exact (whole.fill name content).write target fun box points => box_filled (Option.some.inj points)
    · cases done
      exact whole.fill _ _
  | clone source name =>
    simp only [perform] at done
    split at done
    · cases done
    · cases done
      exact whole.add (fun box same => by cases same)
    · split at done
      · cases done
      · obtain ⟨_, same⟩ := Option.ite_none_right_eq_some.mp done
        cases same
        exact (whole.fill name _).add fun box => box_filled
  | destroy target =>
    obtain ⟨_, _, same⟩ := Option.map_eq_some_iff.mp done
    subst same
    exact whole.write target (fun box points => by cases points)

end Whole

section Sole

variable {shelf : Shelf} {v box : Nat}

def Effect.mentions : Effect → Nat → Prop
  | .construct _ _, _ => False
  | .copy source, v => source = v
  | .assign target source, v => target = v ∨ source = v
  | .clear target, v => target = v
  | .update target _ _, v => target = v
  | .clone source _, v => source = v
  | .destroy target, v => target = v

def Sole (shelf : Shelf) (v box : Nat) : Prop :=
  shelf.pointer v = some (some box) ∧ ∀ w, w ≠ v → shelf.pointer w ≠ some (some box)

theorem Sole.add (sole : Sole shelf v box) {pointer : Option Nat} (other : pointer ≠ some box) :
    Sole (shelf.add pointer) v box := by
  have inside : v < shelf.vars.length := by
    by_contra out
    have there := sole.1
    rw [Shelf.pointer, List.getElem?_eq_none (Nat.le_of_not_lt out)] at there
    cases there
  refine ⟨?_, ?_⟩
  · have there := sole.1
    rw [Shelf.pointer] at there ⊢
    rwa [Shelf.add, List.getElem?_append_left inside]
  · intro w apart there
    rcases pointer_add there with before | now
    · exact sole.2 w apart before
    · exact other now.symm

theorem Sole.write (sole : Sole shelf v box) {target : Nat} (elsewhere : target ≠ v) {pointer : Option (Option Nat)}
    (other : pointer ≠ some (some box)) : Sole (shelf.write target pointer) v box := by
  refine ⟨?_, ?_⟩
  · have there := sole.1
    rw [Shelf.pointer] at there ⊢
    rwa [Shelf.write, List.getElem?_set_ne elsewhere]
  · intro w apart there
    rcases pointer_write there with before | now
    · exact sole.2 w apart before
    · exact other now

theorem Sole.fill (sole : Sole shelf v box) (name : Nat) (content : Bytes) : Sole (shelf.fill name content) v box :=
  sole

theorem Sole.points (sole : Sole shelf v box) {source : Nat} (apart : source ≠ v) {pointer : Option Nat}
    (there : shelf.pointer source = some pointer) : pointer ≠ some box :=
  fun same => sole.2 source apart (there.trans (congrArg some same))

theorem Sole.unnamed (sole : Sole shelf v box) (whole : shelf.Whole) {name : Nat} (unused : shelf.boxes name = none) :
    box ≠ name := by
  rintro rfl
  exact whole v box sole.1 unused

theorem perform_sole {after : Shelf} {effect : Effect} (whole : shelf.Whole) (sole : Sole shelf v box)
    (apart : ¬effect.mentions v) (done : perform shelf effect = some after) :
    Sole after v box ∧ after.boxes box = shelf.boxes box := by
  cases effect with
  | construct content name =>
    cases content with
    | none =>
      cases done
      exact ⟨sole.add (Option.some_ne_none _).symm, rfl⟩
    | some content =>
      obtain ⟨unused, same⟩ := Option.ite_none_right_eq_some.mp done
      cases same
      have other := sole.unnamed whole unused
      exact ⟨(sole.fill name content).add fun same => other (Option.some.inj same).symm, fill_other other⟩
  | copy source =>
    obtain ⟨pointer, there, same⟩ := Option.map_eq_some_iff.mp done
    subst same
    exact ⟨sole.add (sole.points apart there), rfl⟩
  | assign target source =>
    simp only [perform] at done
    split at done
    next _ pointer _ there =>
      cases done
      obtain ⟨elsewhere, apart⟩ := not_or.mp apart
      exact ⟨sole.write elsewhere fun same => sole.points apart there (Option.some.inj same), rfl⟩
    · cases done
  | clear target =>
    obtain ⟨_, _, same⟩ := Option.map_eq_some_iff.mp done
    subst same
    exact ⟨sole.write apart (fun same => by cases same), rfl⟩
  | update target content name =>
    simp only [perform] at done
    split at done
    · cases done
    · obtain ⟨unused, same⟩ := Option.ite_none_right_eq_some.mp done
      cases same
      have other := sole.unnamed whole unused
      refine ⟨(sole.fill name content).write apart fun same => ?_, fill_other other⟩
      exact other (Option.some.inj (Option.some.inj same)).symm
    next c there =>
      cases done
      have other := sole.points apart there
      exact ⟨sole.fill _ _, fill_other fun same => other (congrArg some same.symm)⟩
  | clone source name =>
    simp only [perform] at done
    split at done
    · cases done
    · cases done
      exact ⟨sole.add (Option.some_ne_none _).symm, rfl⟩
    · split at done
      · cases done
      · obtain ⟨unused, same⟩ := Option.ite_none_right_eq_some.mp done
        cases same
        have other := sole.unnamed whole unused
        exact ⟨(sole.fill name _).add fun same => other (Option.some.inj same).symm, fill_other other⟩
  | destroy target =>
    obtain ⟨_, _, same⟩ := Option.map_eq_some_iff.mp done
    subst same
    exact ⟨sole.write apart (fun same => by cases same), rfl⟩

theorem perform_clone {after : Shelf} {source name : Nat} (whole : shelf.Whole)
    (points : shelf.pointer source = some (some box)) (done : perform shelf (.clone source name) = some after) :
    Sole after shelf.vars.length name ∧ after.boxes name = shelf.boxes box := by
  simp only [perform, points] at done
  split at done
  · cases done
  next content there =>
    obtain ⟨unused, same⟩ := Option.ite_none_right_eq_some.mp done
    cases same
    refine ⟨⟨?_, ?_⟩, fill_self.trans there.symm⟩
    · rw [Shelf.pointer, Shelf.add, Shelf.fill, List.getElem?_append_right (Nat.le_refl _), Nat.sub_self]
      rfl
    · intro w elsewhere there'
      have before : shelf.pointer w = some (some name) := by
        rw [Shelf.pointer, Shelf.add, Shelf.fill] at there'
        by_cases inside : w < shelf.vars.length
        · rwa [List.getElem?_append_left inside] at there'
        · rw [List.getElem?_eq_none (by simp; omega)] at there'
          cases there'
      exact whole w name before unused

end Sole

end OsdpMaster.BlobShelf
