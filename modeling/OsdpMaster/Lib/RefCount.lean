import Mathlib.Tactic.Common

/-!
A heap of cells that count the references to them in a machine integer, and the
account such a heap keeps: each counter shows the number of references, and the
cells without one are the deleted ones. An access to a deleted cell has no
result.
-/

namespace OsdpMaster.Lib.RefCount

/-- A cell with a counter of `w` bits. A deleted one keeps its place. -/
structure Cell (w : Nat) (α : Type) where
  count : BitVec w
  content : α
  deleted : Bool
  deriving DecidableEq

variable {w : Nat} {α : Type}

abbrev CellHeap (w : Nat) (α : Type) := List (Cell w α)

def access (heap : CellHeap w α) (a : Nat) : Option (Cell w α) :=
  match heap[a]? with
  | none => none
  | some cell => if cell.deleted then none else some cell

def increment (heap : CellHeap w α) (a : Nat) : Option (CellHeap w α) :=
  (access heap a).map (fun cell => heap.set a { cell with count := cell.count + 1 })

def decrement (heap : CellHeap w α) (a : Nat) : Option (CellHeap w α) :=
  (access heap a).map (fun cell =>
    heap.set a { cell with count := cell.count - 1, deleted := cell.count - 1 = 0 })

/-- A new cell, with one reference, goes to the place `heap.length`. -/
def allocate (heap : CellHeap w α) (content : α) : CellHeap w α := heap ++ [⟨1, content, false⟩]

def store (heap : CellHeap w α) (a : Nat) (content : α) : Option (CellHeap w α) :=
  (access heap a).map (fun cell => heap.set a { cell with content := content })

/-- What one pointer adds to the references of the cell at `a`. -/
def one (pointer : Option Nat) (a : Nat) : Nat := if pointer = some a then 1 else 0

@[simp] theorem one_none (a : Nat) : one none a = 0 := rfl

@[simp] theorem one_self (a : Nat) : one (some a) a = 1 := if_pos rfl

theorem one_ne {a b : Nat} (other : a ≠ b) : one (some a) b = 0 :=
  if_neg (fun same => other (Option.some.inj same))

structure Accounts (heap : CellHeap w α) (refs : Nat → Nat) : Prop where
  counted : ∀ a cell, heap[a]? = some cell →
    cell.count = BitVec.ofNat w (refs a) ∧ (cell.deleted = true ↔ refs a = 0)
  outside : ∀ a, heap.length ≤ a → refs a = 0

section Accounts

variable {heap : CellHeap w α} {refs refs' : Nat → Nat} {a : Nat}

theorem accounts_nil : Accounts ([] : CellHeap w α) (fun _ => 0) where
  counted := by
    intro a cell there
    cases there
  outside := fun _ _ => rfl

theorem Accounts.access (accounts : Accounts heap refs) (held : 0 < refs a) :
    ∃ cell, RefCount.access heap a = some cell ∧ heap[a]? = some cell ∧ cell.deleted = false := by
  have inside : a < heap.length := by
    by_contra out
    rw [accounts.outside a (Nat.le_of_not_lt out)] at held
    exact absurd held (Nat.lt_irrefl 0)
  have there : heap[a]? = some heap[a] := List.getElem?_eq_getElem inside
  have live : heap[a].deleted = false := by
    by_contra gone
    rw [Bool.not_eq_false] at gone
    have empty := (accounts.counted a _ there).2.mp gone
    omega
  refine ⟨heap[a], ?_, there, live⟩
  simp only [RefCount.access, there, live, Bool.false_eq_true, if_false]

theorem Accounts.set (accounts : Accounts heap refs) {cell cell' : Cell w α} (there : heap[a]? = some cell)
    (others : ∀ b, b ≠ a → refs' b = refs b) (count : cell'.count = BitVec.ofNat w (refs' a))
    (deleted : cell'.deleted = true ↔ refs' a = 0) : Accounts (heap.set a cell') refs' where
  counted := by
    intro b other found
    have inside : a < heap.length := (List.getElem?_eq_some_iff.mp there).1
    by_cases same : b = a
    · subst same
      rw [List.getElem?_set_self inside] at found
      cases found
      exact ⟨count, deleted⟩
    · rw [List.getElem?_set_ne (Ne.symm same)] at found
      rw [others b same]
      exact accounts.counted b other found
  outside := by
    intro b out
    rw [List.length_set] at out
    have inside : a < heap.length := (List.getElem?_eq_some_iff.mp there).1
    rw [others b (by omega)]
    exact accounts.outside b out

theorem Accounts.increment (accounts : Accounts heap refs) (held : 0 < refs a)
    (split : ∀ b, refs' b = refs b + one (some a) b) :
    ∃ heap', RefCount.increment heap a = some heap' ∧ Accounts heap' refs' := by
  obtain ⟨cell, found, there, live⟩ := accounts.access held
  have more : refs' a = refs a + 1 := by rw [split, one_self]
  refine ⟨_, by rw [RefCount.increment, found]; rfl, accounts.set there ?_ ?_ ?_⟩
  · intro b other
    rw [split, one_ne (Ne.symm other), Nat.add_zero]
  · rw [more, (accounts.counted a cell there).1, ← BitVec.ofNat_add_ofNat]
    rfl
  · simp [live, more]

theorem Accounts.decrement (accounts : Accounts heap refs) (held : 0 < refs a)
    (fits : (BitVec.ofNat w (refs a)).toNat = refs a) (split : ∀ b, refs b = refs' b + one (some a) b) :
    ∃ heap', RefCount.decrement heap a = some heap' ∧ Accounts heap' refs' := by
  obtain ⟨cell, found, there, live⟩ := accounts.access held
  have fewer : refs a = refs' a + 1 := by rw [split, one_self]
  have count : cell.count - 1 = BitVec.ofNat w (refs' a) := by
    rw [(accounts.counted a cell there).1, fewer, ← BitVec.ofNat_add_ofNat]
    exact BitVec.add_sub_cancel _ _
  refine ⟨_, by rw [RefCount.decrement, found]; rfl, accounts.set there ?_ count ?_⟩
  · intro b other
    have same := split b
    rw [one_ne (Ne.symm other), Nat.add_zero] at same
    exact same.symm
  · rw [count, decide_eq_true_eq]
    constructor
    · intro zero
      -- A number that fits the counter and leaves none was one.
      have last : BitVec.ofNat w (refs a) = 1 := by
        rw [fewer, ← BitVec.ofNat_add_ofNat, zero]
        exact BitVec.zero_add _
      have least : refs a ≤ 1 := by
        calc
          refs a = (1 : BitVec w).toNat := by rw [← last, fits]
          _ ≤ 1 := Nat.mod_le _ _
      omega
    · intro empty
      rw [empty]
      rfl

theorem Accounts.allocate (accounts : Accounts heap refs) (content : α)
    (split : ∀ b, refs' b = refs b + one (some heap.length) b) :
    Accounts (RefCount.allocate heap content) refs' where
  counted := by
    intro b cell found
    rcases Nat.lt_trichotomy b heap.length with inside | new | out
    · rw [RefCount.allocate, List.getElem?_append_left inside] at found
      rw [split, one_ne (Nat.ne_of_gt inside), Nat.add_zero]
      exact accounts.counted b cell found
    · subst new
      rw [RefCount.allocate, List.getElem?_append_right (Nat.le_refl _), Nat.sub_self] at found
      cases found
      rw [split, one_self, accounts.outside _ (Nat.le_refl _)]
      exact ⟨rfl, by simp⟩
    · rw [RefCount.allocate, List.getElem?_eq_none (by simp; omega)] at found
      cases found
  outside := by
    intro b out
    rw [RefCount.allocate, List.length_append, List.length_singleton] at out
    rw [split, one_ne (by omega), accounts.outside b (by omega)]

theorem Accounts.store (accounts : Accounts heap refs) (held : 0 < refs a) (content : α) :
    ∃ heap', RefCount.store heap a content = some heap' ∧ Accounts heap' refs := by
  obtain ⟨cell, found, there, live⟩ := accounts.access held
  obtain ⟨count, deleted⟩ := accounts.counted a cell there
  refine ⟨heap.set a { cell with content := content }, ?_, accounts.set there (fun _ _ => rfl) count deleted⟩
  rw [RefCount.store, found]
  rfl

end Accounts

section Counting

variable {β : Type} {p : β → Bool} {l : List β}

theorem countP_set {i : Nat} {old : β} (there : l[i]? = some old) (new : β) :
    (l.set i new).countP p + (p old).toNat = l.countP p + (p new).toNat := by
  obtain ⟨inside, same⟩ := List.getElem?_eq_some_iff.mp there
  have member : (p old).toNat ≤ l.countP p := by
    cases counted : p old with
    | false => exact Nat.zero_le _
    | true => exact List.countP_pos_iff.mpr ⟨old, List.mem_of_getElem? there, counted⟩
  have number : ∀ b : Bool, (if b = true then 1 else 0) = b.toNat := by decide
  rw [List.countP_set inside, same, number, number]
  omega

theorem countP_snoc (new : β) : (l ++ [new]).countP p = l.countP p + (p new).toNat := by
  rw [List.countP_append]
  cases right : p new <;> simp [right]

end Counting

end OsdpMaster.Lib.RefCount
