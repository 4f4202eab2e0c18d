import Mathlib.Tactic.Common

/-!
Pre- and postconditions of programs over a state that may stop early, and the
loop `forever` whose rounds each use up a part of the state. Nothing here names
a particular program.
-/

namespace OsdpMaster.Lib.Program

variable {ε σ α β : Type}

/-- Started in `s`, the program returns into `Q` or stops into `E`. -/
def Ends (prog : EStateM ε σ α) (s : σ) (Q : α → σ → Prop) (E : ε → σ → Prop) : Prop :=
  match prog s with
  | .ok value after => Q value after
  | .error stop after => E stop after

theorem Ends.of_ok {prog : EStateM ε σ α} {s after : σ} {value : α} {Q : α → σ → Prop}
    {E : ε → σ → Prop} (ends : Ends prog s Q E) (run : prog s = .ok value after) :
    Q value after := by
  simpa only [Ends, run] using ends

theorem Ends.of_error {prog : EStateM ε σ α} {s after : σ} {stop : ε} {Q : α → σ → Prop}
    {E : ε → σ → Prop} (ends : Ends prog s Q E) (run : prog s = .error stop after) :
    E stop after := by
  simpa only [Ends, run] using ends

theorem Ends.mono {prog : EStateM ε σ α} {s : σ} {Q Q' : α → σ → Prop} {E E' : ε → σ → Prop}
    (ends : Ends prog s Q E) (returns : ∀ value after, Q value after → Q' value after)
    (stops : ∀ stop after, E stop after → E' stop after) : Ends prog s Q' E' := by
  unfold Ends at ends ⊢
  cases run : prog s with
  | ok value after =>
    rw [run] at ends
    exact returns _ _ ends
  | error stop after =>
    rw [run] at ends
    exact stops _ _ ends

@[simp] theorem ends_pure (value : α) (s : σ) (Q : α → σ → Prop) (E : ε → σ → Prop) :
    Ends (pure value) s Q E ↔ Q value s := Iff.rfl

@[simp] theorem ends_throw (stop : ε) (s : σ) (Q : α → σ → Prop) (E : ε → σ → Prop) :
    Ends (throw stop : EStateM ε σ α) s Q E ↔ E stop s := Iff.rfl

@[simp] theorem ends_get (s : σ) (Q : σ → σ → Prop) (E : ε → σ → Prop) :
    Ends (get : EStateM ε σ σ) s Q E ↔ Q s s := Iff.rfl

@[simp] theorem ends_modify (change : σ → σ) (s : σ) (Q : PUnit → σ → Prop) (E : ε → σ → Prop) :
    Ends (modify change : EStateM ε σ PUnit) s Q E ↔ Q ⟨⟩ (change s) := Iff.rfl

@[simp] theorem ends_bind (first : EStateM ε σ α) (rest : α → EStateM ε σ β) (s : σ)
    (Q : β → σ → Prop) (E : ε → σ → Prop) :
    Ends (first >>= rest) s Q E ↔ Ends first s (fun value after => Ends (rest value) after Q E) E := by
  simp only [Ends, bind, EStateM.bind]
  cases first s <;> rfl

theorem exists_ok {prog : EStateM ε σ α} {s : σ} {check : α → σ → Bool}
    (checked : (match prog s with
      | .ok value after => check value after
      | .error _ _ => false) = true) :
    ∃ value after, prog s = .ok value after ∧ check value after = true := by
  cases run : prog s with
  | ok value after =>
    rw [run] at checked
    exact ⟨value, after, rfl, checked⟩
  | error stop after =>
    rw [run] at checked
    cases checked

theorem ok_of_bind {first : EStateM ε σ α} {rest : α → EStateM ε σ β} {s after : σ} {value : β}
    (run : (first >>= rest) s = .ok value after) :
    ∃ item middle, first s = .ok item middle ∧ rest item middle = .ok value after := by
  simp only [bind, EStateM.bind] at run
  cases begun : first s with
  | ok item middle =>
    rw [begun] at run
    exact ⟨item, middle, rfl, run⟩
  | error stop middle =>
    rw [begun] at run
    cases run

theorem bind_of_ok {first : EStateM ε σ α} {s middle : σ} {value : α} (run : first s = .ok value middle)
    (rest : α → EStateM ε σ β) : (first >>= rest) s = rest value middle := by
  simp only [bind, EStateM.bind, run]

theorem bind_of_error {first : EStateM ε σ α} {s middle : σ} {stop : ε} (run : first s = .error stop middle)
    (rest : α → EStateM ε σ β) : (first >>= rest) s = .error stop middle := by
  simp only [bind, EStateM.bind, run]

@[simp] theorem ends_tryCatch (body : EStateM ε σ α) (handler : ε → EStateM ε σ α) (s : σ)
    (Q : α → σ → Prop) (E : ε → σ → Prop) :
    Ends (tryCatch body handler) s Q E ↔
      Ends body s Q (fun stop after => Ends (handler stop) after Q E) := by
  simp only [Ends, tryCatch, tryCatchThe, MonadExceptOf.tryCatch, EStateM.tryCatch]
  cases body s <;> rfl

/-- A loop that is left by a right value. Running out of `fuel` rounds stops with `out`. -/
def rounds (out : ε) (body : β → EStateM ε σ (β ⊕ α)) : Nat → β → EStateM ε σ α
  | 0, _ => throw out
  | fuel + 1, item => do
    match ← body item with
    | .inl next => rounds out body fuel next
    | .inr value => pure value

/-- `for(;;)`, with as many rounds as the state has left to use up, and one more. -/
def forever (left : σ → Nat) (out : ε) (body : β → EStateM ε σ (β ⊕ α)) (item : β) :
    EStateM ε σ α :=
  fun s => rounds out body (left s + 1) item s

theorem ends_rounds {left : σ → Nat} {out : ε} {body : β → EStateM ε σ (β ⊕ α)}
    {Q : α → σ → Prop} {E : ε → σ → Prop} (invariant : β → σ → Prop)
    (round : ∀ item s, invariant item s → Ends (body item) s
      (fun result after => match result with
        | .inl next => invariant next after ∧ left after < left s
        | .inr value => Q value after) E)
    (fuel : Nat) (item : β) (s : σ) (enough : left s < fuel) (holds : invariant item s) :
    Ends (rounds out body fuel item) s Q E := by
  induction fuel generalizing item s with
  | zero => omega
  | succ fuel ih =>
    simp only [rounds, ends_bind]
    refine (round item s holds).mono ?_ (fun _ _ stopped => stopped)
    intro result after done
    cases result with
    | inl next =>
      obtain ⟨kept, used⟩ := done
      exact ih next after (by omega) kept
    | inr value => exact done

/-- The loop rule. Each round keeps the invariant and uses up some of the state, or leaves into
`Q`, or stops into `E`; so the rounds never run out. -/
theorem ends_forever {left : σ → Nat} {out : ε} {body : β → EStateM ε σ (β ⊕ α)}
    {Q : α → σ → Prop} {E : ε → σ → Prop} (invariant : β → σ → Prop)
    (round : ∀ item s, invariant item s → Ends (body item) s
      (fun result after => match result with
        | .inl next => invariant next after ∧ left after < left s
        | .inr value => Q value after) E)
    (item : β) (s : σ) (holds : invariant item s) :
    Ends (forever left out body item) s Q E :=
  ends_rounds invariant round (left s + 1) item s (by omega) holds

theorem Ends.returns {prog : EStateM ε σ α} {s : σ} {Q : α → σ → Prop}
    (ends : Ends prog s Q (fun _ _ => False)) : ∃ value after, prog s = .ok value after ∧ Q value after := by
  cases run : prog s with
  | ok value after => exact ⟨value, after, rfl, ends.of_ok run⟩
  | error stop after => exact (ends.of_error run).elim

theorem Ends.and {prog : EStateM ε σ α} {s : σ} {Q Q' : α → σ → Prop} {E E' : ε → σ → Prop}
    (first : Ends prog s Q E) (second : Ends prog s Q' E') :
    Ends prog s (fun value after => Q value after ∧ Q' value after)
      (fun stop after => E stop after ∧ E' stop after) := by
  unfold Ends at first second ⊢
  cases run : prog s with
  | ok value after =>
    rw [run] at first second
    exact ⟨first, second⟩
  | error stop after =>
    rw [run] at first second
    exact ⟨first, second⟩

theorem ends_any (prog : EStateM ε σ α) (s : σ) {Q : α → σ → Prop}
    (all : ∀ value after, Q value after) : Ends prog s Q (fun _ _ => True) := by
  unfold Ends
  split
  · exact all _ _
  · trivial

theorem ends_forever_value {left : σ → Nat} {out : ε} {body : β → EStateM ε σ (β ⊕ α)} {Q : α → Prop}
    (round : ∀ item s, Ends (body item) s
      (fun result _ => match result with
        | .inl _ => True
        | .inr value => Q value) (fun _ _ => True))
    (item : β) (s : σ) : Ends (forever left out body item) s (fun value _ => Q value) (fun _ _ => True) := by
  have turns (fuel : Nat) : ∀ item s,
      Ends (rounds out body fuel item) s (fun value _ => Q value) (fun _ _ => True) := by
    induction fuel with
    | zero => exact fun _ _ => trivial
    | succ fuel ih =>
      intro item s
      simp only [rounds, ends_bind]
      refine (round item s).mono ?_ (fun _ _ stopped => stopped)
      intro result after done
      cases result with
      | inl next => exact ih next after
      | inr value => exact done
  exact turns (left s + 1) item s

/-- A `for` over a list, each round of which changes the state by its item or stops at it. -/
theorem ends_forM {body : α → EStateM ε σ PUnit} (good : α → Prop) (next : σ → α → σ) (items : List α) (s : σ)
    (each : ∀ item ∈ items, ∀ s, Ends (body item) s (fun _ after => good item ∧ after = next s item)
      (fun _ _ => ¬good item)) :
    Ends (items.forM body) s (fun _ after => (∀ item ∈ items, good item) ∧ after = items.foldl next s)
      (fun _ _ => ∃ item ∈ items, ¬good item) := by
  induction items generalizing s with
  | nil => exact ⟨List.forall_mem_nil _, rfl⟩
  | cons item items ih =>
    obtain ⟨first, others⟩ := List.forall_mem_cons.mp each
    show Ends (body item >>= fun _ => items.forM body) s _ _
    rw [ends_bind]
    apply (first s).mono
    · rintro _ middle ⟨here, rfl⟩
      apply (ih (next s item) others).mono
      · rintro _ after ⟨there, rfl⟩
        exact ⟨List.forall_mem_cons.mpr ⟨here, there⟩, rfl⟩
      · rintro _ _ ⟨bad, member, refused⟩
        exact ⟨bad, List.mem_cons_of_mem item member, refused⟩
    · intro _ _ refused
      exact ⟨item, List.mem_cons_self, refused⟩

section Obeys

/-- However it ends, the program changes the state as `R` allows, and stops only as `E` allows. -/
def Obeys (R : σ → σ → Prop) (E : ε → σ → σ → Prop) (prog : EStateM ε σ α) : Prop :=
  ∀ s, Ends prog s (fun _ after => R s after) (fun stop after => E stop s after)

structure Law (R : σ → σ → Prop) (E : ε → σ → σ → Prop) : Prop where
  refl : ∀ s, R s s
  trans : ∀ {s middle after}, R s middle → R middle after → R s after
  stop : ∀ {stop s middle after}, R s middle → E stop middle after → E stop s after

variable {R : σ → σ → Prop} {E : ε → σ → σ → Prop}

theorem obeys_modify {change : σ → σ} (allowed : ∀ s, R s (change s)) :
    Obeys R E (modify change : EStateM ε σ PUnit) := allowed

theorem obeys_throw {stop : ε} (allowed : ∀ s, E stop s s) : Obeys R E (throw stop : EStateM ε σ α) :=
  allowed

theorem obeys_ite {condition : Prop} [Decidable condition] {first second : EStateM ε σ α}
    (here : Obeys R E first) (there : Obeys R E second) :
    Obeys R E (if condition then first else second) := by
  split
  · exact here
  · exact there

namespace Law

variable (law : Law R E)

include law

theorem pure (value : α) : Obeys R E (Pure.pure value : EStateM ε σ α) := law.refl

theorem get : Obeys R E (MonadState.get : EStateM ε σ σ) := law.refl

theorem bind {first : EStateM ε σ α} {rest : α → EStateM ε σ β} (here : Obeys R E first)
    (there : ∀ value, Obeys R E (rest value)) : Obeys R E (first >>= rest) := by
  intro s
  rw [ends_bind]
  refine (here s).mono ?_ (fun _ _ stopped => stopped)
  intro value middle done
  apply (there value middle).mono
  · intro _ after more
    exact law.trans done more
  · intro stop after stopped
    exact law.stop done stopped

theorem rounds {out : ε} (dry : ∀ s, E out s s) {body : β → EStateM ε σ (β ⊕ α)}
    (step : ∀ item, Obeys R E (body item)) (fuel : Nat) (item : β) :
    Obeys R E (Program.rounds out body fuel item) := by
  induction fuel generalizing item with
  | zero => exact obeys_throw dry
  | succ fuel ih =>
    apply law.bind (step item)
    intro result
    cases result with
    | inl next => exact ih next
    | inr value => exact law.pure value

theorem forever {left : σ → Nat} {out : ε} (dry : ∀ s, E out s s) {body : β → EStateM ε σ (β ⊕ α)}
    (step : ∀ item, Obeys R E (body item)) (item : β) : Obeys R E (Program.forever left out body item) :=
  fun s => law.rounds dry step (left s + 1) item s

end Law

end Obeys

section Keeps

variable {τ : Type} {view : σ → τ}

/-- However it ends, the program leaves what `view` shows as it was. -/
def Keeps (view : σ → τ) (prog : EStateM ε σ α) : Prop :=
  ∀ s, Ends prog s (fun _ after => view after = view s) (fun _ after => view after = view s)

theorem Keeps.of_ok {prog : EStateM ε σ α} (keeps : Keeps view prog) {s after : σ} {value : α}
    (run : prog s = .ok value after) : view after = view s := (keeps s).of_ok run

theorem Keeps.of_error {prog : EStateM ε σ α} (keeps : Keeps view prog) {s after : σ} {stop : ε}
    (run : prog s = .error stop after) : view after = view s := (keeps s).of_error run

theorem law_kept (view : σ → τ) : Law (fun s after => view after = view s)
    (fun (_ : ε) s after => view after = view s) where
  refl _ := rfl
  trans first second := second.trans first
  stop first second := second.trans first

theorem keeps_pure (value : α) : Keeps view (pure value : EStateM ε σ α) := fun _ => rfl

theorem keeps_throw (stop : ε) : Keeps view (throw stop : EStateM ε σ α) := obeys_throw fun _ => rfl

theorem keeps_get : Keeps view (get : EStateM ε σ σ) := fun _ => rfl

theorem keeps_modify {change : σ → σ} (same : ∀ s, view (change s) = view s) :
    Keeps view (modify change : EStateM ε σ PUnit) := obeys_modify same

theorem keeps_bind {first : EStateM ε σ α} {rest : α → EStateM ε σ β} (here : Keeps view first)
    (there : ∀ value, Keeps view (rest value)) : Keeps view (first >>= rest) :=
  (law_kept view).bind here there

theorem keeps_ite {condition : Prop} [Decidable condition] {first second : EStateM ε σ α}
    (here : Keeps view first) (there : Keeps view second) :
    Keeps view (if condition then first else second) := obeys_ite here there

theorem keeps_tryCatch {body : EStateM ε σ α} {handler : ε → EStateM ε σ α} (here : Keeps view body)
    (there : ∀ stop, Keeps view (handler stop)) : Keeps view (tryCatch body handler) := by
  intro s
  rw [ends_tryCatch]
  apply (here s).mono
  · intro _ after same
    exact same
  · intro stop middle same
    apply (there stop middle).mono
    · intro _ after same'
      exact same'.trans same
    · intro _ after same'
      exact same'.trans same

theorem keeps_forever {left : σ → Nat} {out : ε} {body : β → EStateM ε σ (β ⊕ α)}
    (step : ∀ item, Keeps view (body item)) (item : β) : Keeps view (forever left out body item) :=
  (law_kept view).forever (fun _ => rfl) step item

end Keeps

end OsdpMaster.Lib.Program
