import OsdpMaster.Lib.Trace

/-!
Bounds on the number of steps by a potential: steps of one kind lower it, and
only steps of another kind raise it, by a fixed amount each.
-/

namespace OsdpMaster.Lib.Potential
open OsdpMaster.Lib.Trace

variable {S A E : Type} {sys : System S A E} {pays earns : Step S A E → Bool} {amount : Nat}

/-- What a step takes from the potential, and what it may add. -/
def Spends (potential : S → Nat) (pays earns : Step S A E → Bool) (amount : Nat) (step : Step S A E) : Prop :=
  potential step.after + (if pays step then 1 else 0) ≤ potential step.before + if earns step then amount else 0

/-- There are at most as many steps that pay as the potential at the start and what is earned on the way. -/
theorem bounded {potential : S → Nat} {s after : S} {steps : List (Step S A E)} (path : Path sys s steps after)
    (spends : ∀ step ∈ steps, sys.step step.before step.action = some (step.after, step.events) →
      Spends potential pays earns amount step) :
    potential after + steps.countP pays ≤ potential s + amount * steps.countP earns := by
  induction path with
  | nil => simp
  | cons step here stepped rest ih =>
    subst here
    have later := ih fun step member => spends step (List.mem_cons_of_mem _ member)
    have now := spends step List.mem_cons_self stepped
    rw [List.countP_cons, List.countP_cons, Nat.mul_add]
    unfold Spends at now
    split at now
    · split at now <;> simp_all <;> omega
    · split at now <;> simp_all <;> omega

end OsdpMaster.Lib.Potential
