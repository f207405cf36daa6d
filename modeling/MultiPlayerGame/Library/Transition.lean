import Mathlib.Logic.Relation

/-!
# Transition systems

States, where a run may start, and what one step may do.  A state is `Reachable` if some run gets
there; what holds at every start and survives every step holds in all of them
(`Reachable.invariant`).

`System.restrict` keeps the steps that satisfy a condition on the states before and after.  It is
how one speaks of the runs in which something never happens.
-/

namespace MultiPlayerGame
namespace Transition

/-- A transition system.  It says where a run may start and which steps there are; nothing is
computed. -/
structure System (σ : Type) where
  Start : σ → Prop
  Step : σ → σ → Prop

variable {σ : Type} {M : System σ} {P : σ → σ → Prop} {s t : σ}

/-- A state that a run can get to. -/
inductive Reachable (M : System σ) : σ → Prop where
  | start {s : σ} (h : M.Start s) : Reachable M s
  | step {s t : σ} (before : Reachable M s) (last : M.Step s t) : Reachable M t

/-- Only the steps that satisfy a condition.  Every run of it is a run of the whole system. -/
def System.restrict (M : System σ) (P : σ → σ → Prop) : System σ where
  Start := M.Start
  Step := fun s t => M.Step s t ∧ P s t

/-- **The invariant rule.**  What holds at every start and is preserved by every step holds in every
reachable state. -/
theorem Reachable.invariant {Inv : σ → Prop} (h : Reachable M s) (hstart : ∀ s, M.Start s → Inv s)
    (hstep : ∀ s t, Inv s → M.Step s t → Inv t) : Inv s := by
  induction h with
  | start h => exact hstart _ h
  | step _ last ih => exact hstep _ _ ih last

/-- The invariant rule, on top of what is already known of reachable states. -/
theorem Reachable.invariant_of {Inv : σ → Prop} (h : Reachable M s)
    (hstart : ∀ s, M.Start s → Inv s)
    (hstep : ∀ s t, Reachable M s → Inv s → M.Step s t → Inv t) : Inv s := by
  induction h with
  | start h => exact hstart _ h
  | step before last ih => exact hstep _ _ before ih last

/-- What can be reached from a reachable state is reachable. -/
theorem Reachable.trans (h : Reachable M s) (hst : Relation.ReflTransGen M.Step s t) :
    Reachable M t := by
  induction hst with
  | refl => exact h
  | tail _ last ih => exact ih.step last

end Transition
end MultiPlayerGame
