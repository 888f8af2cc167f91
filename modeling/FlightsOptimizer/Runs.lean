import Mathlib.Logic.Relation
import Mathlib.Order.WellFounded

/-!
# Runs that come to an end

A step relation and an invariant of it. When every step from a state with the
invariant takes weight off, no run from there goes on forever.
-/
namespace FlightsOptimizer.Runs
open Relation
variable {σ : Type} {step : σ → σ → Prop} {inv : σ → Prop} {s t : σ}

/-- What every step keeps, every run keeps. -/
theorem keeps (keep : ∀ {s t}, inv s → step s t → inv t) (h : ReflTransGen step s t)
    (hs : inv s) : inv t := by
  induction h with
  | refl => exact hs
  | tail _ ht ih => exact keep ih ht

/-- A run from `s` is no longer than `s` is heavy. -/
theorem terminates (weight : σ → ℕ) (keep : ∀ {s t}, inv s → step s t → inv t)
    (less : ∀ {s t}, inv s → step s t → weight t < weight s) (hs : inv s) :
    Acc (fun t s => step s t) s := by
  induction hw : weight s using Nat.strong_induction_on generalizing s with
  | _ n ih =>
      refine ⟨s,fun t ht => ?_⟩
      have hlt := less hs ht
      rw [hw] at hlt
      exact ih (weight t) hlt (keep hs ht) rfl

end FlightsOptimizer.Runs
