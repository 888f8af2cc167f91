import Mathlib.Data.List.Perm.Basic

/-!
# Folds that may raise

A fold whose step may raise an exception, and then leaves some state behind. The
live reading takes the entries batch by batch and drops the rest of a batch that
raised; the strict reading stops for good at the first exception. They agree on
entries that do not raise.

`OrderFree` is what makes a strict replay in another order worth as much as the
live reading: whether anything raises, and what comes out, does not depend on
the order of the entries.
-/
namespace FlightsOptimizer.Replay

inductive Outcome (σ : Type) where
  | done (s : σ)
  | raised (s : σ)
  deriving DecidableEq, Repr

structure Processor (ρ σ : Type) where
  init : σ
  process : ρ → σ → Outcome σ

variable {ρ σ : Type}

/-- What is left behind. -/
def Outcome.state : Outcome σ → σ
  | .done s => s
  | .raised s => s

def Outcome.done? : Outcome σ → Option σ
  | .done s => some s
  | .raised _ => none

theorem Outcome.done?_eq_some {o : Outcome σ} {s : σ} : o.done? = some s ↔ o = .done s := by
  cases o <;> simp [Outcome.done?]

namespace Processor

/-- The entries in order, up to the first that raises. -/
def run (P : Processor ρ σ) : List ρ → σ → Outcome σ
  | [], s => .done s
  | r :: rs, s =>
      match P.process r s with
      | .done t => P.run rs t
      | .raised t => .raised t

/-- An exception costs the rest of its batch. -/
def live (P : Processor ρ σ) (batches : List (List ρ)) : σ :=
  batches.foldl (fun s b => (P.run b s).state) P.init

variable {P : Processor ρ σ} {s t : σ}

theorem run_cons (r : ρ) (rs : List ρ) :
    P.run (r :: rs) s = .done t ↔ ∃ u, P.process r s = .done u ∧ P.run rs u = .done t := by
  rw [run]
  cases P.process r s <;> simp

theorem run_append (as bs : List ρ) :
    P.run (as ++ bs) s = .done t ↔ ∃ u, P.run as s = .done u ∧ P.run bs u = .done t := by
  induction as generalizing s with
  | nil => simp [run]
  | cons a as ih =>
      rw [List.cons_append,run_cons]
      constructor
      · rintro ⟨u,hu,h⟩
        obtain ⟨v,hv,h⟩ := ih.mp h
        exact ⟨v,(run_cons a as).mpr ⟨u,hu,hv⟩,h⟩
      · rintro ⟨v,hv,h⟩
        obtain ⟨u,hu,hv⟩ := (run_cons a as).mp hv
        exact ⟨u,hu,ih.mpr ⟨v,hv,h⟩⟩

theorem run_append_singleton (as : List ρ) (r : ρ) :
    P.run (as ++ [r]) s = .done t ↔ ∃ u, P.run as s = .done u ∧ P.process r u = .done t := by
  rw [run_append]
  have hsingle : ∀ u, P.run [r] u = .done t ↔ P.process r u = .done t := by
    intro u
    rw [run_cons]
    simp [run]
  simp only [hsingle]

/-- Entries that do not raise are all read live. -/
theorem live_of_run {batches : List (List ρ)} (h : P.run batches.flatten P.init = .done t) :
    P.live batches = t := by
  unfold live
  generalize P.init = s at h ⊢
  induction batches generalizing s with
  | nil => exact Outcome.done.inj h
  | cons b bs ih =>
      obtain ⟨u,hu,h⟩ := (run_append b bs.flatten).mp h
      rw [List.foldl_cons,hu]
      exact ih u h

/-- A step that is guarded by a test of the entry. -/
theorem run_guarded {ok : ρ → Prop} {step : σ → ρ → σ}
    (h : ∀ r s t, P.process r s = .done t ↔ ok r ∧ step s r = t) (rs : List ρ) (s t : σ) :
    P.run rs s = .done t ↔ (∀ r ∈ rs, ok r) ∧ rs.foldl step s = t := by
  induction rs generalizing s with
  | nil => simp [run]
  | cons r rs ih =>
      rw [run_cons]
      constructor
      · rintro ⟨u,hu,hrs⟩
        obtain ⟨hr,rfl⟩ := (h r s u).mp hu
        obtain ⟨hall,hfold⟩ := (ih _).mp hrs
        exact ⟨List.forall_mem_cons.mpr ⟨hr,hall⟩,hfold⟩
      · rintro ⟨hall,hfold⟩
        obtain ⟨hr,hall⟩ := List.forall_mem_cons.mp hall
        exact ⟨step s r,(h r s _).mpr ⟨hr,rfl⟩,(ih _).mpr ⟨hall,hfold⟩⟩

/-- Whether a run is done, and up to `R` what it yields, is a matter of the
entries and not of their order. -/
structure OrderFree (P : Processor ρ σ) (Fine : List ρ → Prop) (R : σ → σ → Prop) : Prop where
  done : ∀ rs, (∃ t, P.run rs P.init = .done t) ↔ Fine rs
  fine : ∀ rs rs', rs.Perm rs' → Fine rs → Fine rs'
  perm : ∀ rs rs' t t', rs.Perm rs' → P.run rs P.init = .done t → P.run rs' P.init = .done t' →
    R t t'

theorem perm_flatten_reverse (batches : List (List ρ)) :
    batches.reverse.flatten.Perm batches.flatten :=
  (List.reverse_perm batches).flatten

/-- The strict replay of the batches, the last one first, against the live state. -/
theorem OrderFree.replay {Fine : List ρ → Prop} {R : σ → σ → Prop} (h : P.OrderFree Fine R)
    (batches : List (List ρ)) :
    (∃ t, P.run batches.reverse.flatten P.init = .done t ∧ R t (P.live batches)) ↔
      Fine batches.flatten := by
  have hperm := perm_flatten_reverse batches
  constructor
  · rintro ⟨t,ht,-⟩
    exact h.fine _ _ hperm ((h.done _).mp ⟨t,ht⟩)
  · intro hfine
    obtain ⟨t,ht⟩ := (h.done _).mpr (h.fine _ _ hperm.symm hfine)
    obtain ⟨u,hu⟩ := (h.done _).mpr hfine
    rw [live_of_run hu]
    exact ⟨t,ht,h.perm _ _ _ _ hperm ht hu⟩

end Processor

end FlightsOptimizer.Replay
