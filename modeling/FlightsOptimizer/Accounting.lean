import Mathlib.Algebra.BigOperators.Group.Finset.Basic
import Mathlib.Algebra.Order.BigOperators.Group.Finset

/-!
# Counting with listed duplicates

A collection `K` of things was counted, some of them more than once. A second
collection `P` lists occurrences of the suspicious ones. Subtracting from the
size of `K` every repetition in `P` undercounts the distinct things at worst, as
long as nothing suspicious is listed less often than it was counted, and
everything else was counted once. When the result reaches a bound on the distinct
things, each of them was counted, and exactly as often as `P` says.
-/
namespace FlightsOptimizer.Accounting
open Finset

variable {α : Type} [DecidableEq α]

/-- Repetitions in a collection. -/
def surplus (P : Multiset α) : ℕ := ∑ i ∈ P.toFinset, (P.count i - 1)

theorem surplus_coe (l : List α) :
    surplus (l : Multiset α) = ∑ i ∈ l.toFinset, (l.count i - 1) := by
  unfold surplus
  simp only [Multiset.coe_count]
  rfl

/-- `P` lists the duplicates of `K`. -/
structure Lists (K P : Multiset α) (suspicious : α → Prop) : Prop where
  listed : ∀ i, suspicious i → K.count i ≤ P.count i
  single : ∀ i, ¬suspicious i → K.count i ≤ 1

variable {K P : Multiset α} {suspicious : α → Prop} {T : Finset α}

theorem Lists.count_le (h : Lists K P suspicious) (i : α) : K.count i ≤ P.count i - 1 + 1 := by
  by_cases hi : suspicious i
  · have hc := h.listed i hi
    omega
  · have hc := h.single i hi
    omega

theorem surplus_eq (hP : ∀ i ∈ P, i ∈ T) : surplus P = ∑ i ∈ T, (P.count i - 1) := by
  unfold surplus
  apply sum_subset
  · intro i hi
    exact hP i (Multiset.mem_toFinset.mp hi)
  · intro i _ hi
    have hc : P.count i = 0 := Multiset.count_eq_zero.mpr fun hm => hi (Multiset.mem_toFinset.mpr hm)
    omega

/-- The corrected count stays below any bound on the distinct things. -/
theorem Lists.card_le (h : Lists K P suspicious) (hK : ∀ i ∈ K, i ∈ T) (hP : ∀ i ∈ P, i ∈ T) :
    K.card ≤ T.card + surplus P := by
  rw [← Multiset.sum_count_eq_card hK,surplus_eq hP,add_comm,card_eq_sum_ones,← sum_add_distrib]
  exact sum_le_sum fun i _ => h.count_le i

/-- Where it reaches the bound, everything was counted as often as listed. -/
theorem Lists.count_eq (h : Lists K P suspicious) (hK : ∀ i ∈ K, i ∈ T) (hP : ∀ i ∈ P, i ∈ T)
    (he : K.card = T.card + surplus P) {i : α} (hi : i ∈ T) :
    K.count i = P.count i - 1 + 1 := by
  rw [← Multiset.sum_count_eq_card hK,surplus_eq hP,add_comm,card_eq_sum_ones,
    ← sum_add_distrib] at he
  exact (sum_eq_sum_iff_of_le fun j _ => h.count_le j).mp he i hi

/-- The same for a total that weighs each thing. -/
theorem Lists.sum_eq {M : Type} [AddCommMonoid M] (h : Lists K P suspicious)
    (hK : ∀ i ∈ K, i ∈ T) (hP : ∀ i ∈ P, i ∈ T) (he : K.card = T.card + surplus P) (w : α → M) :
    (K.map w).sum = ∑ i ∈ T, w i + ∑ i ∈ T, (P.count i - 1) • w i := by
  have hsum : (K.map w).sum = ∑ i ∈ T, K.count i • w i := by
    rw [Finset.sum_multiset_map_count]
    apply sum_subset
    · intro i hi
      exact hK i (Multiset.mem_toFinset.mp hi)
    · intro i _ hi
      have hc : K.count i = 0 :=
        Multiset.count_eq_zero.mpr fun hm => hi (Multiset.mem_toFinset.mpr hm)
      rw [hc,zero_nsmul]
  rw [hsum,← sum_add_distrib]
  apply sum_congr rfl
  intro i hi
  rw [h.count_eq hK hP he hi,succ_nsmul,add_comm]

end FlightsOptimizer.Accounting
