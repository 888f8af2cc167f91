import FlightsOptimizer.Accounting
import FlightsOptimizer.Eof

/-!
# What `count_duplicates` counts

The dictionary loops of `count_duplicates` compute the repetitions of a
collection, `surplus`, and the repetitions of its S-marked members. When the mark
is a function of the id, as it is for a deterministic processor, a list of
processed messages is a list of ids, and both are sums over the ids.
-/
namespace FlightsOptimizer.Eof
open Logger Accounting Finset

theorem foldl_counter (l : List ProcessedMessage) (d : Dict ProcessedMessage ℕ)
    (p : ProcessedMessage) :
    (l.foldl (fun d p => d.set p (d.getD p 0 + 1)) d).get? p =
      if p ∈ l then some (d.getD p 0 + l.count p) else d.get? p := by
  induction l generalizing d with
  | nil => rfl
  | cons q l ih =>
      rw [List.foldl_cons,ih,Dict.getD_set,Dict.get?_set]
      by_cases hq : q = p
      · subst hq
        simp only [if_true,List.mem_cons,true_or,List.count_cons_self]
        split_ifs with hl
        · congr 1
          omega
        · rw [List.count_eq_zero_of_not_mem hl]
      · have hp : p ≠ q := Ne.symm hq
        simp only [hq,if_false,List.mem_cons,hp,false_or,List.count_cons_of_ne hq]

theorem get?_duplicatesCounter (l : List ProcessedMessage) (p : ProcessedMessage) :
    (duplicatesCounter l).get? p = if p ∈ l then some (l.count p) else none := by
  unfold duplicatesCounter
  rw [foldl_counter,Dict.getD_empty,Nat.zero_add]
  rfl

/-- Iterating the counter meets every member once, with its count. -/
theorem sum_duplicatesCounter (l : List ProcessedMessage) (f : ProcessedMessage × ℕ → ℕ) :
    ((duplicatesCounter l).entries.map f).sum = ∑ p ∈ l.toFinset, f (p,l.count p) := by
  have hnodup : (duplicatesCounter l).entries.Nodup :=
    List.Nodup.of_map Prod.fst (duplicatesCounter l).distinct
  have hset : (duplicatesCounter l).entries.toFinset =
      l.toFinset.image fun p => (p,l.count p) := by
    ext ⟨p,n⟩
    rw [List.mem_toFinset,← Dict.get?_eq_some_iff,get?_duplicatesCounter,mem_image]
    constructor
    · intro h
      split_ifs at h with hp
      · cases h
        exact ⟨p,List.mem_toFinset.mpr hp,rfl⟩
    · rintro ⟨q,hq,he⟩
      cases he
      rw [if_pos (List.mem_toFinset.mp hq)]
  rw [← List.sum_toFinset f hnodup,hset,sum_image]
  intro p _ q _ he
  exact congrArg Prod.fst he

/-- The factor that the load balancer's option stands for. -/
def Config.multiplier (cfg : Config) : ℕ :=
  match cfg.loadBalancerSendMultiply with
  | none | some 0 => 1
  | some multiply => multiply

theorem sum_filter_sent (es : List (ProcessedMessage × ℕ)) :
    (((es.map fun p => (p.1,p.2 - 1)).filter fun p => p.1.sent).map Prod.snd).sum =
      (es.map fun e => if e.1.sent then e.2 - 1 else 0).sum := by
  induction es with
  | nil => rfl
  | cons e es ih =>
      simp only [List.map_cons,List.filter_cons,List.sum_cons]
      split_ifs with he
      · rw [List.map_cons,List.sum_cons,ih]
      · rw [Nat.zero_add,ih]

theorem countDuplicates_eq (cfg : Config) (l : List ProcessedMessage) :
    countDuplicates cfg l = (surplus (l : Multiset ProcessedMessage),
      (∑ p ∈ l.toFinset, if p.sent then l.count p - 1 else 0) * cfg.multiplier) := by
  have hreceived : ((duplicatesCounter l).mapValues fun count => count - 1).values.sum =
      surplus (l : Multiset ProcessedMessage) := by
    rw [surplus_coe,← sum_duplicatesCounter l fun e => e.2 - 1]
    unfold Dict.values Dict.mapValues
    rw [List.map_map]
    rfl
  have hsent : ((((duplicatesCounter l).mapValues fun count => count - 1).entries.filter
      fun p => p.1.sent).map Prod.snd).sum =
        ∑ p ∈ l.toFinset, if p.sent then l.count p - 1 else 0 := by
    rw [← sum_duplicatesCounter l fun e => if e.1.sent then e.2 - 1 else 0]
    exact sum_filter_sent (duplicatesCounter l).entries
  unfold countDuplicates Config.multiplier
  simp only [hreceived,hsent]
  rcases cfg.loadBalancerSendMultiply with _ | _ | n
  · simp only [Nat.mul_one]
  · simp only [Nat.mul_one]
  · rfl

/-- The entry of an id whose S mark is `mark`. -/
def stamp (mark : MessageId → Bool) (i : MessageId) : ProcessedMessage := ⟨i,mark i⟩

theorem stamp_injective (mark : MessageId → Bool) : Function.Injective (stamp mark) :=
  fun _ _ h => congrArg ProcessedMessage.messageId h

theorem sum_stamp (mark : MessageId → Bool) (ids : List MessageId) (f : ProcessedMessage → ℕ) :
    ∑ p ∈ (ids.map (stamp mark)).toFinset, f p = ∑ i ∈ ids.toFinset, f (stamp mark i) := by
  have hset : (ids.map (stamp mark)).toFinset = ids.toFinset.image (stamp mark) := by
    ext p
    simp only [List.mem_toFinset,List.mem_map,mem_image]
  rw [hset,sum_image]
  intro i _ j _ h
  exact stamp_injective mark h

theorem count_stamp (mark : MessageId → Bool) (ids : List MessageId) (i : MessageId) :
    (ids.map (stamp mark)).count (stamp mark i) = ids.count i :=
  List.count_map_of_injective ids (stamp mark) (stamp_injective mark) i

/-- With marks that depend on the id, both counts are sums over the ids. -/
theorem countDuplicates_stamp (cfg : Config) (mark : MessageId → Bool) (ids : List MessageId) :
    countDuplicates cfg (ids.map (stamp mark)) = (surplus (ids : Multiset MessageId),
      (∑ i ∈ ids.toFinset, if mark i then ids.count i - 1 else 0) * cfg.multiplier) := by
  rw [countDuplicates_eq]
  have hr : surplus (ids.map (stamp mark) : Multiset ProcessedMessage) =
      surplus (ids : Multiset MessageId) := by
    have h := sum_stamp mark ids fun p => (ids.map (stamp mark)).count p - 1
    simp only [count_stamp] at h
    rw [surplus_coe,surplus_coe]
    exact h
  have hs := sum_stamp mark ids fun p => if p.sent then (ids.map (stamp mark)).count p - 1 else 0
  simp only [count_stamp] at hs
  rw [hr,hs]
  rfl

end FlightsOptimizer.Eof
