import Mathlib.Data.List.Induction
import Mathlib.Data.List.Nodup
import Mathlib.Algebra.BigOperators.Group.List.Basic

/-!
# Insertion-ordered dictionaries

An association list with pairwise distinct keys, read and written the way a
built-in dictionary is: writing a present key keeps its position, writing a new
one appends it, and iteration follows the positions. Mathlib's `AList` moves a
written key to the front, so its iteration order is another one.

The lemmas say how a lookup, the key list and a sum over the entries see one
write. Nothing here unfolds the representation again.
-/
namespace FlightsOptimizer

/-- Keys are distinct by construction, so no lookup is ambiguous. -/
structure Dict (κ α : Type) where
  entries : List (κ × α)
  distinct : (entries.map Prod.fst).Nodup

namespace Dict
variable {κ α : Type}

theorem ext {d e : Dict κ α} (h : d.entries = e.entries) : d = e := by
  cases d
  cases e
  simp only [mk.injEq]
  exact h

instance [DecidableEq κ] [DecidableEq α] : DecidableEq (Dict κ α) := fun d e =>
  decidable_of_iff (d.entries = e.entries) ⟨ext, fun h => h ▸ rfl⟩

def empty : Dict κ α := ⟨[],List.nodup_nil⟩

instance : Inhabited (Dict κ α) := ⟨empty⟩

def keys (d : Dict κ α) : List κ := d.entries.map Prod.fst

def values (d : Dict κ α) : List α := d.entries.map Prod.snd

variable [DecidableEq κ]

def find (k : κ) : List (κ × α) → Option α
  | [] => none
  | p :: ps => if p.1 = k then some p.2 else find k ps

def upsert (k : κ) (v : α) : List (κ × α) → List (κ × α)
  | [] => [(k,v)]
  | p :: ps => if p.1 = k then (k,v) :: ps else p :: upsert k v ps

theorem upsert_keys (k : κ) (v : α) (ps : List (κ × α)) :
    (upsert k v ps).map Prod.fst =
      if k ∈ ps.map Prod.fst then ps.map Prod.fst else ps.map Prod.fst ++ [k] := by
  induction ps with
  | nil => simp [upsert]
  | cons p ps ih =>
      by_cases h : p.1 = k
      · simp [upsert,h]
      · have h' : k ≠ p.1 := Ne.symm h
        simp only [upsert,h,if_false,List.map_cons,ih,List.mem_cons,h',false_or]
        split_ifs <;> simp

theorem upsert_nodup (k : κ) (v : α) {ps : List (κ × α)} (h : (ps.map Prod.fst).Nodup) :
    ((upsert k v ps).map Prod.fst).Nodup := by
  rw [upsert_keys]
  split_ifs with hk
  · exact h
  · exact h.append (List.nodup_singleton k) (by simpa using hk)

/-- `d.get(k)`. -/
def get? (d : Dict κ α) (k : κ) : Option α := find k d.entries

/-- `d.get(k, default)`. -/
def getD (d : Dict κ α) (k : κ) (default : α) : α := (d.get? k).getD default

/-- `d[k] = v`. -/
def set (d : Dict κ α) (k : κ) (v : α) : Dict κ α :=
  ⟨upsert k v d.entries,upsert_nodup k v d.distinct⟩

@[simp] theorem getD_empty (k : κ) (v : α) : (empty : Dict κ α).getD k v = v := rfl

theorem find_upsert (k : κ) (v : α) (ps : List (κ × α)) (j : κ) :
    find j (upsert k v ps) = if k = j then some v else find j ps := by
  induction ps with
  | nil => rfl
  | cons p ps ih =>
      by_cases hp : p.1 = k
      · by_cases hj : k = j <;> simp [upsert,find,hp,hj]
      · by_cases hj : k = j
        · subst j
          simp only [upsert,hp,if_false,find,ih,if_true]
        · simp only [upsert,hp,if_false,find,ih,hj]

theorem get?_set (d : Dict κ α) (k : κ) (v : α) (j : κ) :
    (d.set k v).get? j = if k = j then some v else d.get? j :=
  find_upsert k v d.entries j

@[simp] theorem get?_set_self (d : Dict κ α) (k : κ) (v : α) : (d.set k v).get? k = some v := by
  rw [get?_set,if_pos rfl]

theorem get?_set_ne (d : Dict κ α) {k j : κ} (h : k ≠ j) (v : α) :
    (d.set k v).get? j = d.get? j := by
  rw [get?_set,if_neg h]

theorem getD_set (d : Dict κ α) (k : κ) (v : α) (j : κ) (w : α) :
    (d.set k v).getD j w = if k = j then v else d.getD j w := by
  unfold getD
  rw [get?_set]
  split_ifs <;> rfl

@[simp] theorem getD_set_self (d : Dict κ α) (k : κ) (v w : α) : (d.set k v).getD k w = v := by
  rw [getD_set,if_pos rfl]

theorem getD_set_ne (d : Dict κ α) {k j : κ} (h : k ≠ j) (v w : α) :
    (d.set k v).getD j w = d.getD j w := by
  rw [getD_set,if_neg h]

theorem find_eq_some_iff {k : κ} {v : α} {ps : List (κ × α)} (h : (ps.map Prod.fst).Nodup) :
    find k ps = some v ↔ (k,v) ∈ ps := by
  induction ps with
  | nil => simp [find]
  | cons p ps ih =>
      obtain ⟨j,w⟩ := p
      simp only [List.map_cons,List.nodup_cons] at h
      by_cases hj : j = k
      · subst j
        have hv : (k,v) ∉ ps := fun hm => h.1 (List.mem_map_of_mem (f := Prod.fst) hm)
        simp [find,hv,eq_comm]
      · have hk : k ≠ j := Ne.symm hj
        simp [find,hj,hk,ih h.2]

/-- Iteration meets exactly the pairs that a lookup finds. -/
theorem get?_eq_some_iff (d : Dict κ α) (k : κ) (v : α) :
    d.get? k = some v ↔ (k,v) ∈ d.entries :=
  find_eq_some_iff d.distinct

theorem mem_keys_set (d : Dict κ α) (k : κ) (v : α) (j : κ) :
    j ∈ (d.set k v).keys ↔ j = k ∨ j ∈ d.keys := by
  simp only [keys,set,upsert_keys]
  split_ifs with h
  · constructor
    · exact Or.inr
    · rintro (rfl | hj)
      · exact h
      · exact hj
  · simp [or_comm]

/-- The same keys in the same order, each value mapped. -/
def mapValues {γ : Type} (f : α → γ) (d : Dict κ α) : Dict κ γ :=
  ⟨d.entries.map fun p => (p.1,f p.2),by
    rw [List.map_map]
    exact d.distinct⟩

section
variable {κ' γ : Type} {key : κ → κ'} (hkey : Function.Injective key) (f : α → γ)

/-- The same entries in the same order, keys renamed and values mapped. -/
def rekey (d : Dict κ α) : Dict κ' γ :=
  ⟨d.entries.map fun p => (key p.1,f p.2),by
    have h := d.distinct.map hkey
    rwa [List.map_map] at h ⊢⟩

variable [DecidableEq κ']

include hkey in
theorem find_map (k : κ) (ps : List (κ × α)) :
    find (key k) (ps.map fun p => (key p.1,f p.2)) = (find k ps).map f := by
  induction ps with
  | nil => rfl
  | cons p ps ih =>
      simp only [List.map_cons,find,hkey.eq_iff,ih]
      split_ifs <;> rfl

include hkey in
theorem upsert_map (k : κ) (v : α) (ps : List (κ × α)) :
    (upsert k v ps).map (fun p => (key p.1,f p.2)) =
      upsert (key k) (f v) (ps.map fun p => (key p.1,f p.2)) := by
  induction ps with
  | nil => rfl
  | cons p ps ih =>
      simp only [upsert,List.map_cons,hkey.eq_iff]
      split_ifs
      · rfl
      · rw [List.map_cons,ih]

theorem get?_rekey (d : Dict κ α) (k : κ) : (d.rekey hkey f).get? (key k) = (d.get? k).map f :=
  find_map hkey f k d.entries

theorem rekey_set (d : Dict κ α) (k : κ) (v : α) :
    (d.set k v).rekey hkey f = (d.rekey hkey f).set (key k) (f v) :=
  ext (upsert_map hkey f k v d.entries)

end

section
variable {γ : Type} (f : α → γ) (d : Dict κ α) (k : κ)

theorem get?_mapValues : (d.mapValues f).get? k = (d.get? k).map f :=
  get?_rekey Function.injective_id f d k

theorem mapValues_set (v : α) : (d.set k v).mapValues f = (d.mapValues f).set k (f v) :=
  rekey_set Function.injective_id f d k v

end

/-- What an additive measure of the entries gains when `k` is written. -/
theorem sum_upsert {M : Type} [AddCommMonoid M] (f : κ × α → M) (k : κ) (v : α)
    {ps : List (κ × α)} (h : (ps.map Prod.fst).Nodup) :
    ((upsert k v ps).map f).sum + ((find k ps).map fun w => f (k,w)).getD 0 =
      (ps.map f).sum + f (k,v) := by
  induction ps with
  | nil => simp [upsert,find]
  | cons p ps ih =>
      obtain ⟨j,w⟩ := p
      simp only [List.map_cons,List.nodup_cons] at h
      by_cases hj : j = k
      · subst j
        simp only [upsert,find,if_true,List.map_cons,List.sum_cons,Option.map_some,
          Option.getD_some]
        exact add_right_comm _ _ _ |>.trans (by rw [add_comm (f (k,v)),add_right_comm])
      · simp only [upsert,find,hj,if_false,List.map_cons,List.sum_cons]
        rw [add_assoc,ih h.2,add_assoc]

theorem sum_entries_set {M : Type} [AddCommMonoid M] (f : κ × α → M) (d : Dict κ α) (k : κ) (v : α) :
    ((d.set k v).entries.map f).sum + ((d.get? k).map fun w => f (k,w)).getD 0 =
      (d.entries.map f).sum + f (k,v) :=
  sum_upsert f k v d.distinct

/-- Appends to the list under a key, which may be new. -/
def push (d : Dict κ (List α)) (k : κ) (v : α) : Dict κ (List α) := d.set k (d.getD k [] ++ [v])

/-- Collects pairs under their first components. -/
def group (ps : List (κ × α)) : Dict κ (List α) :=
  ps.foldl (fun d p => d.push p.1 p.2) empty

/-- The values that a list of pairs has for a key, in order. -/
def valuesOf (k : κ) (ps : List (κ × α)) : List α :=
  ps.filterMap fun p => if p.1 = k then some p.2 else none

theorem valuesOf_append (k : κ) (ps qs : List (κ × α)) :
    valuesOf k (ps ++ qs) = valuesOf k ps ++ valuesOf k qs :=
  List.filterMap_append

/-- The values that the pairs `(F a,V a)` have for a key. -/
theorem valuesOf_map {γ : Type} (F : γ → κ) (V : γ → α) (k : κ) (as : List γ) :
    valuesOf k (as.map fun a => (F a,V a)) = (as.filter fun a => F a = k).map V := by
  unfold valuesOf
  rw [List.filterMap_map]
  induction as with
  | nil => rfl
  | cons a as ih =>
      by_cases hk : F a = k
      · simp only [List.filterMap_cons,Function.comp,hk,if_true,decide_true,List.filter_cons,
          List.map_cons]
        exact congrArg _ ih
      · simp only [List.filterMap_cons,Function.comp,hk,if_false,decide_false,List.filter_cons,
          Bool.false_eq_true]
        exact ih

theorem valuesOf_eq_nil_iff {k : κ} {ps : List (κ × α)} :
    valuesOf k ps = [] ↔ k ∉ ps.map Prod.fst := by
  unfold valuesOf
  rw [List.filterMap_eq_nil_iff,List.mem_map]
  constructor
  · rintro h ⟨p,hp,rfl⟩
    simpa using h p hp
  · intro h p hp
    rw [if_neg]
    intro hk
    exact h ⟨p,hp,hk⟩

theorem group_append_singleton (ps : List (κ × α)) (p : κ × α) :
    group (ps ++ [p]) = (group ps).push p.1 p.2 := by
  unfold group
  rw [List.foldl_append]
  rfl

/-- A group is the list of the values of its key; a key without values has none. -/
theorem get?_group (ps : List (κ × α)) (k : κ) : (group ps).get? k =
    if valuesOf k ps = [] then none else some (valuesOf k ps) := by
  induction ps using List.reverseRecOn with
  | nil => rfl
  | append_singleton ps p ih =>
      rw [group_append_singleton,push,get?_set,valuesOf_append]
      by_cases hk : p.1 = k
      · have hv : valuesOf k [p] = [p.2] := by simp [valuesOf,hk]
        rw [if_pos hk,hv,if_neg (by simp),getD,hk,ih]
        split_ifs with hn
        · rw [hn]
          rfl
        · rfl
      · have hv : valuesOf k [p] = [] := by simp [valuesOf,hk]
        rw [if_neg hk,hv,List.append_nil,ih]

theorem getD_group (ps : List (κ × α)) (k : κ) : (group ps).getD k [] = valuesOf k ps := by
  unfold getD
  rw [get?_group]
  split_ifs with h
  · exact h.symm
  · rfl

theorem mem_keys_iff (d : Dict κ α) (k : κ) : k ∈ d.keys ↔ (d.get? k).isSome = true := by
  rw [Option.isSome_iff_exists]
  constructor
  · intro h
    obtain ⟨⟨j,v⟩,hm,rfl⟩ := List.mem_map.mp h
    exact ⟨v,(d.get?_eq_some_iff j v).mpr hm⟩
  · rintro ⟨v,hv⟩
    exact List.mem_map_of_mem ((d.get?_eq_some_iff k v).mp hv)

theorem mem_keys_group (ps : List (κ × α)) (k : κ) :
    k ∈ (group ps).keys ↔ k ∈ ps.map Prod.fst := by
  rw [mem_keys_iff,get?_group]
  split_ifs with h
  · rw [valuesOf_eq_nil_iff] at h
    simp [h]
  · rw [valuesOf_eq_nil_iff,not_not] at h
    simp [h]

/-- Grouping loses and doubles nothing: an additive measure of the values is the
same before and after. -/
theorem sum_group {M : Type} [AddCancelCommMonoid M] (f : α → M) (ps : List (κ × α)) :
    ((group ps).entries.map fun p => (p.2.map f).sum).sum = (ps.map fun p => f p.2).sum := by
  induction ps using List.reverseRecOn with
  | nil => rfl
  | append_singleton ps p ih =>
      have hset := sum_entries_set (fun p => (p.2.map f).sum) (group ps) p.1
        ((group ps).getD p.1 [] ++ [p.2])
      have hold : (((group ps).get? p.1).map fun w => (w.map f).sum).getD 0 =
          (((group ps).getD p.1 []).map f).sum := by
        unfold getD
        cases (group ps).get? p.1 <;> rfl
      rw [hold,ih] at hset
      rw [group_append_singleton,push,List.map_append,List.sum_append]
      apply add_right_cancel (b := (((group ps).getD p.1 []).map f).sum)
      rw [hset,List.map_append,List.sum_append,List.map_singleton,List.sum_singleton,
        List.map_singleton,List.sum_singleton,add_comm ((((group ps).getD p.1 []).map f).sum),
        add_assoc]

end Dict
end FlightsOptimizer
