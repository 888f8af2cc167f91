import Mathlib.Algebra.BigOperators.Group.Finset.Basic
import Mathlib.Data.Multiset.DershowitzManna
import Mathlib.Data.Prod.Lex
import Mathlib.Order.WithBot
import Mathlib.Logic.Function.Basic
import Mathlib.Logic.Relation

/-!
# Replicas that acknowledge last

The replicas of a stage share a queue. A replica takes a message, answers it with
a list of messages, publishes them one after the other, each to every queue that
is bound to its stage, and acknowledges the message when all of them are out. If
it dies before that, the message goes back to the queue, whatever has already been
published for it. A replica may also give a message back, and one that keeps a
duplicate catcher drops a message whose key it has stored; when it dies it may lose
some of these keys.

So messages are repeated, but none is lost and none is made up. The set of all
messages that ever were in a queue carries the proof: each of them is still in a
queue, or in the hands of a replica, or it is settled, that is, all its answers
are in the set as well.
-/
namespace FlightsOptimizer.Redelivery
open Relation

/-- Stages `ν` with replicas `ρ`, each with a memory `σ` that is lost in a crash and
that other threads may change. What a handler may answer in a memory, with the
memory it leaves: no answer gives the message back. -/
structure Network (ν ρ μ κ σ : Type) where
  stage : ρ → ν
  next : ν → List ν
  key : μ → κ
  catches : ν → Prop
  fresh : ν → σ → Prop
  change : ν → σ → σ → Prop
  handle : ν → μ → σ → Option (List μ) → σ → Prop

structure State (ν ρ μ κ σ : Type) where
  queued : Multiset (ν × μ)
  working : ρ → Option (μ × List μ)
  memory : ρ → σ
  stored : ρ → Set κ

variable {ν ρ μ κ σ : Type}

namespace Network
variable (N : Network ν ρ μ κ σ)

/-- One publication of a stage. -/
def copies (n : ν) (x : μ) : Multiset (ν × μ) := (N.next n).map fun k => (k,x)

/-- The message that a replica has not acknowledged. -/
def held (s : State ν ρ μ κ σ) (r : ρ) : Multiset (ν × μ) :=
  match s.working r with
  | none => 0
  | some (m,_) => {(N.stage r,m)}

/-- All replicas have just been started. -/
structure Initial (start : Multiset (ν × μ)) (s : State ν ρ μ κ σ) : Prop where
  queued : s.queued = start
  working : ∀ r, s.working r = none
  memory : ∀ r, N.fresh (N.stage r) (s.memory r)
  stored : ∀ r, s.stored r = ∅

/-- Every message left is in a queue that no replica reads. -/
def Quiet (s : State ν ρ μ κ σ) : Prop :=
  (∀ r, s.working r = none) ∧ ∀ x ∈ s.queued, ∀ r, N.stage r ≠ x.1

/-- What a stage is there to answer, and what holds of the memory of its replicas:
they give a message back, or answer what they should. -/
structure Computes (emit : ν → μ → List μ) (Holds : ν → σ → Prop) : Prop where
  fresh : ∀ n t, N.fresh n t → Holds n t
  change : ∀ n s t, Holds n s → N.change n s t → Holds n t
  memory : ∀ n m s out t, Holds n s → N.handle n m s out t → Holds n t
  answer : ∀ n m s out t, Holds n s → N.handle n m s (some out) t → out = emit n m

variable (emit : ν → μ → List μ)

/-- A message of a stage that somebody reads, and one of its answers. -/
def Emits (x y : ν × μ) : Prop :=
  (∃ r, N.stage r = x.1) ∧ y.1 ∈ N.next x.1 ∧ y.2 ∈ emit x.1 x.2

/-- Reached from one of the first messages by answering. -/
def Derived (start : Multiset (ν × μ)) (x : ν × μ) : Prop :=
  ∃ y ∈ start, ReflTransGen (N.Emits emit) y x

/-- Where a duplicate catcher is, the key stands for the message. -/
def Keyed (start : Multiset (ν × μ)) : Prop :=
  ∀ n m m', N.catches n → N.Derived emit start (n,m) → N.Derived emit start (n,m') →
    N.key m = N.key m' → m = m'

def Settled (H : Set (ν × μ)) (x : ν × μ) : Prop := ∀ y, N.Emits emit x y → y ∈ H

structure History (start : Multiset (ν × μ)) (Holds : ν → σ → Prop) (s : State ν ρ μ κ σ)
    (H : Set (ν × μ)) : Prop where
  first : ∀ x ∈ start, x ∈ H
  derived : ∀ x ∈ H, N.Derived emit start x
  queued : ∀ x ∈ s.queued, x ∈ H
  memory : ∀ r, Holds (N.stage r) (s.memory r)
  working : ∀ r m rest, s.working r = some (m,rest) → (N.stage r,m) ∈ H ∧
    ∃ done, done ++ rest = emit (N.stage r) m ∧
      ∀ x ∈ done, ∀ k ∈ N.next (N.stage r), (k,x) ∈ H
  stored : ∀ r, ∀ k ∈ s.stored r, ∃ m, N.key m = k ∧ (N.stage r,m) ∈ H ∧
    N.Settled emit H (N.stage r,m)
  kept : ∀ x ∈ H, x ∈ s.queued ∨ (∃ r rest, N.stage r = x.1 ∧ s.working r = some (x.2,rest)) ∨
    (∃ r, N.stage r = x.1) ∧ N.Settled emit H x

section
variable [DecidableEq ρ]

inductive Step : State ν ρ μ κ σ → State ν ρ μ κ σ → Prop
  | take {s r m q out t} (hqueue : s.queued = (N.stage r,m) ::ₘ q) (hidle : s.working r = none)
      (hnew : N.catches (N.stage r) → N.key m ∉ s.stored r)
      (hhandle : N.handle (N.stage r) m (s.memory r) (some out) t) :
      Step s {s with
        queued := q
        working := Function.update s.working r (some (m,out))
        memory := Function.update s.memory r t}
  | refuse {s r m t} (hqueue : (N.stage r,m) ∈ s.queued) (hidle : s.working r = none)
      (hhandle : N.handle (N.stage r) m (s.memory r) none t) :
      Step s {s with memory := Function.update s.memory r t}
  | drop {s r m q} (hqueue : s.queued = (N.stage r,m) ::ₘ q) (hidle : s.working r = none)
      (hcatches : N.catches (N.stage r)) (hold : N.key m ∈ s.stored r) :
      Step s {s with queued := q}
  | publish {s r m x rest} (hworking : s.working r = some (m,x :: rest)) :
      Step s {s with
        queued := N.copies (N.stage r) x + s.queued
        working := Function.update s.working r (some (m,rest))}
  | store {s r m} (hworking : s.working r = some (m,[])) (hcatches : N.catches (N.stage r)) :
      Step s {s with stored := Function.update s.stored r (insert (N.key m) (s.stored r))}
  | acknowledge {s r m} (hworking : s.working r = some (m,[]))
      (hstored : N.catches (N.stage r) → N.key m ∈ s.stored r) :
      Step s {s with working := Function.update s.working r none}
  | crash {s r t kept} (hfresh : N.fresh (N.stage r) t) (hkept : kept ⊆ s.stored r) :
      Step s {s with
        queued := N.held s r + s.queued
        working := Function.update s.working r none
        memory := Function.update s.memory r t
        stored := Function.update s.stored r kept}
  | change {s r t} (hchange : N.change (N.stage r) (s.memory r) t) :
      Step s {s with memory := Function.update s.memory r t}

inductive Reached (start : Multiset (ν × μ)) : State ν ρ μ κ σ → Prop
  | init {s} : N.Initial start s → Reached start s
  | step {s t} : Reached start s → N.Step s t → Reached start t

end

section
variable {N} {emit : ν → μ → List μ} {start : Multiset (ν × μ)} {Holds : ν → σ → Prop}
variable {s t : State ν ρ μ κ σ} {H : Set (ν × μ)} {r : ρ} {m : μ}

theorem Derived.emits {x y : ν × μ} (hx : N.Derived emit start x) (h : N.Emits emit x y) :
    N.Derived emit start y := by
  obtain ⟨z,hz,hzx⟩ := hx
  exact ⟨z,hz,hzx.tail h⟩

theorem Settled.mono {H K : Set (ν × μ)} {x : ν × μ} (h : N.Settled emit H x) (hk : H ⊆ K) :
    N.Settled emit K x := fun y hy => hk (h y hy)

/-- All answers are out. -/
theorem settled_of_done (h : ∀ x ∈ emit (N.stage r) m, ∀ k ∈ N.next (N.stage r), (k,x) ∈ H) :
    N.Settled emit H (N.stage r,m) := by
  rintro ⟨k,x⟩ ⟨-,hk,hx⟩
  exact h x hx k hk

theorem mem_copies {n k : ν} {x y : μ} : (k,y) ∈ N.copies n x ↔ k ∈ N.next n ∧ y = x := by
  unfold copies
  rw [Multiset.mem_coe,List.mem_map]
  constructor
  · rintro ⟨j,hj,heq⟩
    cases heq
    exact ⟨hj,rfl⟩
  · rintro ⟨hk,rfl⟩
    exact ⟨k,hk,rfl⟩

theorem Initial.history (hi : N.Initial start s) (hc : N.Computes emit Holds) :
    N.History emit start Holds s {x | x ∈ start} := by
  refine ⟨fun _ hx => hx,fun x hx => ⟨x,hx,.refl⟩,?_,fun r => hc.fresh _ _ (hi.memory r),?_,?_,?_⟩
  · intro x hx
    rw [hi.queued] at hx
    exact hx
  · intro r m rest hw
    rw [hi.working r] at hw
    cases hw
  · intro r k hk
    rw [hi.stored r] at hk
    exact absurd hk (Set.notMem_empty k)
  · intro x hx
    rw [hi.queued]
    exact Or.inl hx

theorem History.drop (h : N.History emit start Holds s H) (hkeyed : N.Keyed emit start)
    {q : Multiset (ν × μ)} (hqueue : s.queued = (N.stage r,m) ::ₘ q)
    (hcatches : N.catches (N.stage r)) (hold : N.key m ∈ s.stored r) :
    N.History emit start Holds {s with queued := q} H := by
  have hmem : (N.stage r,m) ∈ H := h.queued _ (by rw [hqueue]; exact Multiset.mem_cons_self _ _)
  refine ⟨h.first,h.derived,?_,h.memory,h.working,h.stored,?_⟩
  · intro x hx
    exact h.queued x (by rw [hqueue]; exact Multiset.mem_cons_of_mem hx)
  · intro x hx
    rcases h.kept x hx with hq | hrest
    · rw [hqueue] at hq
      rcases Multiset.mem_cons.mp hq with rfl | hq
      · -- the message whose key was stored is the same one
        obtain ⟨m',hkey,hmem',hsettled⟩ := h.stored r _ hold
        have heq := hkeyed _ m' m hcatches (h.derived _ hmem') (h.derived _ hmem) hkey
        rw [heq] at hsettled
        exact Or.inr (Or.inr ⟨⟨r,rfl⟩,hsettled⟩)
      · exact Or.inl hq
    · exact Or.inr hrest

variable [DecidableEq ρ]

theorem memory_update (hm : ∀ r, Holds (N.stage r) (s.memory r)) {u : σ}
    (hu : Holds (N.stage r) u) (r' : ρ) :
    Holds (N.stage r') (Function.update s.memory r u r') := by
  rcases eq_or_ne r' r with rfl | hne
  · rw [Function.update_self]
    exact hu
  · rw [Function.update_of_ne hne]
    exact hm r'

/-- A replica that changes nothing but its memory. -/
theorem History.setMemory (h : N.History emit start Holds s H) {u : σ}
    (hu : Holds (N.stage r) u) :
    N.History emit start Holds {s with memory := Function.update s.memory r u} H :=
  ⟨h.first,h.derived,h.queued,memory_update h.memory hu,h.working,h.stored,h.kept⟩

theorem History.take (h : N.History emit start Holds s H) (hc : N.Computes emit Holds)
    {q : Multiset (ν × μ)} {out : List μ} {u : σ} (hqueue : s.queued = (N.stage r,m) ::ₘ q)
    (hidle : s.working r = none) (hhandle : N.handle (N.stage r) m (s.memory r) (some out) u) :
    N.History emit start Holds {s with
      queued := q
      working := Function.update s.working r (some (m,out))
      memory := Function.update s.memory r u} H := by
  have hmem : (N.stage r,m) ∈ H := h.queued _ (by rw [hqueue]; exact Multiset.mem_cons_self _ _)
  have hout : out = emit (N.stage r) m := hc.answer _ _ _ _ _ (h.memory r) hhandle
  have hu : Holds (N.stage r) u := hc.memory _ _ _ _ _ (h.memory r) hhandle
  refine ⟨h.first,h.derived,?_,memory_update h.memory hu,?_,h.stored,?_⟩
  · intro x hx
    exact h.queued x (by rw [hqueue]; exact Multiset.mem_cons_of_mem hx)
  · intro r' m' rest hw
    rcases eq_or_ne r' r with rfl | hne
    · simp only [Function.update_self,Option.some.injEq,Prod.mk.injEq] at hw
      obtain ⟨rfl,rfl⟩ := hw
      exact ⟨hmem,[],hout,fun _ hx => absurd hx List.not_mem_nil⟩
    · simp only [Function.update_of_ne hne] at hw
      exact h.working r' m' rest hw
  · intro x hx
    rcases h.kept x hx with hq | ⟨r',rest,hr',hw⟩ | hsettled
    · rw [hqueue] at hq
      rcases Multiset.mem_cons.mp hq with rfl | hq
      · exact Or.inr (Or.inl ⟨r,out,rfl,Function.update_self ..⟩)
      · exact Or.inl hq
    · have hne : r' ≠ r := by
        rintro rfl
        rw [hidle] at hw
        cases hw
      exact Or.inr (Or.inl ⟨r',rest,hr',(Function.update_of_ne hne _ _).trans hw⟩)
    · exact Or.inr (Or.inr hsettled)

/-- Publishing is the only step that adds to the set. -/
theorem History.publish (h : N.History emit start Holds s H) {x : μ} {rest : List μ}
    (hworking : s.working r = some (m,x :: rest)) :
    N.History emit start Holds {s with
      queued := N.copies (N.stage r) x + s.queued
      working := Function.update s.working r (some (m,rest))}
      (H ∪ {y | y ∈ N.copies (N.stage r) x}) := by
  obtain ⟨hmem,done,hdone,hout⟩ := h.working r m _ hworking
  have hsub : H ⊆ H ∪ {y | y ∈ N.copies (N.stage r) x} := Set.subset_union_left
  have hx : x ∈ emit (N.stage r) m := by
    rw [← hdone]
    exact List.mem_append_right _ List.mem_cons_self
  refine ⟨fun y hy => hsub (h.first y hy),?_,?_,h.memory,?_,?_,?_⟩
  · rintro ⟨k,y⟩ (hy | hy)
    · exact h.derived _ hy
    · obtain ⟨hk,rfl⟩ := mem_copies.mp hy
      exact (h.derived _ hmem).emits ⟨⟨r,rfl⟩,hk,hx⟩
  · intro y hy
    rcases Multiset.mem_add.mp hy with hy | hy
    · exact Or.inr hy
    · exact hsub (h.queued y hy)
  · intro r' m' rest' hw
    rcases eq_or_ne r' r with rfl | hne
    · simp only [Function.update_self,Option.some.injEq,Prod.mk.injEq] at hw
      obtain ⟨rfl,rfl⟩ := hw
      refine ⟨hsub hmem,done ++ [x],by rw [List.append_assoc]; exact hdone,?_⟩
      intro y hy k hk
      rcases List.mem_append.mp hy with hy | hy
      · exact hsub (hout y hy k hk)
      · exact Or.inr (mem_copies.mpr ⟨hk,List.mem_singleton.mp hy⟩)
    · simp only [Function.update_of_ne hne] at hw
      obtain ⟨hmem',done',hdone',hout'⟩ := h.working r' m' rest' hw
      exact ⟨hsub hmem',done',hdone',fun y hy k hk => hsub (hout' y hy k hk)⟩
  · intro r' k hk
    obtain ⟨m',hkey,hmem',hsettled⟩ := h.stored r' k hk
    exact ⟨m',hkey,hsub hmem',hsettled.mono hsub⟩
  · rintro y (hy | hy)
    · rcases h.kept y hy with hq | ⟨r',rest',hr',hw⟩ | ⟨hr',hsettled⟩
      · exact Or.inl (Multiset.mem_add.mpr (Or.inr hq))
      · rcases eq_or_ne r' r with rfl | hne
        · rw [hworking] at hw
          cases hw
          exact Or.inr (Or.inl ⟨r',rest,hr',Function.update_self ..⟩)
        · exact Or.inr (Or.inl ⟨r',rest',hr',(Function.update_of_ne hne _ _).trans hw⟩)
      · exact Or.inr (Or.inr ⟨hr',hsettled.mono hsub⟩)
    · exact Or.inl (Multiset.mem_add.mpr (Or.inl hy))

theorem History.store (h : N.History emit start Holds s H) (hworking : s.working r = some (m,[])) :
    N.History emit start Holds
      {s with stored := Function.update s.stored r (insert (N.key m) (s.stored r))} H := by
  obtain ⟨hmem,done,hdone,hout⟩ := h.working r m [] hworking
  refine ⟨h.first,h.derived,h.queued,h.memory,h.working,?_,h.kept⟩
  intro r' k hk
  rcases eq_or_ne r' r with rfl | hne
  · simp only [Function.update_self] at hk
    rcases hk with rfl | hk
    · rw [List.append_nil] at hdone
      exact ⟨m,rfl,hmem,settled_of_done (hdone ▸ hout)⟩
    · exact h.stored r' k hk
  · simp only [Function.update_of_ne hne] at hk
    exact h.stored r' k hk

theorem History.acknowledge (h : N.History emit start Holds s H)
    (hworking : s.working r = some (m,[])) :
    N.History emit start Holds {s with working := Function.update s.working r none} H := by
  obtain ⟨hmem,done,hdone,hout⟩ := h.working r m [] hworking
  refine ⟨h.first,h.derived,h.queued,h.memory,?_,h.stored,?_⟩
  · intro r' m' rest hw
    rcases eq_or_ne r' r with rfl | hne
    · simp at hw
    · simp only [Function.update_of_ne hne] at hw
      exact h.working r' m' rest hw
  · intro x hx
    rcases h.kept x hx with hq | ⟨r',rest,hr',hw⟩ | hsettled
    · exact Or.inl hq
    · rcases eq_or_ne r' r with rfl | hne
      · rw [hworking] at hw
        cases hw
        rw [List.append_nil] at hdone
        have hx' : x = (N.stage r',x.2) := Prod.ext hr'.symm rfl
        rw [hx']
        exact Or.inr (Or.inr ⟨⟨r',rfl⟩,settled_of_done (hdone ▸ hout)⟩)
      · exact Or.inr (Or.inl ⟨r',rest,hr',(Function.update_of_ne hne _ _).trans hw⟩)
    · exact Or.inr (Or.inr hsettled)

theorem History.crash (h : N.History emit start Holds s H) {u : σ} (hu : Holds (N.stage r) u)
    {kept : Set κ} (hkept : kept ⊆ s.stored r) :
    N.History emit start Holds {s with
      queued := N.held s r + s.queued
      working := Function.update s.working r none
      memory := Function.update s.memory r u
      stored := Function.update s.stored r kept} H := by
  have hheld : ∀ x ∈ N.held s r, x ∈ H := by
    intro x hx
    unfold held at hx
    cases hw : s.working r with
    | none =>
        rw [hw] at hx
        exact absurd hx (Multiset.notMem_zero x)
    | some w =>
        rw [hw] at hx
        rw [Multiset.mem_singleton.mp hx]
        exact (h.working r w.1 w.2 hw).1
  refine ⟨h.first,h.derived,?_,memory_update h.memory hu,?_,?_,?_⟩
  · intro x hx
    rcases Multiset.mem_add.mp hx with hx | hx
    · exact hheld x hx
    · exact h.queued x hx
  · intro r' m' rest hw
    rcases eq_or_ne r' r with rfl | hne
    · simp at hw
    · simp only [Function.update_of_ne hne] at hw
      exact h.working r' m' rest hw
  · intro r' k hk
    rcases eq_or_ne r' r with rfl | hne
    · simp only [Function.update_self] at hk
      exact h.stored r' k (hkept hk)
    · simp only [Function.update_of_ne hne] at hk
      exact h.stored r' k hk
  · intro x hx
    rcases h.kept x hx with hq | ⟨r',rest,hr',hw⟩ | hsettled
    · exact Or.inl (Multiset.mem_add.mpr (Or.inr hq))
    · rcases eq_or_ne r' r with rfl | hne
      · refine Or.inl (Multiset.mem_add.mpr (Or.inl ?_))
        unfold held
        rw [hw]
        exact Multiset.mem_singleton.mpr (Prod.ext hr'.symm rfl)
      · exact Or.inr (Or.inl ⟨r',rest,hr',(Function.update_of_ne hne _ _).trans hw⟩)
    · exact Or.inr (Or.inr hsettled)

/-- What one step does to the set. -/
theorem History.step (h : N.History emit start Holds s H) (hc : N.Computes emit Holds)
    (hkeyed : N.Keyed emit start) (hs : N.Step s t) :
    ∃ K, H ⊆ K ∧ N.History emit start Holds t K := by
  cases hs with
  | take hqueue hidle _ hhandle => exact ⟨H,Set.Subset.rfl,h.take hc hqueue hidle hhandle⟩
  | @refuse r _ _ _ _ hhandle =>
      exact ⟨H,Set.Subset.rfl,h.setMemory (hc.memory _ _ _ _ _ (h.memory r) hhandle)⟩
  | drop hqueue _ hcatches hold => exact ⟨H,Set.Subset.rfl,h.drop hkeyed hqueue hcatches hold⟩
  | publish hworking => exact ⟨_,Set.subset_union_left,h.publish hworking⟩
  | store hworking _ => exact ⟨H,Set.Subset.rfl,h.store hworking⟩
  | acknowledge hworking _ => exact ⟨H,Set.Subset.rfl,h.acknowledge hworking⟩
  | crash hfresh hkept => exact ⟨H,Set.Subset.rfl,h.crash (hc.fresh _ _ hfresh) hkept⟩
  | @change r _ hchange =>
      exact ⟨H,Set.Subset.rfl,h.setMemory (hc.change _ _ _ (h.memory r) hchange)⟩

theorem Reached.history (hc : N.Computes emit Holds) (hkeyed : N.Keyed emit start)
    (hs : N.Reached start s) : ∃ H, N.History emit start Holds s H := by
  induction hs with
  | init hi => exact ⟨_,hi.history hc⟩
  | step _ hstep ih =>
      obtain ⟨H,h⟩ := ih
      obtain ⟨K,-,hk⟩ := h.step hc hkeyed hstep
      exact ⟨K,hk⟩

/-- No message is made up. -/
theorem Reached.sound (hc : N.Computes emit Holds) (hkeyed : N.Keyed emit start)
    (hs : N.Reached start s) {x : ν × μ} (hx : x ∈ s.queued) : N.Derived emit start x := by
  obtain ⟨H,h⟩ := hs.history hc hkeyed
  exact h.derived x (h.queued x hx)

/-- None is lost: when nothing is left to do, what can be derived has arrived. The
induction is on the derivation; every message on its way is settled. -/
theorem Reached.complete (hc : N.Computes emit Holds) (hkeyed : N.Keyed emit start)
    (hs : N.Reached start s) (hquiet : N.Quiet s) {x : ν × μ} (hx : N.Derived emit start x)
    (hread : ∀ r, N.stage r ≠ x.1) : x ∈ s.queued := by
  obtain ⟨H,h⟩ := hs.history hc hkeyed
  have hsettled : ∀ y ∈ H, (∃ r, N.stage r = y.1) → N.Settled emit H y := by
    rintro y hy ⟨r,hr⟩
    rcases h.kept y hy with hq | ⟨r',rest,-,hw⟩ | ⟨-,hset⟩
    · exact absurd hr (hquiet.2 y hq r)
    · rw [hquiet.1 r'] at hw
      cases hw
    · exact hset
  have hmem : x ∈ H := by
    obtain ⟨y,hy,hyx⟩ := hx
    clear hread
    induction hyx with
    | refl => exact h.first y hy
    | tail _ he ih => exact hsettled _ ih he.1 _ he
  rcases h.kept x hmem with hq | ⟨r,-,hr,-⟩ | ⟨⟨r,hr⟩,-⟩
  · exact hq
  · exact absurd hr (hread r)
  · exact absurd hr (hread r)

theorem Reached.steps (hs : N.Reached start s) (h : ReflTransGen N.Step s t) :
    N.Reached start t := by
  induction h with
  | refl => exact hs
  | tail _ hstep ih => exact ih.step hstep

/-- What other threads do to one memory. -/
theorem changes {u v : σ} (h : ReflTransGen (N.change (N.stage r)) u v) (hu : s.memory r = u) :
    ReflTransGen N.Step s {s with memory := Function.update s.memory r v} := by
  induction h with
  | refl =>
      rw [← hu,Function.update_eq_self]
  | @tail v w _ hchange ih =>
      have hstep := Step.change (N := N) (s := {s with memory := Function.update s.memory r v})
        (r := r) (t := w) (by dsimp only; rw [Function.update_self]; exact hchange)
      rw [Function.update_idem] at hstep
      exact ih.tail hstep

section
variable (N) (rank : ν → ℕ)

/-- A message in a queue weighs its stage. -/
def weight (q : Multiset (ν × μ)) : Multiset (ℕ ×ₗ WithTop ℕ) :=
  q.map fun x => toLex (rank x.1,⊤)

/-- Once it is taken, it weighs less with every answer that is out. -/
def load (r : ρ) : Option (μ × List μ) → Multiset (ℕ ×ₗ WithTop ℕ)
  | none => 0
  | some (_,rest) => {toLex (rank (N.stage r),WithTop.some rest.length)}

def measure [Fintype ρ] (s : State ν ρ μ κ σ) : Multiset (ℕ ×ₗ WithTop ℕ) :=
  weight rank s.queued + ∑ r, load N rank r (s.working r)

end

variable {rank : ν → ℕ} [Fintype ρ]

/-- One replica replaces what it holds, and some messages of the queues, by less. -/
theorem measure_lt {q old : Multiset (ν × μ)} (new : Multiset (ν × μ)) (a : Option (μ × List μ))
    (memory : ρ → σ) (stored : ρ → Set κ) {z : ℕ ×ₗ WithTop ℕ} (hq : s.queued = old + q)
    (hz : z ∈ weight rank old + load N rank r (s.working r))
    (hlt : ∀ y ∈ weight rank new + load N rank r a, y < z) :
    (measure N rank ⟨new + q,Function.update s.working r a,memory,stored⟩).IsDershowitzMannaLT
      (measure N rank s) := by
  have hothers : ∑ r' ∈ Finset.univ.erase r, load N rank r' (Function.update s.working r a r') =
      ∑ r' ∈ Finset.univ.erase r, load N rank r' (s.working r') := by
    apply Finset.sum_congr rfl
    intro r' hr'
    rw [Function.update_of_ne (Finset.ne_of_mem_erase hr')]
  refine ⟨weight rank q + ∑ r' ∈ Finset.univ.erase r, load N rank r' (s.working r'),
    weight rank new + load N rank r a,weight rank old + load N rank r (s.working r),?_,?_,?_,
    fun y hy => ⟨z,hz,hlt y hy⟩⟩
  · intro hzero
    rw [hzero] at hz
    exact Multiset.notMem_zero z hz
  · unfold measure weight
    dsimp only
    rw [← Finset.add_sum_erase _ _ (Finset.mem_univ r),hothers,Function.update_self,
      Multiset.map_add]
    ac_rfl
  · unfold measure weight
    rw [← Finset.add_sum_erase _ _ (Finset.mem_univ r),hq,Multiset.map_add]
    ac_rfl

/-- A message weighs more than any replica that holds one of its stage. -/
theorem taken_lt {q : Multiset (ν × μ)} {out : List μ} {memory : ρ → σ} {stored : ρ → Set κ}
    (hqueue : s.queued = (N.stage r,m) ::ₘ q) (hidle : s.working r = none) :
    (measure N rank ⟨q,Function.update s.working r (some (m,out)),memory,stored⟩).IsDershowitzMannaLT
      (measure N rank s) := by
  have hz : toLex (rank (N.stage r),⊤) ∈
      weight rank {(N.stage r,m)} + load N rank r (s.working r) := by
    rw [hidle]
    simp [weight,load]
  have hlt := measure_lt 0 (some (m,out)) memory stored hqueue hz
  rw [zero_add] at hlt
  apply hlt
  intro y hy
  have hy : y = toLex (rank (N.stage r),WithTop.some out.length) := by
    simpa [weight,load] using hy
  rw [hy,Prod.Lex.toLex_lt_toLex]
  exact Or.inr ⟨rfl,WithTop.coe_lt_top _⟩

theorem dropped_lt {q : Multiset (ν × μ)} (hqueue : s.queued = (N.stage r,m) ::ₘ q)
    (hidle : s.working r = none) :
    (measure N rank {s with queued := q}).IsDershowitzMannaLT (measure N rank s) := by
  have hz : toLex (rank (N.stage r),⊤) ∈
      weight rank {(N.stage r,m)} + load N rank r (s.working r) := by
    rw [hidle]
    simp [weight,load]
  have hlt := measure_lt 0 none s.memory s.stored hqueue hz
  rw [zero_add,← hidle,Function.update_eq_self] at hlt
  apply hlt
  intro y hy
  rw [hidle] at hy
  exact absurd hy (Multiset.notMem_zero y)

theorem published_lt (hrank : ∀ n, ∀ k ∈ N.next n, rank k < rank n) {x : μ} {rest : List μ}
    (hworking : s.working r = some (m,x :: rest)) :
    (measure N rank {s with
      queued := N.copies (N.stage r) x + s.queued
      working := Function.update s.working r (some (m,rest))}).IsDershowitzMannaLT
      (measure N rank s) := by
  have hz : toLex (rank (N.stage r),WithTop.some (x :: rest).length) ∈
      weight rank (0 : Multiset (ν × μ)) + load N rank r (s.working r) := by
    rw [hworking]
    simp [weight,load]
  apply measure_lt _ _ _ _ (zero_add _).symm hz
  intro y hy
  rcases Multiset.mem_add.mp hy with hy | hy
  · obtain ⟨⟨k,z⟩,hk,rfl⟩ := Multiset.mem_map.mp hy
    rw [Prod.Lex.toLex_lt_toLex]
    exact Or.inl (hrank _ k (mem_copies.mp hk).1)
  · rw [Multiset.mem_singleton.mp hy,Prod.Lex.toLex_lt_toLex]
    refine Or.inr ⟨rfl,?_⟩
    exact WithTop.coe_lt_coe.mpr (Nat.lt_succ_self rest.length)

theorem acknowledged_lt {stored : ρ → Set κ} (hworking : s.working r = some (m,[])) :
    (measure N rank ⟨s.queued,Function.update s.working r none,s.memory,stored⟩).IsDershowitzMannaLT
      (measure N rank s) := by
  have hz : toLex (rank (N.stage r),WithTop.some ([] : List μ).length) ∈
      weight rank (0 : Multiset (ν × μ)) + load N rank r (s.working r) := by
    rw [hworking]
    simp [weight,load]
  have hlt := measure_lt 0 none s.memory stored (zero_add _).symm hz
  rw [zero_add] at hlt
  apply hlt
  exact fun y hy => absurd hy (Multiset.notMem_zero y)

/-- Where the stages are in an order, and every message can be answered once other
threads have done their part, what is left can always be finished. The induction is
on the weight of all messages; the step finishes a message in hand or takes one. -/
theorem Reached.finishes (hc : N.Computes emit Holds) (hkeyed : N.Keyed emit start)
    (hrank : ∀ n, ∀ k ∈ N.next n, rank k < rank n)
    (hready : ∀ r m u, Holds (N.stage r) u → N.Derived emit start (N.stage r,m) →
      ∃ v, ReflTransGen (N.change (N.stage r)) u v ∧
        ∃ out v', N.handle (N.stage r) m v (some out) v')
    (hs : N.Reached start s) : ∃ t, ReflTransGen N.Step s t ∧ N.Quiet t := by
  obtain ⟨M,hM⟩ : ∃ M, M = measure N rank s := ⟨_,rfl⟩
  have hwf : WellFounded (Multiset.IsDershowitzMannaLT (α := ℕ ×ₗ WithTop ℕ)) :=
    Multiset.wellFounded_isDershowitzMannaLT
  revert s
  induction M using hwf.induction with
  | _ M ih =>
      rintro s hs rfl
      have hfinish : ∀ t, ReflTransGen N.Step s t →
          (measure N rank t).IsDershowitzMannaLT (measure N rank s) →
          ∃ t, ReflTransGen N.Step s t ∧ N.Quiet t := by
        intro t hst hlt
        obtain ⟨t',htt',hquiet⟩ := ih _ hlt (hs.steps hst) rfl
        exact ⟨t',hst.trans htt',hquiet⟩
      by_cases hidle : ∀ r, s.working r = none
      · by_cases hread : ∀ x ∈ s.queued, ∀ r, N.stage r ≠ x.1
        · exact ⟨s,.refl,hidle,hread⟩
        · push Not at hread
          obtain ⟨⟨n,m⟩,hx,r,rfl⟩ := hread
          obtain ⟨q,hqueue⟩ := Multiset.exists_cons_of_mem hx
          by_cases hdrop : N.catches (N.stage r) ∧ N.key m ∈ s.stored r
          · exact hfinish _ (.single (.drop hqueue (hidle r) hdrop.1 hdrop.2))
              (dropped_lt hqueue (hidle r))
          · obtain ⟨H,hH⟩ := hs.history hc hkeyed
            obtain ⟨v,huv,out,v',hhandle⟩ :=
              hready r m _ (hH.memory r) (hH.derived _ (hH.queued _ hx))
            have hchanges := changes (N := N) (s := s) (r := r) huv rfl
            have htake := Step.take (N := N)
              (s := {s with memory := Function.update s.memory r v}) (t := v') hqueue (hidle r)
              (fun hcatches hk => hdrop ⟨hcatches,hk⟩)
              (by dsimp only; rw [Function.update_self]; exact hhandle)
            exact hfinish _ (hchanges.tail htake) (taken_lt hqueue (hidle r))
      · push Not at hidle
        obtain ⟨r,hr⟩ := hidle
        obtain ⟨⟨m,rest⟩,hworking⟩ := Option.ne_none_iff_exists'.mp hr
        cases rest with
        | cons x rest =>
            exact hfinish _ (.single (.publish hworking)) (published_lt hrank hworking)
        | nil =>
            by_cases hcatches : N.catches (N.stage r)
            · have hstore := Step.store (N := N) hworking hcatches
              have hack := Step.acknowledge (N := N) (r := r) (m := m)
                (s := {s with
                  stored := Function.update s.stored r (insert (N.key m) (s.stored r))}) hworking
                (fun _ => by dsimp only; rw [Function.update_self]; exact Set.mem_insert _ _)
              exact hfinish _ (.tail (.single hstore) hack) (acknowledged_lt hworking)
            · exact hfinish _ (.single (.acknowledge hworking fun h => absurd h hcatches))
                (acknowledged_lt hworking)

end
end Network
end FlightsOptimizer.Redelivery
