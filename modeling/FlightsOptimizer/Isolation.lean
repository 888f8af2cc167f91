import Mathlib.Logic.Function.Basic
import FlightsOptimizer.Grouper

/-!
# Averages and the clients they are for

media_general publishes its averages to a fanout exchange, which copies each to
every queue that is bound. A grouper binds a queue for the client whose EOF it
handles, takes the first average that comes, deletes the queue and logs the
average under the client that the message names. It never looks whether that is
the client it waits for, so the rows are those of the client only where it is.
-/
namespace FlightsOptimizer.MaxAvg
open Logger Eof

structure Average where
  clientId : ClientId
  average : ℚ
  deriving DecidableEq

/-- A grouper and one of its clients. -/
abbrev Key : Type := ReplicaId × ClientId

/-- The groupers with the exchange. `returned` says where `finish_processing` has
come to its end, `blocked` where it waits, `unsaved` is an average that has been
processed and is not in the log yet. -/
structure Groupers where
  processors : Key → Grouper
  returned : Key → Bool
  blocked : ReplicaId → Option ClientId
  queues : Key → Option (List Average)
  unsaved : ReplicaId → Option Average
  stored : Key → List ℚ
  published : List Average

inductive GrouperEvent where
  | publish (a : Average)
  | finishProcessing (r : ReplicaId) (c : ClientId)
  | processMediaGeneral (r : ReplicaId)
  | finishStoringMessage (r : ReplicaId)
  | crash (r : ReplicaId)
  deriving DecidableEq

namespace Groupers

/-- What the groupers have collected, or restored from their connection logs. -/
def initial (routes : Key → Dict String (List ℚ)) : Groupers where
  processors := fun k => ⟨routes k,[]⟩
  returned := fun _ => false
  blocked := fun _ => none
  queues := fun _ => none
  unsaved := fun _ => none
  stored := fun _ => []
  published := []

/-- The exchange copies to the queues that are bound. -/
def publish (a : Average) (s : Groupers) : Groupers :=
  {s with
    queues := fun k => (s.queues k).map fun q => q ++ [a]
    published := a :: s.published}

/-- A grouper that has not got its rows from the log binds its queue, which may
still be there from before a crash, and waits. -/
def finishProcessing (k : Key) (s : Groupers) : Groupers :=
  let answer := (s.processors k).finishProcessing (s.stored k)
  match answer.2 with
  | none =>
      {s with
        processors := Function.update s.processors k answer.1
        returned := Function.update s.returned k true}
  | some _ =>
      {s with
        processors := Function.update s.processors k answer.1
        blocked := Function.update s.blocked k.1 (some k.2)
        queues := Function.update s.queues k (some ((s.queues k).getD []))}

/-- `process_media_general` ends in `stop`, which deletes the queue. -/
def processMediaGeneral (k : Key) (a : Average) (s : Groupers) : Groupers :=
  {s with
    processors := Function.update s.processors k ((s.processors k).processSingle a.average)
    returned := Function.update s.returned k true
    blocked := Function.update s.blocked k.1 none
    queues := Function.update s.queues k none
    unsaved := Function.update s.unsaved k.1 (some a)}

/-- The log of a client gets the averages that name it. -/
def finishStoringMessage (r : ReplicaId) (a : Average) (s : Groupers) : Groupers :=
  {s with
    unsaved := Function.update s.unsaved r none
    stored := Function.update s.stored (r,a.clientId) (a.average :: s.stored (r,a.clientId))}

/-- Queues and logs outlive the process. -/
def crash (routes : Key → Dict String (List ℚ)) (r : ReplicaId) (s : Groupers) : Groupers :=
  {s with
    processors := fun k => if k.1 = r then ⟨routes k,[]⟩ else s.processors k
    returned := fun k => if k.1 = r then false else s.returned k
    blocked := Function.update s.blocked r none
    unsaved := Function.update s.unsaved r none}

/-- The average that a waiting grouper is about to take. -/
def next (s : Groupers) (r : ReplicaId) : Option (ClientId × Average) :=
  (s.blocked r).bind fun c => ((s.queues (r,c)).bind List.head?).map fun a => (c,a)

def step (routes : Key → Dict String (List ℚ)) (s : Groupers) : GrouperEvent → Option Groupers
  | .publish a => some (s.publish a)
  | .finishProcessing r c =>
      if s.blocked r = none ∧ s.unsaved r = none ∧ s.returned (r,c) = false then
        some (s.finishProcessing (r,c)) else none
  | .processMediaGeneral r => (s.next r).map fun p => s.processMediaGeneral (r,p.1) p.2
  | .finishStoringMessage r => (s.unsaved r).map fun a => s.finishStoringMessage r a
  | .crash r => some (s.crash routes r)

variable (routes : Key → Dict String (List ℚ))

inductive Run (guard : Groupers → GrouperEvent → Prop) : Groupers → Prop
  | init : Run guard (initial routes)
  | step {s s' : Groupers} {e : GrouperEvent} :
      Run guard s → guard s e → s.step routes e = some s' → Run guard s'

variable {routes} in
theorem Run.mono {guard guard' : Groupers → GrouperEvent → Prop}
    (hg : ∀ s e, guard s e → guard' s e) {s : Groupers}
    (h : Run routes guard s) : Run routes guard' s := by
  induction h with
  | init => exact .init
  | step _ he hs ih => exact .step ih (hg _ _ he) hs

/-- No grouper takes an average that names another client. -/
def Addressed (s : Groupers) : GrouperEvent → Prop
  | .processMediaGeneral r => ∀ p, s.next r = some p → p.2.clientId = p.1
  | _ => True

/-- Each route with its fares above `m`, if there are any. -/
structure Above (routes : Dict String (List ℚ)) (m : ℚ) (rows : List RoutePrices) : Prop where
  nodup : (rows.map RoutePrices.route).Nodup
  mem : ∀ x, x ∈ rows ↔ x.prices = (routes.getD x.route []).filter fun p => m < p

variable {routes}

/-- The rows that the log of a client leads to. -/
def restored (routes : Key → Dict String (List ℚ)) (s : Groupers) (k : Key) : List RoutePrices :=
  (s.stored k).flatMap fun m => (⟨routes k,[]⟩ : Grouper).filtered m

/-- The rows for some average that was published for the client. -/
def Exact (routes : Key → Dict String (List ℚ)) (s : Groupers) (k : Key)
    (rows : List RoutePrices) : Prop :=
  ∃ m, ⟨k.2,m⟩ ∈ s.published ∧ rows = (⟨routes k,[]⟩ : Grouper).filtered m

structure Keeps (routes : Key → Dict String (List ℚ)) (s : Groupers) (k : Key) : Prop where
  collected : (s.processors k).routes = routes k
  returned : s.returned k = true → Exact routes s k (s.processors k).vuelosMessageToSend
  collecting : s.returned k = false → (s.processors k).vuelosMessageToSend = []
  log : restored routes s k = [] ∨ Exact routes s k (restored routes s k)
  queue : ∀ q, s.queues k = some q → ∀ a ∈ q, a ∈ s.published
  waiting : s.blocked k.1 = some k.2 →
    s.returned k = false ∧ restored routes s k = [] ∧ s.unsaved k.1 = none
  unsaved : ∀ m, s.unsaved k.1 = some ⟨k.2,m⟩ →
    ⟨k.2,m⟩ ∈ s.published ∧ restored routes s k = [] ∧ s.blocked k.1 = none

theorem keeps_initial (k : Key) : Keeps routes (initial routes) k where
  collected := rfl
  returned := nofun
  collecting := fun _ => rfl
  log := Or.inl rfl
  queue := nofun
  waiting := nofun
  unsaved := nofun

variable {s : Groupers} {k : Key}

theorem Keeps.publish (h : Keeps routes s k) (a : Average) : Keeps routes (s.publish a) k where
  collected := h.collected
  returned := by
    intro hr
    obtain ⟨m,hm,hrows⟩ := h.returned hr
    exact ⟨m,List.mem_cons_of_mem a hm,hrows⟩
  collecting := h.collecting
  log := by
    rcases h.log with hlog | ⟨m,hm,hrows⟩
    · exact Or.inl hlog
    · exact Or.inr ⟨m,List.mem_cons_of_mem a hm,hrows⟩
  queue := by
    intro q hq b hb
    obtain ⟨q',hq',rfl⟩ := Option.map_eq_some_iff.mp hq
    rcases List.mem_append.mp hb with hb | hb
    · exact List.mem_cons_of_mem a (h.queue q' hq' b hb)
    · rw [List.mem_singleton.mp hb]
      exact List.mem_cons_self
  waiting := h.waiting
  unsaved := by
    intro m hm
    obtain ⟨hp,hr,hb⟩ := h.unsaved m hm
    exact ⟨List.mem_cons_of_mem a hp,hr,hb⟩

theorem restoreMediaGeneral_eq (stored : List ℚ) (g : Grouper) :
    g.restoreMediaGeneral stored =
      ⟨g.routes,g.vuelosMessageToSend ++ stored.flatMap fun m =>
        (⟨g.routes,[]⟩ : Grouper).filtered m⟩ := by
  unfold Grouper.restoreMediaGeneral
  induction stored generalizing g with
  | nil => rw [List.flatMap_nil,List.append_nil]; rfl
  | cons m ms ih =>
      rw [List.foldl_cons,ih,List.flatMap_cons,← List.append_assoc]
      rfl

/-- The events of one key leave the others alone. -/
theorem Keeps.frame {s' : Groupers} (h : Keeps routes s k)
    (hprocessor : s'.processors k = s.processors k) (hreturned : s'.returned k = s.returned k)
    (hqueue : s'.queues k = s.queues k) (hstored : s'.stored k = s.stored k)
    (hpublished : s'.published = s.published)
    (hblocked : s'.blocked k.1 = some k.2 → s.blocked k.1 = some k.2 ∧ s'.unsaved k.1 = none)
    (hunsaved : ∀ m, s'.unsaved k.1 = some ⟨k.2,m⟩ →
      s.unsaved k.1 = some ⟨k.2,m⟩ ∧ s'.blocked k.1 = none) : Keeps routes s' k := by
  have hrestored : restored routes s' k = restored routes s k := by
    unfold restored
    rw [hstored]
  have hexact : ∀ rows, Exact routes s k rows → Exact routes s' k rows := by
    rintro rows ⟨m,hm,hrows⟩
    exact ⟨m,hpublished.symm ▸ hm,hrows⟩
  constructor
  · rw [hprocessor]
    exact h.collected
  · rw [hprocessor,hreturned]
    exact fun hr => hexact _ (h.returned hr)
  · rw [hprocessor,hreturned]
    exact h.collecting
  · rw [hrestored]
    exact h.log.imp_right (hexact _)
  · rw [hqueue,hpublished]
    exact h.queue
  · intro hb
    obtain ⟨hb,hu⟩ := hblocked hb
    obtain ⟨hr,hl,-⟩ := h.waiting hb
    rw [hreturned,hrestored]
    exact ⟨hr,hl,hu⟩
  · intro m hm
    obtain ⟨hm,hb⟩ := hunsaved m hm
    obtain ⟨hp,hl,-⟩ := h.unsaved m hm
    rw [hpublished,hrestored]
    exact ⟨hp,hl,hb⟩

theorem Keeps.finishProcessing_eq (h : Keeps routes s k) (hr : s.returned k = false) :
    (s.processors k).finishProcessing (s.stored k) =
      (⟨routes k,restored routes s k⟩,if restored routes s k ≠ [] then none
        else some (⟨routes k,restored routes s k⟩ : Grouper).partialSum) := by
  have hrestore : (s.processors k).restoreMediaGeneral (s.stored k) =
      ⟨routes k,restored routes s k⟩ := by
    rw [restoreMediaGeneral_eq,h.collected,h.collecting hr]
    rfl
  unfold Grouper.finishProcessing
  rw [hrestore]
  split_ifs with hl
  · exact if_pos hl
  · exact if_neg hl

/-- Rows from the log end the instance, and otherwise it waits. -/
theorem Keeps.finishProcessing {l : Key} (h : ∀ k, Keeps routes s k)
    (hb : s.blocked l.1 = none) (hu : s.unsaved l.1 = none) (hr : s.returned l = false) (k : Key) :
    Keeps routes (s.finishProcessing l) k := by
  unfold Groupers.finishProcessing
  rw [(h l).finishProcessing_eq hr]
  have hk := h k
  by_cases hl : restored routes s l = []
  · simp only [hl,ne_eq,not_true_eq_false,if_false]
    by_cases hkl : k = l
    · subst hkl
      constructor
      · simp only [Function.update_self]
      · exact fun hr' => absurd (hr.symm.trans hr') Bool.false_ne_true
      · simp only [Function.update_self,implies_true]
      · exact hk.log
      · simp only [Function.update_self,Option.some.injEq]
        rintro q rfl a ha
        cases hq : s.queues k with
        | none => simp [hq] at ha
        | some q => exact hk.queue q hq a (by simpa [hq] using ha)
      · exact fun _ => ⟨hr,hl,hu⟩
      · intro m hm
        exact absurd (hu.symm.trans hm) (by simp)
    · refine hk.frame (Function.update_of_ne hkl _ _) rfl (Function.update_of_ne hkl _ _) rfl rfl
        ?_ ?_
      · intro hb'
        by_cases hrep : k.1 = l.1
        · simp only [hrep,Function.update_self,Option.some.injEq] at hb'
          exact absurd (Prod.ext hrep hb'.symm) hkl
        · simp only [Function.update_of_ne hrep] at hb'
          exact ⟨hb',(hk.waiting hb').2.2⟩
      · intro m hm
        refine ⟨hm,?_⟩
        by_cases hrep : k.1 = l.1
        · simp [hrep,hu] at hm
        · simp only [Function.update_of_ne hrep]
          exact (hk.unsaved m hm).2.2
  · simp only [ne_eq,hl,not_false_eq_true,if_true]
    by_cases hkl : k = l
    · subst hkl
      constructor
      · simp only [Function.update_self]
      · simp only [Function.update_self]
        exact fun _ => hk.log.resolve_left hl
      · simp only [Function.update_self,Bool.true_eq_false,false_implies]
      · exact hk.log
      · exact hk.queue
      · intro hb'
        exact absurd (hb.symm.trans hb') (by simp)
      · intro m hm
        exact absurd (hu.symm.trans hm) (by simp)
    · exact hk.frame (Function.update_of_ne hkl _ _) (Function.update_of_ne hkl _ _) rfl rfl rfl
        (fun hb' => ⟨hb',(hk.waiting hb').2.2⟩) fun m hm => ⟨hm,(hk.unsaved m hm).2.2⟩

theorem next_eq_some {r : ReplicaId} {c : ClientId} {a : Average} (h : s.next r = some (c,a)) :
    s.blocked r = some c ∧ ∃ q, s.queues (r,c) = some q ∧ a ∈ q := by
  obtain ⟨c',hc,h⟩ := Option.bind_eq_some_iff.mp h
  obtain ⟨a',ha,h⟩ := Option.map_eq_some_iff.mp h
  obtain ⟨q,hq,hhead⟩ := Option.bind_eq_some_iff.mp ha
  cases h
  exact ⟨hc,q,hq,List.mem_of_head? hhead⟩

/-- An average for the client that is waited for. -/
theorem Keeps.processMediaGeneral {r : ReplicaId} {c : ClientId} {a : Average}
    (h : ∀ k, Keeps routes s k) (hn : s.next r = some (c,a)) (ha : a.clientId = c) (k : Key) :
    Keeps routes (s.processMediaGeneral (r,c) a) k := by
  obtain ⟨hb,q,hq,hmem⟩ := next_eq_some hn
  have hk := h k
  by_cases hkl : k = (r,c)
  · subst hkl
    obtain ⟨hr,hl,hu⟩ := hk.waiting hb
    have hpublished : ⟨c,a.average⟩ ∈ s.published := by
      have hp := hk.queue q hq a hmem
      subst ha
      exact hp
    constructor
    · simp only [Groupers.processMediaGeneral,Function.update_self]
      exact hk.collected
    · intro _
      refine ⟨a.average,hpublished,?_⟩
      simp only [Groupers.processMediaGeneral,Function.update_self,Grouper.processSingle]
      rw [hk.collecting hr,List.nil_append,← hk.collected]
      rfl
    · simp only [Groupers.processMediaGeneral,Function.update_self,Bool.true_eq_false,
        false_implies]
    · exact Or.inl hl
    · simp only [Groupers.processMediaGeneral,Function.update_self]
      nofun
    · simp only [Groupers.processMediaGeneral,Function.update_self]
      nofun
    · simp only [Groupers.processMediaGeneral,Function.update_self,Option.some.injEq]
      rintro m rfl
      exact ⟨hpublished,hl,trivial⟩
  · refine hk.frame (Function.update_of_ne hkl _ _) (Function.update_of_ne hkl _ _)
      (Function.update_of_ne hkl _ _) rfl rfl ?_ ?_
    · intro hb'
      by_cases hrep : k.1 = r
      · simp [Groupers.processMediaGeneral,hrep] at hb'
      · simp only [Groupers.processMediaGeneral,Function.update_of_ne hrep] at hb' ⊢
        exact ⟨hb',(hk.waiting hb').2.2⟩
    · intro m hm
      by_cases hrep : k.1 = r
      · simp only [Groupers.processMediaGeneral,hrep,Function.update_self,Option.some.injEq] at hm
        subst hm
        exact absurd (Prod.ext hrep ha) hkl
      · simp only [Groupers.processMediaGeneral,Function.update_of_ne hrep] at hm ⊢
        exact ⟨hm,(hk.unsaved m hm).2.2⟩

theorem Keeps.finishStoringMessage {r : ReplicaId} {a : Average} (h : Keeps routes s k)
    (hu : s.unsaved r = some a) : Keeps routes (s.finishStoringMessage r a) k := by
  by_cases hkl : k = (r,a.clientId)
  · subst hkl
    obtain ⟨hp,hl,hb⟩ := h.unsaved a.average hu
    have hrestored : restored routes (s.finishStoringMessage r a) (r,a.clientId) =
        (⟨routes (r,a.clientId),[]⟩ : Grouper).filtered a.average := by
      unfold restored at hl ⊢
      simp only [Groupers.finishStoringMessage,Function.update_self]
      rw [List.flatMap_cons,hl,List.append_nil]
    constructor
    · exact h.collected
    · exact h.returned
    · exact h.collecting
    · exact Or.inr ⟨a.average,hp,hrestored⟩
    · exact h.queue
    · intro hb'
      exact absurd (hb.symm.trans hb') (by simp)
    · simp only [Groupers.finishStoringMessage,Function.update_self]
      nofun
  · refine h.frame rfl rfl rfl (Function.update_of_ne hkl _ _) rfl ?_ ?_
    · intro hb'
      refine ⟨hb',?_⟩
      by_cases hrep : k.1 = r
      · simp [Groupers.finishStoringMessage,hrep]
      · simp only [Groupers.finishStoringMessage,Function.update_of_ne hrep]
        exact (h.waiting hb').2.2
    · intro m hm
      by_cases hrep : k.1 = r
      · simp [Groupers.finishStoringMessage,hrep] at hm
      · simp only [Groupers.finishStoringMessage,Function.update_of_ne hrep] at hm
        exact ⟨hm,(h.unsaved m hm).2.2⟩

theorem Keeps.crash (h : Keeps routes s k) (r : ReplicaId) :
    Keeps routes (s.crash routes r) k := by
  by_cases hrep : k.1 = r
  · constructor
    · simp only [Groupers.crash,hrep,if_true]
    · simp only [Groupers.crash,hrep,if_true,Bool.false_eq_true,false_implies]
    · simp only [Groupers.crash,hrep,if_true,implies_true]
    · exact h.log
    · exact h.queue
    · simp only [Groupers.crash,hrep,Function.update_self]
      nofun
    · simp only [Groupers.crash,hrep,Function.update_self]
      nofun
  · refine h.frame (if_neg hrep) (if_neg hrep) rfl rfl rfl ?_ ?_
    · simp only [Groupers.crash,Function.update_of_ne hrep]
      exact fun hb => ⟨hb,(h.waiting hb).2.2⟩
    · simp only [Groupers.crash,Function.update_of_ne hrep]
      exact fun m hm => ⟨hm,(h.unsaved m hm).2.2⟩

theorem Keeps.step {s' : Groupers} {e : GrouperEvent} (h : ∀ k, Keeps routes s k)
    (hg : Addressed s e) (hs : s.step routes e = some s') (k : Key) : Keeps routes s' k := by
  cases e with
  | publish a =>
      cases hs
      exact (h k).publish a
  | finishProcessing r c =>
      simp only [Groupers.step] at hs
      split_ifs at hs with hidle
      cases hs
      exact Keeps.finishProcessing h hidle.1 hidle.2.1 hidle.2.2 k
  | processMediaGeneral r =>
      obtain ⟨⟨c,a⟩,hn,rfl⟩ := Option.map_eq_some_iff.mp hs
      exact Keeps.processMediaGeneral h hn (hg _ hn) k
  | finishStoringMessage r =>
      obtain ⟨a,hu,rfl⟩ := Option.map_eq_some_iff.mp hs
      exact (h k).finishStoringMessage hu
  | crash r =>
      cases hs
      exact (h k).crash r

theorem keeps (h : Run routes Addressed s) (k : Key) : Keeps routes s k := by
  induction h generalizing k with
  | init => exact keeps_initial k
  | step _ hg hs ih => exact Keeps.step ih hg hs k

theorem above_filtered (routes : Dict String (List ℚ)) (m : ℚ) :
    Above routes m ((⟨routes,[]⟩ : Grouper).filtered m) :=
  ⟨nodup_filtered _ m,fun _ => mem_filtered⟩

theorem grouper_isolation (h : Run routes Addressed s) (r : ReplicaId) (c : ClientId) :
    (s.returned (r,c) = true → ∃ m, ⟨c,m⟩ ∈ s.published ∧
      Above (routes (r,c)) m (s.processors (r,c)).vuelosMessageToSend) ∧
    (s.returned (r,c) = false → (s.processors (r,c)).vuelosMessageToSend = []) := by
  refine ⟨?_,(keeps h (r,c)).collecting⟩
  intro hr
  obtain ⟨m,hm,hrows⟩ := (keeps h (r,c)).returned hr
  exact ⟨m,hm,hrows ▸ above_filtered (routes (r,c)) m⟩

/-- One grouper with one route of two clients, whose means are 200 and 700. -/
def twoClients (k : Key) : Dict String (List ℚ) :=
  Dict.empty.set "EZE-JFK" (if k.2 = 1 then [100,300] else [500,900])

/-- The first client gets its rows. -/
def firstDone : Groupers :=
  ((((initial twoClients).finishProcessing (1,1)).publish ⟨1,200⟩).processMediaGeneral (1,1)
    ⟨1,200⟩).finishStoringMessage 1 ⟨1,200⟩

theorem firstDone_run : Run twoClients Addressed firstDone := by
  have hwaits : Run twoClients Addressed ((initial twoClients).finishProcessing (1,1)) :=
    .step (e := .finishProcessing 1 1) .init trivial rfl
  have hcopied : Run twoClients Addressed
      (((initial twoClients).finishProcessing (1,1)).publish ⟨1,200⟩) :=
    .step (e := .publish ⟨1,200⟩) hwaits trivial rfl
  have htaken : Run twoClients Addressed ((((initial twoClients).finishProcessing (1,1)).publish
      ⟨1,200⟩).processMediaGeneral (1,1) ⟨1,200⟩) := by
    refine .step (e := .processMediaGeneral 1) hcopied ?_ rfl
    rintro p hp
    cases hp
    rfl
  exact .step (e := .finishStoringMessage 1) htaken trivial rfl

theorem grouper_isolation_firstDone :
    (firstDone.returned (1,1) = true → ∃ m, ⟨1,m⟩ ∈ firstDone.published ∧
      Above (twoClients (1,1)) m (firstDone.processors (1,1)).vuelosMessageToSend) ∧
    (firstDone.returned (1,1) = false →
      (firstDone.processors (1,1)).vuelosMessageToSend = []) :=
  grouper_isolation firstDone_run 1 1

/-- While the second client waits, media_general restarts and publishes the first
average again; the second average comes too late. -/
def secondDone : Groupers :=
  (((firstDone.finishProcessing (1,2)).publish ⟨1,200⟩).processMediaGeneral (1,2)
    ⟨1,200⟩).publish ⟨2,700⟩

theorem secondDone_mixed : Run twoClients (fun _ _ => True) secondDone ∧
    secondDone.returned (1,2) = true ∧
    ¬∃ m, ⟨2,m⟩ ∈ secondDone.published ∧
      Above (twoClients (1,2)) m (secondDone.processors (1,2)).vuelosMessageToSend := by
  refine ⟨?_,rfl,?_⟩
  · have hfirst : Run twoClients (fun _ _ => True) firstDone := firstDone_run.mono fun _ _ _ => trivial
    have hwaits : Run twoClients (fun _ _ => True) (firstDone.finishProcessing (1,2)) :=
      .step (e := .finishProcessing 1 2) hfirst trivial rfl
    have hcopied : Run twoClients (fun _ _ => True)
        ((firstDone.finishProcessing (1,2)).publish ⟨1,200⟩) :=
      .step (e := .publish ⟨1,200⟩) hwaits trivial rfl
    have htaken : Run twoClients (fun _ _ => True) (((firstDone.finishProcessing (1,2)).publish
        ⟨1,200⟩).processMediaGeneral (1,2) ⟨1,200⟩) :=
      .step (e := .processMediaGeneral 1) hcopied trivial rfl
    exact .step (e := .publish ⟨2,700⟩) htaken trivial rfl
  · rintro ⟨m,hm,habove⟩
    have hpublished : secondDone.published = [⟨2,700⟩,⟨1,200⟩,⟨1,200⟩] := rfl
    have hrows : (secondDone.processors (1,2)).vuelosMessageToSend =
        [⟨"EZE-JFK",[500,900],List.cons_ne_nil _ _⟩] := by decide +kernel
    have hmean : m = 700 := by
      rw [hpublished] at hm
      simpa using hm
    rw [hrows] at habove
    have hx := (habove.mem _).mp List.mem_cons_self
    rw [hmean] at hx
    exact absurd hx (by decide +kernel)

end Groupers
end FlightsOptimizer.MaxAvg
