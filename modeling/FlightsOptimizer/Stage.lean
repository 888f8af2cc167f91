import Mathlib.Algebra.BigOperators.Group.Finset.Piecewise
import FlightsOptimizer.Recovery

/-!
# A stage of replicas

The replicas of one stage, numbered from 1, and the part of the broker that
holds their EOF tokens. A replica takes a data message or a token when it is
idle, runs the program of its callback one action at a time, and may be killed
in between; the events of different replicas interleave freely. A token goes to
the shared input queue or, with a routing key, to the queue of one replica. The
broker keeps a token that is being handled until it is acknowledged, and offers
it again after a NACK or a crash.

Of data messages the broker's side is left to the guard of a run: it says which
deliveries an event may bring. `delivered` is what it may refer to.
-/
namespace FlightsOptimizer.Receiver
open Logger LogGrammar Eof Interruptible

variable {β : Type}

/-- A token on its way; no destination is the shared queue. -/
structure Envelope where
  destination : Option ReplicaId
  token : Token
  deriving DecidableEq

def Envelope.admits (e : Envelope) (r : ReplicaId) : Bool := e.destination.all fun d => d == r

structure Stage (β : Type) where
  replica : ReplicaId → Interruptible.Config (Replica β) (Action β)
  handling : ReplicaId → Option Envelope
  queue : List Envelope
  delivered : List (Delivery β)

inductive StageEvent (β : Type) where
  | data (r : ReplicaId) (d : Delivery β) (h : Handling)
  | eof (r : ReplicaId) (i : ℕ) (hasMessages : Bool)
  | tick (r : ReplicaId)
  | crash (r : ReplicaId)
  deriving DecidableEq

def StageEvent.replica : StageEvent β → ReplicaId
  | .data r _ _ | .eof r _ _ | .tick r | .crash r => r

namespace Stage

/-- What the replica sees of an event. The position `i` of a token in the queue
stands for any order of delivery. -/
def event (s : Stage β) : StageEvent β → Option (Event (Work β))
  | .data _ d h => some (.begin (.data d h))
  | .eof r i hasMessages =>
      (s.queue[i]?).bind fun e =>
        if e.admits r then some (.begin (.eof e.token hasMessages)) else none
  | .tick _ => some .tick
  | .crash _ => some .crash

/-- An unacknowledged token goes back to its queue. -/
def giveBack (r : ReplicaId) (s : Stage β) : Stage β :=
  {s with
    queue := s.queue ++ (s.handling r).toList
    handling := Function.update s.handling r none}

/-- What the broker sees of an action. -/
def publish (r : ReplicaId) (a : Option (Action β)) (s : Stage β) : Stage β :=
  match a with
  | some (.requeueEof destination t) => {s with queue := s.queue ++ [⟨destination,t⟩]}
  | some .ackEof => {s with handling := Function.update s.handling r none}
  | some .nackEof => s.giveBack r
  | _ => s

def broker (s : Stage β) : StageEvent β → Stage β
  | .data _ d _ => {s with delivered := d :: s.delivered}
  | .eof r i _ =>
      {s with
        queue := s.queue.eraseIdx i
        handling := Function.update s.handling r s.queue[i]?}
  | .tick r => s.publish r (s.replica r).pending.head?
  | .crash r => s.giveBack r

variable (cfg : Config) (belongs : MessageId → MessageId → Bool)

def step (s : Stage β) (e : StageEvent β) : Option (Stage β) :=
  if 1 ≤ e.replica ∧ e.replica ≤ cfg.replicasCount then
    (s.event e).bind fun ev =>
      ((process (cfg.forReplica e.replica) belongs).step (s.replica e.replica) ev).map fun k =>
        {s.broker e with replica := Function.update s.replica e.replica k}
  else none

def initial (tokens : List Envelope) : Stage β where
  replica := fun r => .idle (fresh (cfg.forReplica r))
  handling := fun _ => none
  queue := tokens
  delivered := []

/-- Stages reached by events that meet a guard, from tokens that wait in the queue. -/
inductive Run (tokens : List Envelope) (guard : Stage β → StageEvent β → Prop) : Stage β → Prop
  | init : Run tokens guard (initial cfg tokens)
  | step {s s' : Stage β} {e : StageEvent β} :
      Run tokens guard s → guard s e → s.step cfg belongs e = some s' → Run tokens guard s'

def replay (allowed : Stage β → StageEvent β → Bool) (s : Stage β) (es : List (StageEvent β)) :
    Option (Stage β) :=
  es.foldlM (fun s e => if allowed s e then s.step cfg belongs e else none) s

variable {cfg belongs}

/-- What one event can do. -/
theorem step_cases {s s' : Stage β} {e : StageEvent β} (h : s.step cfg belongs e = some s') :
    e.replica ∈ cfg.replicas ∧ ∃ ev k, s.event e = some ev ∧
      (process (cfg.forReplica e.replica) belongs).step (s.replica e.replica) ev = some k ∧
      s' = {s.broker e with replica := Function.update s.replica e.replica k} := by
  unfold step at h
  split_ifs at h with hr
  obtain ⟨ev,hev,h⟩ := Option.bind_eq_some_iff.mp h
  obtain ⟨k,hk,rfl⟩ := Option.map_eq_some_iff.mp h
  exact ⟨Finset.mem_Icc.mpr hr,ev,k,hev,hk,rfl⟩

variable {tokens : List Envelope} {guard : Stage β → StageEvent β → Prop}

/-- Each replica of a stage runs its own process. -/
theorem Run.replica {guard' : ReplicaId → Interruptible.Config (Replica β) (Action β) →
      Event (Work β) → Prop}
    (hg : ∀ s e ev, guard s e → s.event e = some ev → guard' e.replica (s.replica e.replica) ev)
    {s : Stage β} (h : Run cfg belongs tokens guard s) (r : ReplicaId) :
    (process (cfg.forReplica r) belongs).Run (guard' r) (s.replica r) := by
  induction h with
  | init => exact .init
  | @step s s' e _ he hs ih =>
      obtain ⟨-,ev,k,hev,hk,rfl⟩ := step_cases hs
      by_cases hr : r = e.replica
      · subst hr
        simp only [Function.update_self]
        exact .step ih (hg s e ev he hev) hk
      · simp only [Function.update_of_ne hr]
        exact ih

/-- Nobody else moves. -/
theorem Run.outside {s : Stage β} (h : Run cfg belongs tokens guard s) {r : ReplicaId}
    (hr : r ∉ cfg.replicas) : s.replica r = .idle (fresh (cfg.forReplica r)) := by
  induction h with
  | init => rfl
  | @step s s' e _ _ hs ih =>
      obtain ⟨hm,ev,k,_,_,rfl⟩ := step_cases hs
      have hne : r ≠ e.replica := fun he => hr (he ▸ hm)
      simp only [Function.update_of_ne hne]
      exact ih

theorem Run.mono {guard' : Stage β → StageEvent β → Prop} (hg : ∀ s e, guard s e → guard' s e)
    {s : Stage β} (h : Run cfg belongs tokens guard s) : Run cfg belongs tokens guard' s := by
  induction h with
  | init => exact .init
  | step _ he hs ih => exact .step ih (hg _ _ he) hs

/-- A replayed list of events stays within the run. -/
theorem Run.replay {allowed : Stage β → StageEvent β → Bool}
    (hg : ∀ s e, allowed s e = true → guard s e) {s t : Stage β}
    (h : Run cfg belongs tokens guard s) {es : List (StageEvent β)}
    (hs : s.replay cfg belongs allowed es = some t) : Run cfg belongs tokens guard t := by
  induction es generalizing s with
  | nil =>
      simp only [Stage.replay,List.foldlM_nil,Option.pure_def,Option.some.injEq] at hs
      exact hs ▸ h
  | cons e es ih =>
      simp only [Stage.replay,List.foldlM_cons,Option.bind_eq_bind,Option.bind_eq_some_iff] at hs
      obtain ⟨s₁,h₁,h₂⟩ := hs
      cases he : allowed s e with
      | false => simp [he] at h₁
      | true =>
          rw [he,if_pos rfl] at h₁
          exact ih (.step h (hg s e he) h₁) h₂

theorem run_replay {allowed : Stage β → StageEvent β → Bool}
    (hg : ∀ s e, allowed s e = true → guard s e) {es : List (StageEvent β)}
    (hs : ((initial cfg tokens).replay cfg belongs allowed es).isSome = true) :
    Run cfg belongs tokens guard (((initial cfg tokens).replay cfg belongs allowed es).get hs) :=
  Run.replay hg .init (Option.some_get hs).symm

/-- A sum over the replicas changes by the one that moved. -/
theorem sum_change {M : Type} [AddCommMonoid M] {F G : ReplicaId → M} {r : ReplicaId}
    {A : Finset ReplicaId} (hr : r ∈ A) (h : ∀ x, x ≠ r → G x = F x) :
    ∑ x ∈ A, G x + F r = ∑ x ∈ A, F x + G r := by
  have hrest : ∑ x ∈ A.erase r, G x = ∑ x ∈ A.erase r, F x := by
    apply Finset.sum_congr rfl
    intro x hx
    exact h x (Finset.ne_of_mem_erase hx)
  rw [← Finset.sum_erase_add _ _ hr,← Finset.sum_erase_add _ F hr,hrest,add_assoc,add_assoc,
    add_comm (F r)]

/-- What no event takes back. -/
structure Grows (r t : Replica β) : Prop where
  log : r.log <:+ t.log
  delivered : r.history.delivered <:+ t.history.delivered
  completed : r.history.completed <:+ t.history.completed

theorem Grows.refl (r : Replica β) : Grows r r :=
  ⟨List.suffix_rfl,List.suffix_rfl,List.suffix_rfl⟩

theorem grows_exec (a : Action β) (r : Replica β) : Grows r (exec a r) := by
  refine ⟨?_,?_,completed_exec a r⟩
  · cases a with
    | newMessageReceived m c => exact List.suffix_cons _ _
    | messageSent ids => exact List.suffix_cons _ _
    | saveCommunication m c =>
        exact (List.suffix_cons _ _).trans ((List.suffix_cons _ _).trans (List.suffix_cons _ _))
    | commitMessage m c => exact List.suffix_cons _ _
    | _ => exact List.suffix_rfl
  · cases a <;> exact List.suffix_rfl

theorem grows_step {k k' : Interruptible.Config (Replica β) (Action β)} {ev : Event (Work β)}
    (h : (process cfg belongs).step k ev = some k') : Grows k.state k'.state := by
  rcases state_of_step h with ⟨d,h,-,hs⟩ | ⟨t,hasMessages,-,hs⟩ | ⟨a,-,-,hs⟩ | ⟨-,ht⟩
  · rw [hs]
    exact ⟨List.suffix_rfl,List.suffix_cons _ _,List.suffix_rfl⟩
  · rw [hs]
    exact Grows.refl k.state
  · rw [hs]
    exact grows_exec a k.state
  · have hlog : k'.state.log = k.state.log := recover_log ht
    have hhist : k'.state.history = k.state.history := recover_history ht
    exact ⟨hlog ▸ List.suffix_rfl,hhist ▸ List.suffix_rfl,hhist ▸ List.suffix_rfl⟩

theorem grows {s s' : Stage β} {e : StageEvent β} (h : s.step cfg belongs e = some s')
    (r : ReplicaId) : Grows (s.replica r).state (s'.replica r).state := by
  obtain ⟨-,ev,k,-,hk,rfl⟩ := step_cases h
  by_cases hr : r = e.replica
  · subst hr
    simp only [Function.update_self]
    exact grows_step hk
  · simp only [Function.update_of_ne hr]
    exact Grows.refl _

/-- A token that the broker has, or will get from a replica. -/
def Holds (s : Stage β) (x : Envelope) : Prop :=
  x ∈ s.queue ∨ (∃ r, s.handling r = some x) ∨
    ∃ r, .requeueEof x.destination x.token ∈ (s.replica r).pending

theorem mem_pending_step {k k' : Interruptible.Config (Replica β) (Action β)}
    {ev : Event (Work β)} (h : (process cfg belongs).step k ev = some k') {a : Action β}
    (ha : a ∈ k'.pending) : a ∈ k.pending ∨
      (∃ d h, ev = .begin (.data d h) ∧ (a = .basicNack ∨ a ∈ callback cfg d h)) ∨
      ∃ t hasMessages, ev = .begin (.eof t hasMessages) ∧
        a ∈ callbackEof cfg k.state hasMessages t := by
  cases ev with
  | begin w =>
      obtain ⟨-,t,program,hb,rfl⟩ := Process.begin_of_step h
      cases w with
      | eof t hasMessages =>
          cases hb
          exact Or.inr (Or.inr ⟨t,hasMessages,rfl,ha⟩)
      | data d handling =>
          refine Or.inr (Or.inl ⟨d,handling,rfl,?_⟩)
          obtain ⟨-,⟨-,rfl⟩ | ⟨-,rfl⟩⟩ := begin_data cfg belongs hb
          · exact Or.inl (List.mem_singleton.mp ha)
          · exact Or.inr ha
  | tick =>
      obtain ⟨b,rest,hp,rfl⟩ := Process.tick_of_step h
      rw [hp]
      exact Or.inl (List.mem_cons_of_mem b ha)
  | crash =>
      rw [(Process.crash_of_step h).2] at ha
      cases ha

/-- The broker gets its tokens from its queue, from replicas and from pending actions. -/
theorem holds_broker {s : Stage β} {e : StageEvent β} {x : Envelope}
    (h : x ∈ (s.broker e).queue ∨ ∃ r, (s.broker e).handling r = some x) : s.Holds x := by
  have back : ∀ r, (x ∈ (s.giveBack r).queue ∨ ∃ r', (s.giveBack r).handling r' = some x) →
      s.Holds x := by
    rintro r (hx | ⟨r',hx⟩)
    · rcases List.mem_append.mp hx with hx | hx
      · exact Or.inl hx
      · exact Or.inr (Or.inl ⟨r,Option.mem_toList.mp hx⟩)
    · refine Or.inr (Or.inl ⟨r',?_⟩)
      simp only [giveBack,Function.update_apply] at hx
      split_ifs at hx
      exact hx
  cases e with
  | data r d h => exact h.imp_right Or.inl
  | crash r => exact back r h
  | eof r i hasMessages =>
      rcases h with hx | ⟨r',hx⟩
      · exact Or.inl (List.mem_of_mem_eraseIdx hx)
      · simp only [broker,Function.update_apply] at hx
        split_ifs at hx
        · exact Or.inl (List.mem_of_getElem? hx)
        · exact Or.inr (Or.inl ⟨r',hx⟩)
  | tick r =>
      simp only [broker] at h
      cases hp : (s.replica r).pending with
      | nil =>
          rw [hp] at h
          exact h.imp_right Or.inl
      | cons a as =>
          rw [hp] at h
          cases a with
          | requeueEof destination t =>
              rcases h with hx | h
              · rcases List.mem_append.mp hx with hx | hx
                · exact Or.inl hx
                · rw [List.mem_singleton.mp hx]
                  refine Or.inr (Or.inr ⟨r,?_⟩)
                  rw [hp]
                  exact List.mem_cons_self
              · exact Or.inr (Or.inl h)
          | ackEof =>
              rcases h with h | ⟨r',hx⟩
              · exact Or.inl h
              · refine Or.inr (Or.inl ⟨r',?_⟩)
                simp only [publish,List.head?_cons,Function.update_apply] at hx
                split_ifs at hx
                exact hx
          | nackEof => exact back r h
          | _ => exact h.imp_right Or.inl

/-- An EOF event hands a token of the queue to a replica that it is meant for. -/
theorem event_eof {s : Stage β} {r : ReplicaId} {i : ℕ} {hasMessages : Bool}
    {ev : Event (Work β)} (h : s.event (.eof r i hasMessages) = some ev) :
    ∃ x, s.queue[i]? = some x ∧ x.admits r = true ∧ ev = .begin (.eof x.token hasMessages) := by
  obtain ⟨x,hx,h⟩ := Option.bind_eq_some_iff.mp h
  split_ifs at h with ha
  cases h
  exact ⟨x,hx,ha,rfl⟩

/-- Otherwise the event carries no token. -/
theorem event_token {s : Stage β} {e : StageEvent β} {t : Token} {hasMessages : Bool}
    (h : s.event e = some (.begin (.eof t hasMessages))) :
    ∃ r i x, e = .eof r i hasMessages ∧ s.queue[i]? = some x ∧ x.admits r = true ∧ x.token = t := by
  cases e with
  | eof r i hm =>
      obtain ⟨x,hx,ha,he⟩ := event_eof h
      cases he
      exact ⟨r,i,x,rfl,hx,ha,rfl⟩
  | data r d h' => cases h
  | tick r => cases h
  | crash r => cases h

/-- The rule for tokens: what holds of the first ones, is passed on by a hop and
outlives every step, holds of each token in the stage. -/
theorem Run.token {J : Stage β → Envelope → Prop} (init : ∀ x ∈ tokens, J (initial cfg tokens) x)
    (mono : ∀ {s s' e}, Run cfg belongs tokens guard s → guard s e →
      s.step cfg belongs e = some s' → ∀ x, J s x → J s' x)
    (hop : ∀ {s r} hasMessages x, Run cfg belongs tokens guard s → r ∈ cfg.replicas →
      (s.replica r).pending = [] → x.admits r = true → J s x → ∀ x',
        .requeueEof x'.destination x'.token ∈
          callbackEof (cfg.forReplica r) (s.replica r).state hasMessages x.token → J s x')
    {s : Stage β} (h : Run cfg belongs tokens guard s) {x : Envelope} (hx : s.Holds x) : J s x := by
  induction h generalizing x with
  | init =>
      rcases hx with hx | ⟨r,hx⟩ | ⟨r,hx⟩
      · exact init x hx
      · cases hx
      · cases hx
  | @step s s' e h hg hs ih =>
      apply mono h hg hs
      obtain ⟨hr,ev,k,hev,hk,rfl⟩ := step_cases hs
      rcases hx with hx | hx | ⟨r,hx⟩
      · exact ih (holds_broker (Or.inl hx))
      · exact ih (holds_broker (Or.inr hx))
      · by_cases her : r = e.replica
        · subst her
          simp only [Function.update_self] at hx
          rcases mem_pending_step hk hx with hx | ⟨d,_,_,ha⟩ | ⟨t,hasMessages,rfl,ha⟩
          · exact ih (Or.inr (Or.inr ⟨e.replica,hx⟩))
          · rcases ha with ha | ha
            · cases ha
            · exact (ofData_callback _ d _ _ ha).elim
          · obtain ⟨r,i,x',rfl,hi,hadmits,rfl⟩ := event_token hev
            exact hop hasMessages x' h hr (Process.begin_of_step hk).1 hadmits
              (ih (Or.inl (List.mem_of_getElem? hi))) x ha
        · simp only [Function.update_of_ne her] at hx
          exact ih (Or.inr (Or.inr ⟨r,hx⟩))

end Stage
end FlightsOptimizer.Receiver
