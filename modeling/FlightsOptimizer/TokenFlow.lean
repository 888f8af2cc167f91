import Mathlib.Algebra.Order.Group.Multiset
import Mathlib.Data.List.Perm.Basic
import FlightsOptimizer.Stage

/-!
# The tokens in flight

Without crashes a token is never lost and never doubled: the tokens in the
broker's queues, together with those that pending programs will still publish or
give back, change only when a replica takes one, and then by what its hop emits.
The same holds of two counts that are kept across all programs, how often the
equality branch was taken for a client and how often its `eof_callback` was
called.
-/
namespace FlightsOptimizer.Receiver
open Logger LogGrammar Eof Interruptible

variable {β : Type}

def CrashFree (_ : Stage β) : StageEvent β → Prop
  | .crash _ => False
  | _ => True

/-- What a program that handles `x` gives to the broker. -/
def emits (x : Option Envelope) : List (Action β) → Multiset Envelope
  | [] => 0
  | .requeueEof destination t :: as => ⟨destination,t⟩ ::ₘ emits x as
  | .nackEof :: as => (x.toList : Multiset Envelope) + emits x as
  | _ :: as => emits x as

def isCallback (c : ClientId) : Action β → Bool
  | .eofCallback d => d == c
  | _ => false

def isSynchronise (c : ClientId) : Action β → Bool
  | .synchronise d _ _ => d == c
  | _ => false

/-- The calls of `eof_callback` for a client, those still pending included. -/
def callbacks (c : ClientId) (k : Interruptible.Config (Replica β) (Action β)) : ℕ :=
  k.state.history.eofCallbacks.count c + k.pending.countP (isCallback c)

/-- How often the equality branch was taken for a client. -/
def completions (c : ClientId) (k : Interruptible.Config (Replica β) (Action β)) : ℕ :=
  k.state.history.completed.countP (fun p => p.1 == c) + k.pending.countP (isSynchronise c)

/-- Actions that neither publish a token nor give one back. -/
def Action.Silent : Action β → Prop
  | .requeueEof _ _ | .nackEof => False
  | _ => True

theorem emits_append (x : Option Envelope) (as bs : List (Action β)) :
    emits x (as ++ bs) = emits x as + emits x bs := by
  induction as with
  | nil => exact (zero_add _).symm
  | cons a as ih =>
      cases a with
      | requeueEof destination t =>
          simp only [List.cons_append,emits,ih,Multiset.cons_add]
      | nackEof => simp only [List.cons_append,emits,ih,add_assoc]
      | _ => exact ih

theorem mem_emits {x : Option Envelope} {y : Envelope} {as : List (Action β)}
    (h : y ∈ emits x as) : .requeueEof y.destination y.token ∈ as ∨ x = some y := by
  induction as with
  | nil => cases h
  | cons a as ih =>
      cases a with
      | requeueEof destination t =>
          rcases Multiset.mem_cons.mp h with rfl | h
          · exact Or.inl List.mem_cons_self
          · exact (ih h).imp_left (List.mem_cons_of_mem _)
      | nackEof =>
          rcases Multiset.mem_add.mp h with h | h
          · exact Or.inr (Option.mem_toList.mp h)
          · exact (ih h).imp_left (List.mem_cons_of_mem _)
      | _ => exact (ih h).imp_left (List.mem_cons_of_mem _)

theorem emits_silent (x : Option Envelope) {as : List (Action β)} (h : ∀ a ∈ as, a.Silent) :
    emits x as = 0 := by
  induction as with
  | nil => rfl
  | cons a as ih =>
      have ha := h a List.mem_cons_self
      have has := ih fun b hb => h b (List.mem_cons_of_mem a hb)
      cases a with
      | requeueEof destination t => exact ha.elim
      | nackEof => exact ha.elim
      | _ => exact has

theorem silent_ofData {a : Action β} (h : a.OfData) : a.Silent := by
  cases a <;> trivial

theorem isCallback_ofData {a : Action β} (h : a.OfData) (c : ClientId) :
    isCallback c a = false ∧ isSynchronise c a = false := by
  cases a <;> first | exact ⟨rfl,rfl⟩ | exact h.elim

/-- The two answers that end the handling of a token. -/
def Action.Closes : Action β → Prop
  | .ackEof | .nackEof => True
  | _ => False

/-- A replica that handles a token runs a program about its client, which ends in
an answer; any other replica runs a data message. -/
inductive Attended : Option Envelope → List (Action β) → Prop
  | data {as : List (Action β)} : (∀ a ∈ as, a.OfData) → Attended none as
  | token {x : Envelope} {as : List (Action β)} {a : Action β} :
      (∀ b ∈ as, ¬b.Closes ∧ ∃ ids, b.OfEof x.token.clientId ids) → a.Closes →
      Attended (some x) (as ++ [a])

theorem Attended.idle {x : Option Envelope} (h : Attended x ([] : List (Action β))) :
    x = none := by
  generalize hp : ([] : List (Action β)) = pending at h
  cases h with
  | data _ => rfl
  | token _ _ => simp at hp

/-- What the broker gets from an action, and what it still keeps of the token. -/
def settle (x : Option Envelope) : Action β → List Envelope × Option Envelope
  | .requeueEof destination t => ([⟨destination,t⟩],x)
  | .ackEof => ([],none)
  | .nackEof => (x.toList,none)
  | _ => ([],x)

theorem publish_eq (r : ReplicaId) (a : Action β) (s : Stage β) : s.publish r (some a) =
    {s with
      queue := s.queue ++ (settle (s.handling r) a).1
      handling := Function.update s.handling r (settle (s.handling r) a).2} := by
  cases a <;> simp only [Stage.publish,Stage.giveBack,settle,List.append_nil,
    Function.update_eq_self]

theorem attended_tick {x : Option Envelope} {a : Action β} {as : List (Action β)}
    (h : Attended x (a :: as)) : Attended (settle x a).2 as ∧
      ((settle x a).1 : Multiset Envelope) + emits (settle x a).2 as = emits x (a :: as) := by
  generalize hp : a :: as = pending at h
  cases h with
  | data hd =>
      subst hp
      have ha : a.OfData := hd a List.mem_cons_self
      have has : ∀ b ∈ as, b.OfData := fun b hb => hd b (List.mem_cons_of_mem a hb)
      have hs : settle none a = ([],none) := by
        cases a <;> first | rfl | exact ha.elim
      rw [hs]
      refine ⟨.data has,?_⟩
      rw [emits_silent none fun b hb => silent_ofData (hd b hb),
        emits_silent none fun b hb => silent_ofData (has b hb)]
      rfl
  | @token x bs b hbs hb =>
      cases bs with
      | nil =>
          cases hp
          refine ⟨?_,?_⟩
          · have hs : (settle (some x) a).2 = none := by
              cases a <;> first | rfl | exact hb.elim
            rw [hs]
            exact .data fun b hb => by cases hb
          · cases a <;> rfl
      | cons c bs =>
          cases hp
          have ha := (hbs a List.mem_cons_self).1
          have hs : (settle (some x) a).2 = some x := by
            cases a <;> first | rfl | exact (ha trivial).elim
          refine ⟨?_,?_⟩
          · rw [hs]
            exact .token (fun d hd => hbs d (List.mem_cons_of_mem a hd)) hb
          · rw [hs]
            cases a <;> first | exact (ha trivial).elim | exact zero_add _ | rfl

theorem callbacks_tick (k : Interruptible.Config (Replica β) (Action β)) {a : Action β}
    {as : List (Action β)} (h : k.pending = a :: as) (c : ClientId) :
    callbacks c ⟨exec a k.state,as⟩ = callbacks c k ∧
      completions c ⟨exec a k.state,as⟩ = completions c k := by
  unfold callbacks completions
  rw [h,List.countP_cons,List.countP_cons]
  cases a with
  | eofCallback d =>
      simp only [exec,isCallback,isSynchronise,List.count_cons]
      refine ⟨?_,rfl⟩
      exact Nat.add_right_comm _ _ _ |>.trans (Nat.add_assoc _ _ _)
  | synchronise d n ds =>
      simp only [exec,isCallback,isSynchronise,List.countP_cons]
      refine ⟨rfl,?_⟩
      exact Nat.add_right_comm _ _ _ |>.trans (Nat.add_assoc _ _ _)
  | _ => exact ⟨rfl,rfl⟩

section
variable {cfg : Config} {r : Replica β} {hasMessages : Bool}

/-- The effects that a hop of the token `x` can have. -/
inductive Effect (cfg : Config) (x : Envelope) : Multiset Envelope × ℕ × ℕ → Prop
  | seen : cfg.replicaId ∈ x.token.replicaIdSeen → Effect cfg x ({x},0,0)
  | passed {t : Token} : x.token.isFinish = false → t.isFinish = false →
      t.clientId = x.token.clientId → Effect cfg x ({⟨destination cfg,t⟩},0,0)
  | completed : x.token.isFinish = false → Effect cfg x (if 1 < cfg.replicasCount then
      {⟨destination cfg,.finish ⟨x.token.clientId,[cfg.replicaId]⟩⟩} else 0,1,1)
  | finished {f : EofFinish} : x.token = .finish f → cfg.replicaId ∉ f.replicaIdSeen →
      Effect cfg x (if f.replicaIdSeen.length + 1 < cfg.replicasCount then
        {⟨destination cfg,.finish (updateFinishEof cfg f)⟩} else 0,
        if cfg.routingKey then 1 else 0,0)

theorem closes_connectionHandleEof {c : ClientId} {ids : Option (MessageId × ClientId)}
    {b : Action β} (hb : b ∈ connectionHandleEof cfg c ids hasMessages) :
    ¬b.Closes ∧ b.Silent ∧ ∀ d, isSynchronise d b = false := by
  rcases mem_connectionHandleEof hb with rfl | rfl | rfl | ⟨n,rfl⟩ | ⟨tag,rfl⟩ <;>
    exact ⟨fun h => h,trivial,fun _ => rfl⟩

theorem callbacks_connectionHandleEof (c : ClientId) (ids : Option (MessageId × ClientId)) :
    (connectionHandleEof cfg c ids hasMessages : List (Action β)).countP (isCallback c) = 1 := by
  unfold connectionHandleEof sendAll sendResultEof
  split_ifs <;> (try split) <;> simp [isCallback]

theorem Aggregates.notFinish {t : Token} {a : EofAggregation} {before : List (Action β)}
    (h : Aggregates cfg r t a before) : t.isFinish = false := by
  cases h with
  | aggregation a => rfl
  | discovered hd _ _ => cases t <;> first | rfl | cases hd

theorem Aggregates.not_closes {t : Token} {a : EofAggregation} {before : List (Action β)}
    (h : Aggregates cfg r t a before) : ∀ b ∈ before, ¬b.Closes := by
  intro b hb
  obtain ⟨d,rfl⟩ := h.mem_before hb
  exact fun h => h

/-- An aggregation that goes on is acknowledged last. -/
theorem closes_before {P : Prop} {before : List (Action β)} {x y : Action β}
    (hbefore : ∀ b ∈ before, ¬b.Closes) (hx : ¬x.Closes) (hy : ¬y.Closes) :
    ∃ as a, before ++ [x,y,.ackEof] = as ++ [a] ∧ a.Closes ∧ (∀ b ∈ as, ¬b.Closes) ∧
      (a = .nackEof → P) := by
  refine ⟨before ++ [x,y],.ackEof,?_,trivial,?_,nofun⟩
  · rw [List.append_assoc]
    rfl
  · intro b hb
    rcases List.mem_append.mp hb with hb | hb
    · exact hbefore b hb
    · rcases List.mem_pair.mp hb with rfl | rfl
      · exact hx
      · exact hy

/-- A program ends in its only answer. -/
theorem Hop.closes {t : Token} {program : List (Action β)} (h : Hop cfg r hasMessages t program) :
    ∃ as a, program = as ++ [a] ∧ a.Closes ∧ (∀ b ∈ as, ¬b.Closes) ∧
      (a = .nackEof → cfg.replicaId ∈ t.replicaIdSeen) := by
  have finish : ∀ f, ∀ b ∈ (finishing cfg r hasMessages f : List (Action β)), ¬b.Closes := by
    intro f b hb
    rcases mem_finishing hb with rfl | hb
    · exact fun h => h
    · exact (closes_connectionHandleEof hb).1
  cases h with
  | seen hs =>
      refine ⟨[],_,rfl,trivial,?_,fun _ => hs⟩
      intro b hb
      cases hb
  | @discovered _ d _ _ _ =>
      refine ⟨[.updateDiscoveryEof (Receiver.discovered cfg r d),_],_,rfl,trivial,?_,nofun⟩
      intro b hb
      rcases List.mem_pair.mp hb with rfl | rfl <;> exact fun h => h
  | aggregated ha _ _ => exact closes_before ha.not_closes (fun h => h) fun h => h
  | restarted ha _ _ _ => exact closes_before ha.not_closes (fun h => h) fun h => h
  | @completed _ a bs ha _ _ _ =>
      refine ⟨bs ++ (.updateAggregationEof (Receiver.aggregated cfg r a) ::
        (completing cfg r hasMessages (Receiver.aggregated cfg r a) ++
          finishing cfg r hasMessages ⟨a.clientId,[]⟩)),.ackEof,?_,trivial,?_,nofun⟩
      · simp only [List.append_assoc,List.cons_append]
      · intro b hb
        simp only [List.mem_append,List.mem_cons] at hb
        rcases hb with hb | rfl | hb | hb
        · exact ha.not_closes b hb
        · exact fun h => h
        · rcases mem_completing hb with rfl | hb
          · exact fun h => h
          · exact (closes_connectionHandleEof hb).1
        · exact finish _ b hb
  | @finished f _ => exact ⟨_,_,rfl,trivial,finish f,nofun⟩

/-- What a program emits, how often it calls back for `c`, and how often it takes
the equality branch for `c`. -/
def effect (x : Envelope) (c : ClientId) (program : List (Action β)) :
    Multiset Envelope × ℕ × ℕ :=
  (emits (some x) program,program.countP (isCallback c),program.countP (isSynchronise c))

theorem effect_append (x : Envelope) (c : ClientId) (as bs : List (Action β)) :
    effect x c (as ++ bs) = effect x c as + effect x c bs := by
  simp only [effect,emits_append,List.countP_append,Prod.mk_add_mk]

theorem effect_connectionHandleEof (x : Envelope) (c : ClientId)
    (ids : Option (MessageId × ClientId)) :
    effect x c (connectionHandleEof cfg c ids hasMessages : List (Action β)) = (0,1,0) := by
  unfold effect
  rw [emits_silent (some x) fun _ hb => (closes_connectionHandleEof hb).2.1,
    callbacks_connectionHandleEof]
  congr 2
  apply List.countP_eq_zero.mpr
  intro b hb
  simp [(closes_connectionHandleEof hb).2.2 c]

variable (cfg r hasMessages) in
theorem effect_finishing (x : Envelope) (f : EofFinish) :
    effect x f.clientId (finishing cfg r hasMessages f) =
      (if f.replicaIdSeen.length + 1 < cfg.replicasCount then
        {⟨destination cfg,.finish (updateFinishEof cfg f)⟩} else 0,
        if cfg.routingKey then 1 else 0,0) := by
  have hlen : (updateFinishEof cfg f).replicaIdSeen.length = f.replicaIdSeen.length + 1 :=
    List.length_append
  unfold finishing
  rw [hlen,effect_append]
  split_ifs
  · rw [effect_connectionHandleEof]
    rfl
  · rfl
  · rw [effect_connectionHandleEof]
    rfl
  · rfl

variable (cfg r hasMessages) in
theorem effect_completing (x : Envelope) (t : EofAggregation) :
    effect x t.clientId (completing cfg r hasMessages t) =
      (0,if cfg.routingKey then 0 else 1,1) := by
  have hsync : effect x t.clientId
      [(.synchronise t.clientId (t.realMessagesSent cfg) t.searched : Action β)] = (0,0,1) := by
    simp [effect,emits,isCallback,isSynchronise]
  unfold completing
  rw [← List.singleton_append,effect_append,hsync]
  split_ifs
  · rfl
  · rw [effect_connectionHandleEof]
    rfl

theorem Aggregates.effect {t : Token} {a : EofAggregation} {before : List (Action β)}
    (h : Aggregates cfg r t a before) (x : Envelope) (c : ClientId) :
    effect x c before = 0 := by
  cases h with
  | aggregation a => rfl
  | discovered _ _ _ => rfl

/-- The effects of a hop. -/
theorem Hop.effect {x : Envelope} {program : List (Action β)}
    (h : Hop cfg r hasMessages x.token program) :
    Effect cfg x (effect x x.token.clientId program) := by
  generalize ht : x.token = t at h
  cases h with
  | seen hs => exact .seen (ht ▸ hs)
  | @discovered _ d hd _ _ =>
      have hf : x.token.isFinish = false := by
        rw [ht]
        cases t <;> first | rfl | cases hd
      exact .passed hf rfl (ht ▸ discovered_clientId hd)
  | @aggregated _ a bs ha _ _ =>
      rw [effect_append,ha.effect,zero_add]
      exact .passed (ht ▸ ha.notFinish) rfl (ht ▸ ha.clientId)
  | @restarted _ a bs ha _ _ _ =>
      rw [effect_append,ha.effect,zero_add]
      exact .passed (ht ▸ ha.notFinish) rfl (ht ▸ ha.clientId)
  | @completed _ a bs ha _ _ _ =>
      have hc : a.clientId = t.clientId := ha.clientId
      have hcompleting := effect_completing cfg r hasMessages x (Receiver.aggregated cfg r a)
      have hfinishing := effect_finishing cfg r hasMessages x ⟨a.clientId,[]⟩
      have hupdate : Receiver.effect x t.clientId
          [(.updateAggregationEof (Receiver.aggregated cfg r a) : Action β)] = 0 := rfl
      have hack : Receiver.effect x t.clientId [(.ackEof : Action β)] = 0 := rfl
      have hnew : (Receiver.aggregated cfg r a).clientId = t.clientId := hc
      rw [hnew] at hcompleting
      simp only [hc] at hfinishing
      rw [effect_append,← List.singleton_append,effect_append,effect_append,effect_append,
        ha.effect,hupdate,hack,hcompleting,hc,hfinishing]
      have heffect : Effect cfg x (_,1,1) := .completed (ht ▸ ha.notFinish)
      rw [ht] at heffect
      cases hk : cfg.routingKey <;> simpa [hk,updateFinishEof] using heffect
  | @finished f hr =>
      have hack : Receiver.effect x f.clientId [(.ackEof : Action β)] = 0 := rfl
      have hfinishing := effect_finishing cfg r hasMessages x f
      have heffect := Effect.finished ht hr
      rw [effect_append]
      simp only [Token.clientId,hack,hfinishing,add_zero]
      exact heffect

end

/-- The tokens in the queues, and those that a pending program will bring back. -/
def Stage.inFlight (cfg : Config) (s : Stage β) : Multiset Envelope :=
  s.queue + ∑ r ∈ cfg.replicas, emits (s.handling r) (s.replica r).pending

theorem Stage.holds_of_inFlight {cfg : Config} {s : Stage β} {y : Envelope}
    (h : y ∈ s.inFlight cfg) : s.Holds y := by
  rcases Multiset.mem_add.mp h with h | h
  · exact Or.inl h
  · obtain ⟨r,-,h⟩ := Multiset.mem_sum.mp h
    rcases mem_emits h with h | h
    · exact Or.inr (Or.inr ⟨r,h⟩)
    · exact Or.inr (Or.inl ⟨r,h⟩)

/-- Nothing that is counted changes. -/
structure Stage.Same (cfg : Config) (s s' : Stage β) : Prop where
  inFlight : s'.inFlight cfg = s.inFlight cfg
  callbacks : ∀ c r, callbacks c (s'.replica r) = callbacks c (s.replica r)
  completions : ∀ c r, completions c (s'.replica r) = completions c (s.replica r)

/-- Replica `r` took the token `x`, which its program stands for from now on. -/
structure Stage.Took (cfg : Config) (s s' : Stage β) (r : ReplicaId) (x : Envelope)
    (program : List (Action β)) : Prop where
  member : r ∈ cfg.replicas
  queued : x ∈ s.queue
  admitted : x.admits r = true
  running : (s'.replica r).pending = program
  inFlight : s'.inFlight cfg + {x} = s.inFlight cfg + emits (some x) program
  callbacks : ∀ c r', callbacks c (s'.replica r') =
    callbacks c (s.replica r') + if r' = r then program.countP (isCallback c) else 0
  completions : ∀ c r', completions c (s'.replica r') =
    completions c (s.replica r') + if r' = r then program.countP (isSynchronise c) else 0

variable {cfg : Config} {belongs : MessageId → MessageId → Bool}
variable {r : ReplicaId} {s s' : Stage β}

/-- The sum over replicas moves with the one replica that changed. -/
theorem inFlight_change (hr : r ∈ cfg.replicas)
    (hother : ∀ x, x ≠ r → s'.handling x = s.handling x ∧ s'.replica x = s.replica x) :
    s'.inFlight cfg + s.queue + emits (s.handling r) (s.replica r).pending =
      s.inFlight cfg + s'.queue + emits (s'.handling r) (s'.replica r).pending := by
  have hsum := Stage.sum_change (A := cfg.replicas)
    (F := fun x => emits (s.handling x) (s.replica x).pending)
    (G := fun x => emits (s'.handling x) (s'.replica x).pending) hr
    fun x hx => by rw [(hother x hx).1,(hother x hx).2]
  unfold Stage.inFlight
  calc _ = ((s'.queue : Multiset Envelope) + s.queue) +
        (∑ x ∈ cfg.replicas, emits (s'.handling x) (s'.replica x).pending +
          emits (s.handling r) (s.replica r).pending) := by ac_rfl
    _ = _ := by
        rw [hsum]
        ac_rfl

/-- One step, seen from the replica that takes it and from the others. -/
theorem step_local {e : StageEvent β} (hs : s.step cfg belongs e = some s') :
    e.replica ∈ cfg.replicas ∧ ∃ ev, s.event e = some ev ∧
      (process (cfg.forReplica e.replica) belongs).step (s.replica e.replica) ev =
        some (s'.replica e.replica) ∧
      s'.queue = (s.broker e).queue ∧
      s'.handling e.replica = (s.broker e).handling e.replica ∧
      ∀ x, x ≠ e.replica → s'.handling x = s.handling x ∧ s'.replica x = s.replica x := by
  obtain ⟨hr,ev,k,hev,hk,rfl⟩ := Stage.step_cases hs
  refine ⟨hr,ev,hev,?_,rfl,rfl,?_⟩
  · simp only [Function.update_self]
    exact hk
  · intro x hx
    refine ⟨?_,Function.update_of_ne hx _ _⟩
    cases e with
    | data r d h => rfl
    | eof r i hasMessages => exact Function.update_of_ne hx _ _
    | crash r => exact Function.update_of_ne hx _ _
    | tick r =>
        simp only [Stage.broker]
        cases (s.replica r).pending.head? with
        | none => rfl
        | some a =>
            rw [publish_eq]
            exact Function.update_of_ne hx _ _

/-- A stage where every replica attends to one thing. -/
def Stage.AllAttended (s : Stage β) : Prop :=
  ∀ r, Attended (s.handling r) (s.replica r).pending

section
variable (hother : ∀ x, x ≠ r → s'.handling x = s.handling x ∧ s'.replica x = s.replica x)
include hother

theorem allAttended_of (h : s.AllAttended)
    (hr : Attended (s'.handling r) (s'.replica r).pending) : s'.AllAttended := by
  intro x
  by_cases hx : x = r
  · exact hx ▸ hr
  · rw [(hother x hx).1,(hother x hx).2]
    exact h x

/-- A measure of the replicas that only `r` could have changed. -/
theorem counts_of {F : Interruptible.Config (Replica β) (Action β) → ℕ} {n : ℕ}
    (hr : F (s'.replica r) = F (s.replica r) + n) (x : ReplicaId) :
    F (s'.replica x) = F (s.replica x) + if x = r then n else 0 := by
  by_cases hx : x = r
  · subst hx
    rw [hr,if_pos rfl]
  · rw [(hother x hx).2,if_neg hx,add_zero]

theorem same_of {F : Interruptible.Config (Replica β) (Action β) → ℕ}
    (hr : F (s'.replica r) = F (s.replica r)) (x : ReplicaId) :
    F (s'.replica x) = F (s.replica x) := by
  by_cases hx : x = r
  · subst hx
    exact hr
  · rw [(hother x hx).2]

end

/-- A replica with nothing to do handles no token. -/
theorem handling_of_pending (hatt : s.AllAttended) (hp : (s.replica r).pending = []) :
    s.handling r = none := by
  have ha := hatt r
  rw [hp] at ha
  exact ha.idle

theorem step_data {d : Delivery β} {h : Handling} (hatt : s.AllAttended)
    (hs : s.step cfg belongs (.data r d h) = some s') : s'.AllAttended ∧ s.Same cfg s' := by
  obtain ⟨hr,ev,hev,hk,hqueue,hhandling,hother⟩ := step_local hs
  cases hev
  simp only [StageEvent.replica,Stage.broker] at hr hk hqueue hhandling hother
  obtain ⟨hp,t,program,hbegin,hk'⟩ := Process.begin_of_step hk
  have hnone := handling_of_pending hatt hp
  have hdata : ∀ a ∈ (s'.replica r).pending, a.OfData := by
    intro a ha
    rcases Stage.mem_pending_step hk ha with ha | ⟨d',h',_,rfl | ha⟩ | ⟨_,_,he,_⟩
    · rw [hp] at ha
      cases ha
    · trivial
    · exact ofData_callback _ d' h' a ha
    · cases he
  have hhistory : (s'.replica r).state.history.eofCallbacks =
        (s.replica r).state.history.eofCallbacks ∧
      (s'.replica r).state.history.completed = (s.replica r).state.history.completed := by
    rw [hk',(begin_data _ _ hbegin).1]
    exact ⟨rfl,rfl⟩
  have hzero : ∀ c, (s'.replica r).pending.countP (isCallback c) = 0 ∧
      (s'.replica r).pending.countP (isSynchronise c) = 0 := by
    intro c
    constructor
    · apply List.countP_eq_zero.mpr
      intro a ha
      simp [(isCallback_ofData (hdata a ha) c).1]
    · apply List.countP_eq_zero.mpr
      intro a ha
      simp [(isCallback_ofData (hdata a ha) c).2]
  rw [hnone] at hhandling
  refine ⟨allAttended_of hother hatt ?_,?_,?_,?_⟩
  · rw [hhandling]
    exact .data hdata
  · have hchange := inFlight_change hr hother
    rw [hhandling,hnone,hp,hqueue,emits_silent none fun a ha => silent_ofData (hdata a ha)] at hchange
    exact add_right_cancel (add_right_cancel hchange)
  · intro c x
    apply same_of hother
    simp only [callbacks,hp,hhistory.1,(hzero c).1,List.countP_nil]
  · intro c x
    apply same_of hother
    simp only [completions,hp,hhistory.2,(hzero c).2,List.countP_nil]

theorem step_tick (hatt : s.AllAttended) (hs : s.step cfg belongs (.tick r) = some s') :
    s'.AllAttended ∧ s.Same cfg s' := by
  obtain ⟨hr,ev,hev,hk,hqueue,hhandling,hother⟩ := step_local hs
  cases hev
  simp only [StageEvent.replica,Stage.broker] at hr hk hqueue hhandling hother
  obtain ⟨a,as,hp,hk'⟩ := Process.tick_of_step hk
  rw [hp,List.head?_cons,publish_eq] at hqueue hhandling
  simp only [Function.update_self] at hhandling
  have ha := hatt r
  rw [hp] at ha
  obtain ⟨hattended,hemits⟩ := attended_tick ha
  refine ⟨allAttended_of hother hatt ?_,?_,?_,?_⟩
  · rw [hhandling,hk']
    exact hattended
  · have hchange := inFlight_change hr hother
    rw [hhandling,hk',hp,hqueue,← hemits,← Multiset.coe_add] at hchange
    have hcancel : s'.inFlight cfg + ((s.queue : Multiset Envelope) +
          ((settle (s.handling r) a).1 + emits (settle (s.handling r) a).2 as)) =
        s.inFlight cfg + ((s.queue : Multiset Envelope) +
          ((settle (s.handling r) a).1 + emits (settle (s.handling r) a).2 as)) := by
      rw [← add_assoc,hchange]
      ac_rfl
    exact add_right_cancel hcancel
  · intro c x
    apply same_of hother
    rw [hk']
    exact (callbacks_tick (s.replica r) hp c).1
  · intro c x
    apply same_of hother
    rw [hk']
    exact (callbacks_tick (s.replica r) hp c).2

theorem step_eof {i : ℕ} {hasMessages : Bool} (hatt : s.AllAttended)
    (hs : s.step cfg belongs (.eof r i hasMessages) = some s') : s'.AllAttended ∧
      ∃ x, s.queue[i]? = some x ∧ s.Took cfg s' r x
        (callbackEof (cfg.forReplica r) (s.replica r).state hasMessages x.token) := by
  obtain ⟨hr,ev,hev,hk,hqueue,hhandling,hother⟩ := step_local hs
  obtain ⟨x,hx,hadmits,rfl⟩ := Stage.event_eof hev
  simp only [StageEvent.replica,Stage.broker,Function.update_self,hx] at hr hk hqueue hhandling hother
  obtain ⟨hp,t,program,hbegin,hk'⟩ := Process.begin_of_step hk
  have hnone := handling_of_pending hatt hp
  cases hbegin
  have hop := callbackEof_hop (cfg.forReplica r) (s.replica r).state hasMessages x.token
  refine ⟨allAttended_of hother hatt ?_,x,hx,hr,List.mem_of_getElem? hx,hadmits,?_,?_,
    ?_,?_⟩
  · obtain ⟨as,a,hprogram,ha,has,-⟩ := hop.closes
    rw [hprogram] at hop hk'
    rw [hhandling,hk']
    exact .token (fun b hb => ⟨has b hb,_,hop.ofEof b (List.mem_append_left _ hb)⟩) ha
  · rw [hk']
  · have hchange := inFlight_change hr hother
    have hperm : (s.queue : Multiset Envelope) = {x} + (s.queue.eraseIdx i : Multiset Envelope) := by
      obtain ⟨hi,rfl⟩ := List.getElem?_eq_some_iff.mp hx
      exact (Multiset.coe_eq_coe.mpr (List.getElem_cons_eraseIdx_perm hi)).symm
    rw [hhandling,hk',hqueue,hnone,hp,hperm] at hchange
    simp only [emits,add_zero] at hchange
    have hcancel : (s'.inFlight cfg + {x}) + (s.queue.eraseIdx i : Multiset Envelope) =
        (s.inFlight cfg + emits (some x) (callbackEof (cfg.forReplica r) (s.replica r).state
          hasMessages x.token)) + (s.queue.eraseIdx i : Multiset Envelope) := by
      rw [add_assoc,hchange]
      ac_rfl
    exact add_right_cancel hcancel
  · intro c y
    apply counts_of hother
    rw [hk']
    simp only [callbacks,hp,List.countP_nil,Nat.add_zero]
  · intro c y
    apply counts_of hother
    rw [hk']
    simp only [completions,hp,List.countP_nil,Nat.add_zero]

/-- Without crashes, only the taking of a token changes what is counted. -/
theorem step_flow {e : StageEvent β} (he : CrashFree s e) (hatt : s.AllAttended)
    (hs : s.step cfg belongs e = some s') : s'.AllAttended ∧ (s.Same cfg s' ∨
      ∃ r hasMessages x, s.Took cfg s' r x
        (callbackEof (cfg.forReplica r) (s.replica r).state hasMessages x.token)) := by
  cases e with
  | data r d h =>
      obtain ⟨ha,hsame⟩ := step_data hatt hs
      exact ⟨ha,Or.inl hsame⟩
  | tick r =>
      obtain ⟨ha,hsame⟩ := step_tick hatt hs
      exact ⟨ha,Or.inl hsame⟩
  | eof r i hasMessages =>
      obtain ⟨ha,x,-,htook⟩ := step_eof hatt hs
      exact ⟨ha,Or.inr ⟨r,hasMessages,x,htook⟩⟩
  | crash r => exact he.elim

theorem allAttended {tokens : List Envelope} (h : Stage.Run cfg belongs tokens CrashFree s) :
    s.AllAttended := by
  induction h with
  | init =>
      intro r
      exact .data fun a ha => by cases ha
  | step _ he hs ih => exact (step_flow he ih hs).1

end FlightsOptimizer.Receiver
