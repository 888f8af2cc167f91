import FlightsOptimizer.TokenLife

/-!
# Each round takes every replica once

The contributions that the replicas make for a client come in rounds, of one
phase after another. A round begins where the one before it is complete, and no
replica is in it twice.
-/
namespace FlightsOptimizer.Receiver
open Logger LogGrammar Eof Interruptible Finset

variable {β : Type} {cfg : Config}

inductive Phase where
  | discovery
  | aggregation
  deriving DecidableEq

/-- The phase of client `c` that an action contributes to. -/
def contribution (c : ClientId) : Action β → Option Phase
  | .updateDiscoveryEof t => if t.clientId = c then some .discovery else none
  | .updateAggregationEof t => if t.clientId = c then some .aggregation else none
  | _ => none

def contributions (c : ClientId) (r : ReplicaId) (program : List (Action β)) :
    List (Phase × ReplicaId) :=
  (program.filterMap (contribution c)).map fun p => (p,r)

/-- One round after another, each with one contribution of every replica. -/
inductive Rounds (cfg : Config) : List (Phase × ReplicaId) → Prop
  | nil : Rounds cfg []
  | append {log : List (Phase × ReplicaId)} {p : Phase} {round : List ReplicaId} :
      Rounds cfg log → round.Nodup → round.toFinset = cfg.replicas →
      Rounds cfg (log ++ round.map (Prod.mk p))

theorem Rounds.trans {log log' : List (Phase × ReplicaId)} (h : Rounds cfg log)
    (h' : Rounds cfg log') : Rounds cfg (log ++ log') := by
  induction h' with
  | nil => exact (List.append_nil log).symm ▸ h
  | append _ hn hf ih => exact List.append_assoc .. ▸ ih.append hn hf

theorem Rounds.one {p : Phase} {seen : List ReplicaId} {r : ReplicaId} (h : Seen cfg seen)
    (hr : r ∉ seen) (hm : r ∈ cfg.replicas) (hf : cfg.replicasCount ≤ (seen ++ [r]).length) :
    Rounds cfg (seen.map (Prod.mk p) ++ [(p,r)]) := by
  have hs := h.append hr hm
  have hround := Rounds.nil.append (p := p) hs.nodup (hs.full hf)
  rw [List.nil_append,List.map_append] at hround
  exact hround

/-- The contributions of the round that a token is in. -/
def roundOf : Token → List (Phase × ReplicaId)
  | .discovery t => t.replicaIdSeen.map (Prod.mk .discovery)
  | .aggregation t => t.replicaIdSeen.map (Prod.mk .aggregation)
  | _ => []

variable {c : ClientId} {r : ReplicaId} {rep : Replica β} {hasMessages : Bool} {x : Envelope}
variable {program : List (Action β)}

theorem contributions_append (c : ClientId) (r : ReplicaId) (as bs : List (Action β)) :
    contributions c r (as ++ bs) = contributions c r as ++ contributions c r bs := by
  unfold contributions
  rw [List.filterMap_append,List.map_append]

theorem contributions_nil {as : List (Action β)} (h : ∀ a ∈ as, contribution c a = none) :
    contributions c r as = [] := by
  unfold contributions
  rw [List.filterMap_eq_nil_iff.mpr h]
  rfl

theorem contributions_other (hop : Hop cfg rep hasMessages x.token program)
    (hc : x.token.clientId ≠ c) : contributions c r program = [] := by
  apply contributions_nil
  intro a ha
  have hof := hop.ofEof a ha
  cases a with
  | updateDiscoveryEof t => exact if_neg fun he => hc (hof.symm.trans he)
  | updateAggregationEof t => exact if_neg fun he => hc (hof.symm.trans he)
  | _ => rfl

theorem contribution_connectionHandleEof {e : ClientId} {ids : Option (MessageId × ClientId)}
    {a : Action β} (ha : a ∈ connectionHandleEof cfg e ids hasMessages) :
    contribution c a = none := by
  rcases mem_connectionHandleEof ha with rfl | rfl | rfl | ⟨_,rfl⟩ | ⟨_,rfl⟩ <;> rfl

theorem contributions_finishing (f : EofFinish) :
    contributions c r (finishing cfg rep hasMessages f) = [] := by
  apply contributions_nil
  intro a ha
  rcases mem_finishing ha with rfl | ha
  · rfl
  · exact contribution_connectionHandleEof ha

theorem contributions_completing (t : EofAggregation) :
    contributions c r (completing cfg rep hasMessages t) = [] := by
  apply contributions_nil
  intro a ha
  rcases mem_completing ha with rfl | ha
  · rfl
  · exact contribution_connectionHandleEof ha

theorem contributions_discovery {b : EofDiscovery} {as : List (Action β)}
    (hb : b.clientId = c) : contributions c r (.updateDiscoveryEof b :: as) =
      (.discovery,r) :: contributions c r as := by
  have hsome : contribution c (.updateDiscoveryEof b : Action β) = some .discovery := if_pos hb
  unfold contributions
  rw [List.filterMap_cons_some hsome,List.map_cons]

theorem contributions_aggregation {b : EofAggregation} {as : List (Action β)}
    (hb : b.clientId = c) : contributions c r (.updateAggregationEof b :: as) =
      (.aggregation,r) :: contributions c r as := by
  have hsome : contribution c (.updateAggregationEof b : Action β) = some .aggregation := if_pos hb
  unfold contributions
  rw [List.filterMap_cons_some hsome,List.map_cons]

theorem roundOf_asDiscovery {t : Token} {d : EofDiscovery} (h : t.asDiscovery = some d) :
    roundOf t = d.replicaIdSeen.map (Prod.mk .discovery) := by
  cases t <;> cases h <;> rfl

/-- A token comes to its aggregation with a complete discovery behind it, if any. -/
theorem Aggregates.contributes {t : Token} {a : EofAggregation} {before : List (Action β)}
    (h : Aggregates (cfg.forReplica r) rep t a before) (hseen : Seen cfg t.replicaIdSeen)
    (hm : r ∈ cfg.replicas) : ∃ full, Rounds cfg full ∧
      roundOf t ++ contributions t.clientId r before =
        full ++ a.replicaIdSeen.map (Prod.mk .aggregation) := by
  cases h with
  | aggregation a => exact ⟨[],.nil,by simp [roundOf,contributions]⟩
  | @discovered t d hd hr hlen =>
      have hseen : Seen cfg d.replicaIdSeen := replicaIdSeen_asDiscovery hd ▸ hseen
      refine ⟨_,Rounds.one (p := .discovery) hseen hr hm hlen,?_⟩
      have hclient : (Receiver.discovered (cfg.forReplica r) rep d).clientId = t.clientId :=
        discovered_clientId hd
      rw [roundOf_asDiscovery hd,contributions_discovery hclient]
      exact (List.append_nil _).symm

theorem roundOf_finishing {f : EofFinish} {y : Envelope}
    (hy : y ∈ emits (some x) (finishing cfg rep hasMessages f ++ [.ackEof] : List (Action β))) :
    roundOf y.token = [] := by
  have hfinishing := congrArg Prod.fst (effect_finishing cfg rep hasMessages x f)
  simp only [effect] at hfinishing
  rw [emits_append,hfinishing] at hy
  split_ifs at hy
  · rw [List.mem_singleton.mp hy]
    rfl
  · cases hy

/-- The round of the token, with what its hop contributes, is a number of complete
rounds and the round of the token that comes out. -/
theorem Hop.contributes {t : Token}
    (h : Hop (cfg.forReplica r) rep hasMessages t program)
    (ht : x.token = t) (hseen : Seen cfg t.replicaIdSeen) (hm : r ∈ cfg.replicas) :
    ∃ full rest, Rounds cfg full ∧
      roundOf t ++ contributions t.clientId r program = full ++ rest ∧
      (∀ y ∈ emits (some x) program, roundOf y.token = rest) ∧
      (emits (some x) program = 0 → rest = []) := by
  have aggregated : ∀ {a bs}, Aggregates (cfg.forReplica r) rep t a bs → Seen cfg a.replicaIdSeen := by
    intro a bs ha
    rcases ha.replicaIdSeen with he | he
    · rw [he]
      exact hseen
    · rw [he]
      exact ⟨List.nodup_nil,fun _ h => absurd h List.not_mem_nil⟩
  cases h with
  | seen hs =>
      refine ⟨[],roundOf t,.nil,List.append_nil _,?_,fun h => absurd h (Multiset.singleton_ne_zero x)⟩
      intro y hy
      rw [List.mem_singleton.mp hy,ht]
  | @discovered _ d hd hr hlen =>
      have hclient : (Receiver.discovered (cfg.forReplica r) rep d).clientId = t.clientId :=
        discovered_clientId hd
      refine ⟨[],_,.nil,rfl,?_,fun h => absurd h (Multiset.singleton_ne_zero _)⟩
      intro y hy
      rw [List.mem_singleton.mp hy,roundOf_asDiscovery hd,contributions_discovery hclient]
      exact List.map_append
  | @aggregated _ a bs ha hr hlen =>
      obtain ⟨full,hfull,hround⟩ := ha.contributes hseen hm
      have hclient : (Receiver.aggregated (cfg.forReplica r) rep a).clientId = t.clientId :=
        ha.clientId
      have hbs : emits (some x) bs = 0 := congrArg Prod.fst (ha.effect x t.clientId)
      refine ⟨full,a.replicaIdSeen.map (Prod.mk .aggregation) ++ [(.aggregation,r)],hfull,?_,?_,?_⟩
      · rw [contributions_append,contributions_aggregation hclient,← List.append_assoc,hround,
          List.append_assoc]
        rfl
      · intro y hy
        rw [emits_append,hbs,zero_add] at hy
        rw [List.mem_singleton.mp hy]
        exact List.map_append
      · rw [emits_append,hbs,zero_add]
        exact fun h => absurd h (Multiset.singleton_ne_zero _)
  | @restarted _ a bs ha hr hlen _ =>
      obtain ⟨full,hfull,hround⟩ := ha.contributes hseen hm
      have hclient : (Receiver.aggregated (cfg.forReplica r) rep a).clientId = t.clientId :=
        ha.clientId
      have hbs : emits (some x) bs = 0 := congrArg Prod.fst (ha.effect x t.clientId)
      refine ⟨_,[],hfull.trans (Rounds.one (p := .aggregation) (aggregated ha) hr hm hlen),?_,?_,
        fun _ => rfl⟩
      · rw [contributions_append,contributions_aggregation hclient,← List.append_assoc,hround]
        simp only [List.append_assoc,List.append_nil]
        rfl
      · intro y hy
        rw [emits_append,hbs,zero_add] at hy
        rw [List.mem_singleton.mp hy]
        rfl
  | @completed _ a bs ha hr hlen _ =>
      obtain ⟨full,hfull,hround⟩ := ha.contributes hseen hm
      have hclient : (Receiver.aggregated (cfg.forReplica r) rep a).clientId = t.clientId :=
        ha.clientId
      refine ⟨_,[],hfull.trans (Rounds.one (p := .aggregation) (aggregated ha) hr hm hlen),?_,?_,
        fun _ => rfl⟩
      · rw [contributions_append,contributions_aggregation hclient,contributions_append,
          contributions_append,contributions_completing,contributions_finishing,
          ← List.append_assoc,hround]
        simp only [List.append_assoc,List.append_nil]
        rfl
      · intro y hy
        have hcompleting : emits (some x) (completing (cfg.forReplica r) rep hasMessages
            (Receiver.aggregated (cfg.forReplica r) rep a)) = 0 :=
          congrArg Prod.fst (effect_completing _ _ _ x _)
        have hbs : emits (some x) bs = 0 := congrArg Prod.fst (ha.effect x t.clientId)
        rw [emits_append,hbs,zero_add,emits,emits_append,hcompleting,zero_add] at hy
        · exact roundOf_finishing hy
        all_goals
          intros
          contradiction
  | @finished f hr =>
      refine ⟨[],[],.nil,?_,?_,fun _ => rfl⟩
      · rw [contributions_append,contributions_finishing]
        rfl
      · exact fun y hy => roundOf_finishing hy

section
variable (cfg) (belongs : MessageId → MessageId → Bool) (tokens : List Envelope) (c : ClientId)

/-- What an event that led to `s` contributed for `c`. -/
def StageEvent.contributions (s : Stage β) : StageEvent β → List (Phase × ReplicaId)
  | .eof r _ _ => Receiver.contributions c r (s.replica r).pending
  | _ => []

/-- A run without crashes, with the contributions made for `c` in their order. -/
inductive Contributed : Stage β → List (Phase × ReplicaId) → Prop
  | init : Contributed (.initial cfg tokens) []
  | step {s s' : Stage β} {e : StageEvent β} {log : List (Phase × ReplicaId)} :
      Contributed s log → CrashFree s e → s.step cfg belongs e = some s' →
      Contributed s' (log ++ e.contributions c s')

end

variable {belongs : MessageId → MessageId → Bool} {tokens : List Envelope} {s s' : Stage β}
variable {log : List (Phase × ReplicaId)}

theorem Contributed.run (h : Contributed cfg belongs tokens c s log) :
    Stage.Run cfg belongs tokens CrashFree s := by
  induction h with
  | init => exact .init
  | step _ he hs ih => exact .step ih he hs

theorem exists_contributed (c : ClientId) (h : Stage.Run cfg belongs tokens CrashFree s) :
    ∃ log, Contributed cfg belongs tokens c s log := by
  induction h with
  | init => exact ⟨[],.init⟩
  | step _ he hs ih =>
      obtain ⟨log,hlog⟩ := ih
      exact ⟨_,.step hlog he hs⟩

/-- The contributions end in the round of the client's token. -/
def InRounds (cfg : Config) (s : Stage β) (c : ClientId) (log : List (Phase × ReplicaId)) : Prop :=
  ∃ full rest, Rounds cfg full ∧ log = full ++ rest ∧
    (∀ y ∈ s.tokensOf cfg c, roundOf y.token = rest) ∧ (s.tokensOf cfg c = 0 → rest = [])

theorem InRounds.same (h : InRounds cfg s c log) (hs : s'.tokensOf cfg c = s.tokensOf cfg c) :
    InRounds cfg s' c log := by
  obtain ⟨full,rest,hfull,hlog,htokens,hnone⟩ := h
  rw [← hs] at htokens hnone
  exact ⟨full,rest,hfull,hlog,htokens,hnone⟩

theorem Life.tokensOf_eq (h : Life cfg s c) (hx : x ∈ s.tokensOf cfg c) :
    s.tokensOf cfg c = {x} := by
  cases h with
  | waiting hy _ _ _ =>
      rw [hy] at hx
      rw [hy,Multiset.mem_singleton.mp hx]
  | finishing hy _ =>
      rw [hy] at hx
      rw [hy,Multiset.mem_singleton.mp hx]
  | ended hy _ _ =>
      rw [hy] at hx
      cases hx

theorem InRounds.took (h : InRounds cfg s c log) (hlife : Life cfg s c)
    (htook : s.Took cfg s' r x program) (hplaced : Placed cfg x)
    (hop : Hop (cfg.forReplica r) rep hasMessages x.token program) :
    InRounds cfg s' c (log ++ contributions c r program) := by
  by_cases hc : x.token.clientId = c
  · subst hc
    have hx := hlife.tokensOf_eq htook.mem_tokensOf
    have htokens := htook.tokensOf hop
    rw [hx,add_comm] at htokens
    have htokens := add_left_cancel htokens
    obtain ⟨full,rest,hfull,hlog,hround,-⟩ := h
    obtain ⟨full',rest',hfull',hround',hafter,hnone⟩ :=
      hop.contributes rfl hplaced.seen htook.member
    rw [← htokens] at hafter hnone
    refine ⟨full ++ full',rest',hfull.trans hfull',?_,hafter,hnone⟩
    rw [hlog,← hround x htook.mem_tokensOf,List.append_assoc,hround',List.append_assoc]
  · rw [contributions_other hop hc,List.append_nil]
    exact h.same (htook.tokensOf_other hop hc)

theorem Contributed.inRounds (h : Contributed cfg belongs tokens x.token.clientId s log)
    (hstart : Starts cfg tokens) (hx : x ∈ tokens) : InRounds cfg s x.token.clientId log := by
  induction h with
  | init =>
      obtain ⟨t,ht⟩ := hstart.eof x hx
      refine ⟨[],[],.nil,rfl,?_,fun _ => rfl⟩
      intro y hy
      rw [hstart.tokensOf hx] at hy
      rw [Multiset.mem_singleton.mp hy,ht]
      rfl
  | @step s s' e log h he hs ih =>
      have hrun := h.run
      have hatt := allAttended hrun
      have htokens : s.Same cfg s' → s'.tokensOf cfg x.token.clientId =
          s.tokensOf cfg x.token.clientId := by
        intro hsame
        unfold Stage.tokensOf
        rw [hsame.inFlight]
      cases e with
      | data r d h =>
          simp only [StageEvent.contributions,List.append_nil]
          exact ih.same (htokens (step_data hatt hs).2)
      | tick r =>
          simp only [StageEvent.contributions,List.append_nil]
          exact ih.same (htokens (step_tick hatt hs).2)
      | eof r i hasMessages =>
          obtain ⟨-,y,-,htook⟩ := step_eof hatt hs
          simp only [StageEvent.contributions,htook.running]
          exact ih.took (life hstart hrun hx) htook (placed hstart hrun (Or.inl htook.queued))
            (callbackEof_hop _ _ hasMessages y.token)
      | crash r => exact he.elim

/-- On a ring no token is given back. -/
theorem nack_free (hk : cfg.routingKey = true) (hstart : Starts cfg tokens)
    (h : Stage.Run cfg belongs tokens CrashFree s) (r : ReplicaId) :
    .nackEof ∉ (s.replica r).pending := by
  induction h with
  | init => exact List.not_mem_nil
  | @step s s' e h he hs ih =>
      obtain ⟨hr,ev,hev,hstep,-,-,hother⟩ := step_local hs
      by_cases her : r = e.replica
      · subst her
        intro hn
        rcases Stage.mem_pending_step hstep hn with hn | ⟨d,_,_,ha⟩ | ⟨t,hasMessages,rfl,ha⟩
        · exact ih hn
        · rcases ha with ha | ha
          · cases ha
          · exact ofData_callback _ d _ _ ha
        · obtain ⟨r,i,x,rfl,hx,hadmits,rfl⟩ := Stage.event_token hev
          have hunseen := (placed hstart h (Or.inl (List.mem_of_getElem? hx))).unseen hk hadmits
          obtain ⟨as,a,hprogram,-,has,hseen⟩ := (callbackEof_hop _ _ hasMessages x.token).closes
          rw [hprogram] at ha
          rcases List.mem_append.mp ha with ha | ha
          · exact has _ ha trivial
          · exact hunseen (hseen (List.mem_singleton.mp ha).symm)
      · rw [(hother r her).2]
        exact ih

/-- What the stage has done for a client by the time that its token is gone. -/
structure Once (cfg : Config) (belongs : MessageId → MessageId → Bool) (s : Stage β)
    (c : ClientId) : Prop where
  single : (s.tokensOf cfg c).card ≤ 1
  finish : ∀ r n, (c,n) ∈ (s.replica r).state.history.completed →
    ∀ y ∈ s.tokensOf cfg c, y.token.isFinish = true
  queue : cfg.routingKey = false → ∀ r n, (c,n) ∈ (s.replica r).state.history.completed →
    ∑ r' ∈ cfg.replicas, callbacks c (s.replica r') = 1 ∧
      ((s.replica r).pending = [] →
        ∑ r' ∈ cfg.replicas, (s.replica r').state.history.eofCallbacks.count c = 1)
  ring : cfg.routingKey = true → s.tokensOf cfg c = 0 → ∀ r ∈ cfg.replicas,
    callbacks c (s.replica r) = 1 ∧
      ((s.replica r).pending = [] → (s.replica r).state.history.eofCallbacks.count c = 1)
  last : ∀ r i hasMessages s', s.step cfg belongs (.eof r i hasMessages) = some s' →
    ∀ d f, s.queue[i]? = some ⟨d,.finish f⟩ → f.clientId = c → r ∉ f.replicaIdSeen →
      cfg.replicasCount ≤ f.replicaIdSeen.length + 1 → s'.tokensOf cfg c = 0
  gone : s.tokensOf cfg c = 0 → ∀ e s', CrashFree s e → s.step cfg belongs e = some s' →
    s'.tokensOf cfg c = 0

theorem completions_pos {n : ℤ} {k : Interruptible.Config (Replica β) (Action β)}
    (h : (c,n) ∈ k.state.history.completed) : 0 < completions c k := by
  unfold completions
  apply Nat.add_pos_left
  exact List.countP_pos_iff.mpr ⟨_,h,beq_self_eq_true c⟩

theorem callbacks_idle {k : Interruptible.Config (Replica β) (Action β)} (h : k.pending = []) :
    callbacks c k = k.state.history.eofCallbacks.count c := by
  unfold callbacks
  rw [h]
  rfl

/-- Whoever completed the last round is the one replica that did. -/
theorem Life.called (h : Life cfg s c) (hk : 0 < completions c (s.replica r)) :
    ∃ seen, Called cfg s c r seen ∧ ∀ y ∈ s.tokensOf cfg c, y.token.isFinish = true := by
  cases h with
  | waiting _ _ hsync _ =>
      rw [hsync r] at hk
      cases hk
  | @finishing d f r₀ hx hcalled =>
      have hr : r = r₀ := by
        by_contra hne
        rw [hcalled.completions,if_neg hne] at hk
        cases hk
      subst hr
      refine ⟨_,hcalled,?_⟩
      intro y hy
      rw [hx] at hy
      rw [Multiset.mem_singleton.mp hy]
      rfl
  | @ended seen r₀ hx _ hcalled =>
      have hr : r = r₀ := by
        by_contra hne
        rw [hcalled.completions,if_neg hne] at hk
        cases hk
      subst hr
      refine ⟨seen,hcalled,?_⟩
      intro y hy
      rw [hx] at hy
      cases hy

/-- On a queue only the replica that completed the last round calls back. -/
theorem Called.queue {seen : List ReplicaId} (h : Called cfg s c r seen)
    (hk : cfg.routingKey = false) : ∑ r' ∈ cfg.replicas, Receiver.callbacks c (s.replica r') = 1 ∧
      ((s.replica r).pending = [] →
        ∑ r' ∈ cfg.replicas, (s.replica r').state.history.eofCallbacks.count c = 1) := by
  have hcalls : ∀ r', Receiver.callbacks c (s.replica r') = if r' = r then 1 else 0 := by
    intro r'
    rw [h.callbacks,hk]
    rfl
  constructor
  · simp only [hcalls,sum_ite_eq',h.member,if_true]
  · intro hidle
    have hcounts : ∀ r', (s.replica r').state.history.eofCallbacks.count c =
        if r' = r then 1 else 0 := by
      intro r'
      by_cases hr : r' = r
      · subst hr
        rw [← callbacks_idle hidle]
        exact hcalls r'
      · have hzero := hcalls r'
        rw [if_neg hr] at hzero ⊢
        exact (Nat.add_eq_zero_iff.mp hzero).1
    simp only [hcounts,sum_ite_eq',h.member,if_true]

/-- On a ring every replica that has seen the finish token calls back. -/
theorem Life.ring (h : Life cfg s c) (hk : cfg.routingKey = true)
    (hgone : s.tokensOf cfg c = 0) (hm : r ∈ cfg.replicas) : callbacks c (s.replica r) = 1 := by
  cases h with
  | waiting hx _ _ _ =>
      rw [hgone] at hx
      exact absurd hx.symm (Multiset.singleton_ne_zero _)
  | finishing hx _ =>
      rw [hgone] at hx
      exact absurd hx.symm (Multiset.singleton_ne_zero _)
  | ended _ hseen hcalled =>
      rw [← hseen] at hm
      rw [hcalled.callbacks,if_pos hk,if_pos (List.mem_toFinset.mp hm)]

theorem Life.card_le (h : Life cfg s c) : (s.tokensOf cfg c).card ≤ 1 := by
  cases h with
  | waiting hx _ _ _ => rw [hx,Multiset.card_singleton]
  | finishing hx _ => rw [hx,Multiset.card_singleton]
  | ended hx _ _ =>
      rw [hx]
      exact Nat.zero_le 1

/-- The last replica to see the finish token keeps it. -/
theorem last_hop (hstart : Starts cfg tokens) (h : Stage.Run cfg belongs tokens CrashFree s)
    (hx : x ∈ tokens) {i : ℕ} (hs : s.step cfg belongs (.eof r i hasMessages) = some s')
    {d : Option ReplicaId} {f : EofFinish} (hi : s.queue[i]? = some ⟨d,.finish f⟩)
    (hc : f.clientId = x.token.clientId) (hr : r ∉ f.replicaIdSeen)
    (hf : cfg.replicasCount ≤ f.replicaIdSeen.length + 1) :
    s'.tokensOf cfg x.token.clientId = 0 := by
  obtain ⟨-,y,hy,htook⟩ := step_eof (allAttended h) hs
  cases hi.symm.trans hy
  have hop := callbackEof_hop (cfg.forReplica r) (s.replica r).state hasMessages (.finish f)
  have hmem := htook.mem_tokensOf
  have hclient : (⟨d,.finish f⟩ : Envelope).token.clientId = x.token.clientId := hc
  rw [hclient] at hmem
  have hone := (life hstart h hx).tokensOf_eq hmem
  rw [← hclient] at hone ⊢
  obtain ⟨e,heffect,htokens,-,-⟩ := htook.effect hop hone
  refine htokens.trans ?_
  cases heffect with
  | seen hs => exact absurd hs hr
  | passed hf _ _ => cases hf
  | completed hf => cases hf
  | finished hf' _ =>
      cases hf'
      exact if_neg (Nat.not_lt.mpr hf)

theorem gone_stays (hatt : s.AllAttended) (hgone : s.tokensOf cfg c = 0) {e : StageEvent β}
    (he : CrashFree s e) (hs : s.step cfg belongs e = some s') : s'.tokensOf cfg c = 0 := by
  obtain ⟨-,hsame | ⟨r,hasMessages,y,htook⟩⟩ := step_flow he hatt hs
  · unfold Stage.tokensOf at hgone ⊢
    rw [hsame.inFlight]
    exact hgone
  · have hc : y.token.clientId ≠ c := by
      intro hc
      have hy := htook.mem_tokensOf
      rw [hc,hgone] at hy
      cases hy
    rw [htook.tokensOf_other (callbackEof_hop _ _ hasMessages y.token) hc]
    exact hgone

/-- What a token has to say of its round. -/
theorem Placed.round (hR : 1 ≤ cfg.replicasCount) (h : Placed cfg x) : ∃ p,
    ∃ round : List ReplicaId, roundOf x.token = round.map (Prod.mk p) ∧ round.Nodup ∧
      round.length < cfg.replicasCount := by
  obtain ⟨hseen,hshort,-⟩ := h
  generalize x.token = t at hseen hshort
  cases t with
  | eof t => exact ⟨.discovery,[],rfl,List.nodup_nil,hR⟩
  | discovery t => exact ⟨.discovery,t.replicaIdSeen,rfl,hseen.nodup,hshort⟩
  | aggregation t => exact ⟨.aggregation,t.replicaIdSeen,rfl,hseen.nodup,hshort⟩
  | finish t => exact ⟨.discovery,[],rfl,List.nodup_nil,hR⟩

theorem eof_once (hstart : Starts cfg tokens) (h : Stage.Run cfg belongs tokens CrashFree s) :
    (∀ y, s.Holds y → y.token.replicaIdSeen.Nodup ∧
      y.token.replicaIdSeen.length < cfg.replicasCount) ∧
    (cfg.routingKey = true → ∀ r, .nackEof ∉ (s.replica r).pending) ∧
    ∀ x ∈ tokens, Once cfg belongs s x.token.clientId ∧
      ∀ log, Contributed cfg belongs tokens x.token.clientId s log → ∃ full p,
        ∃ round : List ReplicaId, log = full ++ round.map (Prod.mk p) ∧ Rounds cfg full ∧
          round.Nodup ∧ round.length < cfg.replicasCount := by
  refine ⟨?_,fun hk r => nack_free hk hstart h r,?_⟩
  · intro y hy
    have hp := placed hstart h hy
    exact ⟨hp.seen.nodup,hp.short⟩
  intro x hx
  have hlife := life hstart h hx
  constructor
  · refine ⟨hlife.card_le,?_,?_,?_,?_,?_⟩
    · intro r n hn
      obtain ⟨-,-,hfinish⟩ := hlife.called (completions_pos hn)
      exact hfinish
    · intro hk r n hn
      obtain ⟨seen,hcalled,-⟩ := hlife.called (completions_pos hn)
      exact hcalled.queue hk
    · intro hk hgone r hm
      have hcall := hlife.ring hk hgone hm
      exact ⟨hcall,fun hidle => callbacks_idle hidle ▸ hcall⟩
    · intro r i hasMessages s' hs d f hi hc hr hf
      exact last_hop hstart h hx hs hi hc hr hf
    · intro hgone e s' he hs
      exact gone_stays (allAttended h) hgone he hs
  · intro log hlog
    obtain ⟨full,rest,hfull,hsplit,htokens,hnone⟩ := hlog.inRounds hstart hx
    obtain ⟨p,round,hround,hn,hlt⟩ : ∃ p, ∃ round : List ReplicaId,
        rest = round.map (Prod.mk p) ∧ round.Nodup ∧ round.length < cfg.replicasCount := by
      rcases Multiset.empty_or_exists_mem (s.tokensOf cfg x.token.clientId) with hzero | ⟨y,hy⟩
      · exact ⟨.discovery,[],hnone hzero,List.nodup_nil,hstart.positive⟩
      · obtain ⟨p,round,hround,hn,hlt⟩ := (placed hstart h
          (Stage.holds_of_inFlight (Multiset.mem_of_mem_filter hy))).round hstart.positive
        exact ⟨p,round,(htokens y hy).symm.trans hround,hn,hlt⟩
    exact ⟨full,p,round,hround ▸ hsplit,hfull,hn,hlt⟩

def ring : Config where
  replicaId := 1
  replicasCount := 2
  routingKey := true

def ringStart : List Envelope := [⟨some 1,.eof ⟨1,0,[]⟩⟩]

theorem ringStart_starts : Starts ring ringStart := by
  refine ⟨by decide,?_,List.nodup_singleton 1,?_⟩
  · intro x hx
    rw [List.mem_singleton.mp hx]
    exact ⟨_,rfl⟩
  · intro x hx
    rw [List.mem_singleton.mp hx]
    exact ⟨1,by decide,rfl⟩

def crashFree (_ : Stage ℕ) : StageEvent ℕ → Bool
  | .crash _ => false
  | _ => true

theorem crashFree_sound (s : Stage ℕ) (e : StageEvent ℕ) (h : crashFree s e = true) :
    CrashFree s e := by
  cases e with
  | crash r => cases h
  | _ => trivial

/-- A discovery at both replicas, an aggregation at both, then the finish. -/
def ringTurn : Stage ℕ :=
  ((Stage.initial ring ringStart).replay ring startsWithId crashFree
    (.eof 1 0 false :: List.replicate 3 (.tick 1) ++ .eof 2 0 false :: List.replicate 4 (.tick 2) ++
      .eof 1 0 false :: List.replicate 6 (.tick 1) ++ .eof 2 0 false ::
        List.replicate 3 (.tick 2))).get (by decide)

theorem eof_once_ringTurn : ringTurn.tokensOf ring 1 = 0 ∧
    ∀ r ∈ ring.replicas, (ringTurn.replica r).state.history.eofCallbacks.count 1 = 1 := by
  have hrun : Stage.Run ring startsWithId ringStart CrashFree ringTurn :=
    Stage.run_replay crashFree_sound _
  have hgone : ringTurn.tokensOf ring 1 = 0 := by decide
  have honce := ((eof_once ringStart_starts hrun).2.2 _ List.mem_cons_self).1
  refine ⟨hgone,?_⟩
  intro r hr
  have hidle : ∀ r ∈ ring.replicas, (ringTurn.replica r).pending = [] := by decide
  exact (honce.ring rfl hgone r hr).2 (hidle r hr)

end FlightsOptimizer.Receiver
