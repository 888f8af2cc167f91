import FlightsOptimizer.Rounds
import FlightsOptimizer.TokenFlow

/-!
# Exactly one end of file for each client

In a run without crashes the one EOF of a client is always one token: on its way
through a round, then as the finish token, then gone. With that, the callbacks
that the stage has made for the client are determined by the phase of its token.

On a ring a token goes to the next replica after the one that published it, so
the replicas that have seen it are the last few before the one it goes to.
-/
namespace FlightsOptimizer.Receiver
open Logger LogGrammar Eof Interruptible Finset

variable {β : Type} {cfg : Config}

theorem mem_replicas {r : ℕ} : r ∈ cfg.replicas ↔ 1 ≤ r ∧ r ≤ cfg.replicasCount := mem_Icc

/-- `(replica_id % replicas_count) + 1`. -/
def nextReplica (cfg : Config) (r : ReplicaId) : ReplicaId := r % cfg.replicasCount + 1

theorem nextReplica_mem (hR : 1 ≤ cfg.replicasCount) (r : ReplicaId) :
    nextReplica cfg r ∈ cfg.replicas := by
  have hlt := Nat.mod_lt r hR
  exact mem_replicas.mpr ⟨Nat.le_add_left 1 _,hlt⟩

theorem nextReplica_iterate {r : ReplicaId} (hr : r ∈ cfg.replicas) (j : ℕ) :
    (nextReplica cfg)^[j] r = (r - 1 + j) % cfg.replicasCount + 1 := by
  obtain ⟨h₁,h₂⟩ := mem_replicas.mp hr
  induction j with
  | zero =>
      rw [Nat.add_zero,Nat.mod_eq_of_lt (by omega)]
      exact (Nat.sub_add_cancel h₁).symm
  | succ j ih =>
      rw [Function.iterate_succ_apply',ih]
      unfold nextReplica
      rw [Nat.mod_add_mod,Nat.add_assoc]

theorem turn_ne {R r j : ℕ} (h₁ : 1 ≤ r) (h₂ : r ≤ R) (hj : 0 < j) (hlt : j < R) :
    (r - 1 + j) % R + 1 ≠ r := by
  intro he
  by_cases hs : r - 1 + j < R
  · rw [Nat.mod_eq_of_lt hs] at he
    omega
  · rw [Nat.mod_eq_sub_mod (by omega),Nat.mod_eq_of_lt (by omega)] at he
    omega

/-- A full turn is the first return. -/
theorem nextReplica_iterate_ne {r : ReplicaId} (hr : r ∈ cfg.replicas) {j : ℕ} (hj : 0 < j)
    (hlt : j < cfg.replicasCount) : (nextReplica cfg)^[j] r ≠ r := by
  obtain ⟨h₁,h₂⟩ := mem_replicas.mp hr
  rw [nextReplica_iterate hr]
  exact turn_ne h₁ h₂ hj hlt

/-- What holds of every token on its way. -/
structure Placed (cfg : Config) (x : Envelope) : Prop where
  seen : Seen cfg x.token.replicaIdSeen
  short : x.token.replicaIdSeen.length < cfg.replicasCount
  routed : cfg.routingKey = true → ∃ d ∈ cfg.replicas, x.destination = some d ∧
    ∀ y ∈ x.token.replicaIdSeen, ∃ j, 0 < j ∧ j ≤ x.token.replicaIdSeen.length ∧
      (nextReplica cfg)^[j] y = d

/-- On a ring nobody gets a token that it has seen. -/
theorem Placed.unseen {x : Envelope} {r : ReplicaId} (h : Placed cfg x)
    (hk : cfg.routingKey = true) (hx : x.admits r = true) : r ∉ x.token.replicaIdSeen := by
  obtain ⟨d,hd,hdest,hring⟩ := h.routed hk
  have hdr : d = r := by
    unfold Envelope.admits at hx
    rw [hdest] at hx
    exact beq_iff_eq.mp hx
  subst hdr
  intro hm
  obtain ⟨j,hj,hle,he⟩ := hring d hm
  exact nextReplica_iterate_ne hd hj (hle.trans_lt h.short) he

/-- The EOF messages that a stage begins with, one for each client. -/
structure Starts (cfg : Config) (tokens : List Envelope) : Prop where
  positive : 1 ≤ cfg.replicasCount
  eof : ∀ x ∈ tokens, ∃ t, x.token = .eof t
  once : (tokens.map fun x => x.token.clientId).Nodup
  routed : ∀ x ∈ tokens, if cfg.routingKey then ∃ d ∈ cfg.replicas, x.destination = some d
    else x.destination = none

theorem Starts.placed {tokens : List Envelope} (h : Starts cfg tokens) {x : Envelope}
    (hx : x ∈ tokens) : Placed cfg x := by
  obtain ⟨t,ht⟩ := h.eof x hx
  have hseen : x.token.replicaIdSeen = [] := by
    rw [ht]
    rfl
  refine ⟨?_,?_,?_⟩
  · rw [hseen]
    exact ⟨List.nodup_nil,fun _ hr => by cases hr⟩
  · rw [hseen]
    exact h.positive
  · intro hk
    have hr := h.routed x hx
    rw [if_pos hk] at hr
    obtain ⟨d,hd,hdest⟩ := hr
    refine ⟨d,hd,hdest,?_⟩
    rw [hseen]
    intro y hy
    cases hy

variable {r : ReplicaId} {rep : Replica β} {hasMessages : Bool} {x : Envelope}
variable {program : List (Action β)}

/-- A hop puts its token where it belongs. -/
theorem Placed.hop (hR : 1 ≤ cfg.replicasCount) (h : Placed cfg x) (hr : r ∈ cfg.replicas)
    (hx : x.admits r = true) (hop : Hop (cfg.forReplica r) rep hasMessages x.token program)
    {x' : Envelope} (hx' : .requeueEof x'.destination x'.token ∈ program) : Placed cfg x' := by
  obtain ⟨hdest,-⟩ := hop.of_requeue hx'
  have hrouted : cfg.routingKey = true → x'.destination = some (nextReplica cfg r) := by
    intro hk
    rw [hdest]
    exact if_pos hk
  rcases hop.seen_of_requeue hx' with hempty | ⟨seen,hseen,hnot,hlen,hnew⟩
  · refine ⟨?_,?_,?_⟩
    · rw [hempty]
      exact ⟨List.nodup_nil,fun _ hr => by cases hr⟩
    · rw [hempty]
      exact hR
    · intro hk
      refine ⟨_,nextReplica_mem hR r,hrouted hk,?_⟩
      rw [hempty]
      intro y hy
      cases hy
  · have hold : Seen cfg seen := by
      rcases hseen with rfl | rfl
      · exact h.seen
      · exact ⟨List.nodup_nil,fun _ hr => by cases hr⟩
    refine ⟨?_,?_,?_⟩
    · rw [hnew]
      exact hold.append hnot hr
    · rw [hnew,List.length_append]
      exact hlen
    · intro hk
      refine ⟨_,nextReplica_mem hR r,hrouted hk,?_⟩
      rw [hnew,List.length_append]
      intro y hy
      rcases List.mem_append.mp hy with hy | hy
      · -- the distance to the next replica has grown by one
        rcases hseen with rfl | rfl
        · obtain ⟨d,hd,hdd,hring⟩ := h.routed hk
          have hdr : d = r := by
            unfold Envelope.admits at hx
            rw [hdd] at hx
            exact beq_iff_eq.mp hx
          obtain ⟨j,hj,hle,he⟩ := hring y hy
          refine ⟨j + 1,Nat.succ_pos j,Nat.succ_le_succ hle,?_⟩
          rw [Function.iterate_succ_apply',he,hdr]
        · cases hy
      · refine ⟨1,Nat.one_pos,Nat.le_add_left 1 _,?_⟩
        rw [List.mem_singleton.mp hy]
        rfl

variable {belongs : MessageId → MessageId → Bool} {tokens : List Envelope} {s s' : Stage β}

theorem placed {guard : Stage β → StageEvent β → Prop} (hstart : Starts cfg tokens)
    (h : Stage.Run cfg belongs tokens guard s) (hx : s.Holds x) : Placed cfg x := by
  refine Stage.Run.token (J := fun _ x => Placed cfg x) ?_ ?_ ?_ h hx
  · exact fun x hx => hstart.placed hx
  · exact fun _ _ _ _ hp => hp
  · intro s r hasMessages x _ hr _ hx hp x' hx'
    exact hp.hop hstart.positive hr hx (callbackEof_hop _ _ hasMessages x.token) hx'

/-- The tokens of a client. -/
def Stage.tokensOf (cfg : Config) (s : Stage β) (c : ClientId) : Multiset Envelope :=
  (s.inFlight cfg).filter fun x => x.token.clientId = c

/-- The counts for a client once `r₀` has taken the equality branch and `seen`
have seen the finish token. -/
structure Called (cfg : Config) (s : Stage β) (c : ClientId) (r₀ : ReplicaId)
    (seen : List ReplicaId) : Prop where
  member : r₀ ∈ cfg.replicas
  completions : ∀ r, completions c (s.replica r) = if r = r₀ then 1 else 0
  callbacks : ∀ r, callbacks c (s.replica r) =
    if cfg.routingKey then if r ∈ seen then 1 else 0 else if r = r₀ then 1 else 0

inductive Life (cfg : Config) (s : Stage β) (c : ClientId) : Prop
  | waiting {x : Envelope} : s.tokensOf cfg c = {x} → x.token.isFinish = false →
      (∀ r, completions c (s.replica r) = 0) → (∀ r, callbacks c (s.replica r) = 0) → Life cfg s c
  | finishing {d : Option ReplicaId} {f : EofFinish} {r₀ : ReplicaId} :
      s.tokensOf cfg c = {⟨d,.finish f⟩} → Called cfg s c r₀ f.replicaIdSeen → Life cfg s c
  | ended {seen : List ReplicaId} {r₀ : ReplicaId} : s.tokensOf cfg c = 0 →
      seen.toFinset = cfg.replicas → Called cfg s c r₀ seen → Life cfg s c

variable {c : ClientId}

/-- Nothing else matters for the life of a token. -/
theorem Life.congr (h : Life cfg s c) (htokens : s'.tokensOf cfg c = s.tokensOf cfg c)
    (hcompletions : ∀ r, Receiver.completions c (s'.replica r) =
      Receiver.completions c (s.replica r))
    (hcallbacks : ∀ r, Receiver.callbacks c (s'.replica r) = Receiver.callbacks c (s.replica r)) :
    Life cfg s' c := by
  have called : ∀ {r₀ seen}, Called cfg s c r₀ seen → Called cfg s' c r₀ seen := by
    intro r₀ seen h
    refine ⟨h.member,?_,?_⟩
    · intro r
      rw [hcompletions]
      exact h.completions r
    · intro r
      rw [hcallbacks]
      exact h.callbacks r
  cases h with
  | waiting hx hf hsync hcall =>
      refine .waiting (htokens.trans hx) hf ?_ ?_
      · intro r
        rw [hcompletions]
        exact hsync r
      · intro r
        rw [hcallbacks]
        exact hcall r
  | finishing hx hcalled => exact .finishing (htokens.trans hx) (called hcalled)
  | ended hx hseen hcalled => exact .ended (htokens.trans hx) hseen (called hcalled)

theorem Life.same (h : Life cfg s c) (hs : s.Same cfg s') : Life cfg s' c := by
  refine h.congr ?_ (hs.completions c) (hs.callbacks c)
  unfold Stage.tokensOf
  rw [hs.inFlight]

theorem mem_inFlight (hx : x ∈ s.queue) : x ∈ s.inFlight cfg :=
  Multiset.mem_add.mpr (Or.inl (Multiset.mem_coe.mpr hx))

theorem clientId_of_emits (hop : Hop cfg rep hasMessages x.token program) {x' : Envelope}
    (hx : x' ∈ emits (some x) program) : x'.token.clientId = x.token.clientId := by
  have heffect : x' ∈ (effect x x.token.clientId program).1 := hx
  have h := hop.effect
  generalize effect x x.token.clientId program = e at h heffect
  cases h with
  | seen _ => rw [Multiset.mem_singleton.mp heffect]
  | passed _ _ hc =>
      rw [Multiset.mem_singleton.mp heffect]
      exact hc
  | completed _ =>
      simp only at heffect
      split_ifs at heffect
      · rw [Multiset.mem_singleton.mp heffect]
        rfl
      · cases heffect
  | @finished f hf _ =>
      simp only at heffect
      split_ifs at heffect
      · rw [Multiset.mem_singleton.mp heffect,hf]
        rfl
      · cases heffect

theorem countP_other (hop : Hop cfg rep hasMessages x.token program) (hc : x.token.clientId ≠ c) :
    program.countP (isCallback c) = 0 ∧ program.countP (isSynchronise c) = 0 := by
  constructor
  · apply List.countP_eq_zero.mpr
    intro a ha hcall
    have hof := hop.ofEof a ha
    cases a <;> simp only [isCallback,beq_iff_eq,Bool.false_eq_true] at hcall
    exact hc (hof.symm.trans hcall)
  · apply List.countP_eq_zero.mpr
    intro a ha hsync
    have hof := hop.ofEof a ha
    cases a <;> simp only [isSynchronise,beq_iff_eq,Bool.false_eq_true] at hsync
    exact hc (hof.symm.trans hsync)

theorem Stage.Took.tokensOf_other (htook : s.Took cfg s' r x program)
    (hop : Hop (cfg.forReplica r) rep hasMessages x.token program)
    (hc : x.token.clientId ≠ c) : s'.tokensOf cfg c = s.tokensOf cfg c := by
  have hin := congrArg (Multiset.filter fun y : Envelope => y.token.clientId = c) htook.inFlight
  have hemits : (emits (some x) program).filter (fun y => y.token.clientId = c) = 0 := by
    apply Multiset.filter_eq_nil.mpr
    intro y hy hyc
    exact hc ((clientId_of_emits hop hy).symm.trans hyc)
  have hx : Multiset.filter (fun y : Envelope => y.token.clientId = c) {x} = 0 :=
    Multiset.filter_eq_nil.mpr fun y hy => Multiset.mem_singleton.mp hy ▸ hc
  rw [Multiset.filter_add,Multiset.filter_add,hemits,hx,add_zero,add_zero] at hin
  exact hin

/-- Tokens of other clients do not matter. -/
theorem Life.other (h : Life cfg s c) (htook : s.Took cfg s' r x program)
    (hop : Hop (cfg.forReplica r) rep hasMessages x.token program)
    (hc : x.token.clientId ≠ c) : Life cfg s' c := by
  obtain ⟨hcall,hsync⟩ := countP_other hop hc
  refine h.congr (htook.tokensOf_other hop hc) ?_ ?_
  · intro r'
    rw [htook.completions,hsync,ite_self,add_zero]
  · intro r'
    rw [htook.callbacks,hcall,ite_self,add_zero]

/-- The tokens of the client whose token was taken. -/
theorem Stage.Took.tokensOf (htook : s.Took cfg s' r x program)
    (hop : Hop (cfg.forReplica r) rep hasMessages x.token program) :
    s'.tokensOf cfg x.token.clientId + {x} =
      s.tokensOf cfg x.token.clientId + emits (some x) program := by
  have hin := congrArg (Multiset.filter fun y : Envelope => y.token.clientId = x.token.clientId)
    htook.inFlight
  have hemits : (emits (some x) program).filter
      (fun y => y.token.clientId = x.token.clientId) = emits (some x) program :=
    Multiset.filter_eq_self.mpr fun y hy => clientId_of_emits hop hy
  have hx : Multiset.filter (fun y : Envelope => y.token.clientId = x.token.clientId) {x} = {x} :=
    Multiset.filter_eq_self.mpr fun y hy => by rw [Multiset.mem_singleton.mp hy]
  rw [Multiset.filter_add,Multiset.filter_add,hemits,hx] at hin
  exact hin

theorem Stage.Took.mem_tokensOf (htook : s.Took cfg s' r x program) :
    x ∈ s.tokensOf cfg x.token.clientId :=
  Multiset.mem_filter.mpr ⟨mem_inFlight htook.queued,rfl⟩

/-- The token of a client, when the client's own token is taken. -/
theorem Stage.Took.only {y : Envelope} (htook : s.Took cfg s' r x program)
    (hc : x.token.clientId = c) (hy : s.tokensOf cfg c = {y}) : x = y := by
  have hx := htook.mem_tokensOf
  rw [hc,hy] at hx
  exact Multiset.mem_singleton.mp hx

section
variable (htook : s.Took cfg s' r x program)
variable (hop : Hop (cfg.forReplica r) rep hasMessages x.token program)
include htook hop

/-- What is counted for the client of the token, after its hop. -/
theorem Stage.Took.effect (hx : s.tokensOf cfg x.token.clientId = {x}) :
    ∃ e, Effect (cfg.forReplica r) x e ∧ s'.tokensOf cfg x.token.clientId = e.1 ∧
      (∀ r', Receiver.callbacks x.token.clientId (s'.replica r') =
        Receiver.callbacks x.token.clientId (s.replica r') + if r' = r then e.2.1 else 0) ∧
      ∀ r', Receiver.completions x.token.clientId (s'.replica r') =
        Receiver.completions x.token.clientId (s.replica r') + if r' = r then e.2.2 else 0 := by
  refine ⟨_,hop.effect,?_,htook.callbacks _,htook.completions _⟩
  have htokens := htook.tokensOf hop
  rw [hx,add_comm] at htokens
  exact add_left_cancel htokens

/-- A round that goes on, or ends in the equality branch. -/
theorem Life.of_waiting (hx : s.tokensOf cfg x.token.clientId = {x})
    (hf : x.token.isFinish = false) (hsync : ∀ r, completions x.token.clientId (s.replica r) = 0)
    (hcall : ∀ r, callbacks x.token.clientId (s.replica r) = 0) :
    Life cfg s' x.token.clientId := by
  obtain ⟨e,heffect,htokens,hcallbacks,hcompletions⟩ := htook.effect hop hx
  simp only [hsync,hcall,Nat.zero_add] at hcompletions hcallbacks
  cases heffect with
  | seen _ =>
      refine .waiting htokens hf ?_ ?_
      · intro r'
        rw [hcompletions,ite_self]
      · intro r'
        rw [hcallbacks,ite_self]
  | passed _ ht hc =>
      refine .waiting htokens ht ?_ ?_
      · intro r'
        rw [hcompletions,ite_self]
      · intro r'
        rw [hcallbacks,ite_self]
  | completed _ =>
      have hcalled : Called cfg s' x.token.clientId r [r] := by
        refine ⟨htook.member,hcompletions,?_⟩
        intro r'
        rw [hcallbacks]
        simp only [List.mem_singleton,ite_self]
      simp only at htokens
      split_ifs at htokens with hlt
      · exact .finishing htokens hcalled
      · have hone : Seen cfg [r] := Seen.append ⟨List.nodup_nil,nofun⟩ List.not_mem_nil htook.member
        exact .ended htokens (hone.full (Nat.le_of_not_lt hlt)) hcalled
  | finished ht _ =>
      rw [ht] at hf
      cases hf

/-- The finish token calls back on a ring, and is seen by one replica more. -/
theorem Life.of_finishing (hplaced : Placed cfg x) {f : EofFinish} {r₀ : ReplicaId}
    (ht : x.token = .finish f)
    (hx : s.tokensOf cfg x.token.clientId = {x})
    (hcalled : Called cfg s x.token.clientId r₀ f.replicaIdSeen) :
    Life cfg s' x.token.clientId := by
  obtain ⟨e,heffect,htokens,hcallbacks,hcompletions⟩ := htook.effect hop hx
  simp only [hcalled.completions] at hcompletions
  simp only [hcalled.callbacks] at hcallbacks
  cases heffect with
  | seen _ =>
      have hsame : Called cfg s' x.token.clientId r₀ f.replicaIdSeen := by
        refine ⟨hcalled.member,?_,?_⟩
        · intro r'
          rw [hcompletions,ite_self,add_zero]
        · intro r'
          rw [hcallbacks,ite_self,add_zero]
      have hfinish : ({x} : Multiset Envelope) = {⟨x.destination,.finish f⟩} := by rw [← ht]
      exact .finishing (htokens.trans hfinish) hsame
  | passed hf _ _ =>
      rw [ht] at hf
      cases hf
  | completed hf =>
      rw [ht] at hf
      cases hf
  | @finished f' ht' hr =>
      cases ht.symm.trans ht'
      have hnext : Called cfg s' x.token.clientId r₀ (f.replicaIdSeen ++ [r]) := by
        refine ⟨hcalled.member,?_,?_⟩
        · intro r'
          rw [hcompletions,ite_self,add_zero]
        · intro r'
          rw [hcallbacks]
          by_cases hk : cfg.routingKey = true
          · have hk' : (cfg.forReplica r).routingKey = true := hk
            by_cases hrr : r' = r
            · subst hrr
              simp [hk,hk',show r' ∉ f.replicaIdSeen from hr]
            · simp [hk,hrr]
          · have hk' : (cfg.forReplica r).routingKey ≠ true := hk
            simp [hk,hk']
      simp only at htokens
      split_ifs at htokens with hlt
      · exact .finishing htokens hnext
      · have hseen : Seen cfg f.replicaIdSeen := by
          have hs := hplaced.seen
          rw [ht] at hs
          exact hs
        refine .ended htokens ((hseen.append hr htook.member).full ?_) hnext
        rw [List.length_append]
        exact Nat.le_of_not_lt hlt

theorem Life.took (hplaced : Placed cfg x) (h : Life cfg s c) : Life cfg s' c := by
  by_cases hc : x.token.clientId = c
  · subst hc
    cases h with
    | waiting hy hf hsync hcall =>
        cases htook.only rfl hy
        exact .of_waiting htook hop hy hf hsync hcall
    | finishing hy hcalled =>
        cases htook.only rfl hy
        exact .of_finishing htook hop hplaced rfl hy hcalled
    | ended hy _ _ =>
        have hx := htook.mem_tokensOf
        rw [hy] at hx
        cases hx
  · exact h.other htook hop hc

end

variable {tokens : List Envelope}

theorem filter_of_nodup_map {A B : Type} [DecidableEq B] {F : A → B} {as : List A} {a : A}
    (h : (as.map F).Nodup) (ha : a ∈ as) : as.filter (fun b => F b = F a) = [a] := by
  induction as with
  | nil => cases ha
  | cons b bs ih =>
      obtain ⟨hb,hbs⟩ := List.nodup_cons.mp h
      rcases List.mem_cons.mp ha with rfl | ha
      · rw [List.filter_cons_of_pos (by simp),List.filter_eq_nil_iff.mpr ?_]
        intro d hd he
        have he : F d = F a := of_decide_eq_true he
        exact hb (he ▸ List.mem_map_of_mem hd)
      · have hne : F b ≠ F a := fun he => hb (he ▸ List.mem_map_of_mem ha)
        rw [List.filter_cons_of_neg (by simpa using hne)]
        exact ih hbs ha

theorem Starts.tokensOf (h : Starts cfg tokens) (hx : x ∈ tokens) :
    (Stage.initial (β := β) cfg tokens).tokensOf cfg x.token.clientId = {x} := by
  have hflight : (Stage.initial (β := β) cfg tokens).inFlight cfg = tokens := by
    unfold Stage.inFlight Stage.initial
    simp only [Interruptible.Config.idle,emits,sum_const_zero,add_zero]
  unfold Stage.tokensOf
  rw [hflight,Multiset.filter_coe,filter_of_nodup_map h.once hx]
  rfl

theorem Starts.life (h : Starts cfg tokens) (hx : x ∈ tokens) :
    Life cfg (Stage.initial (β := β) cfg tokens) x.token.clientId := by
  obtain ⟨t,ht⟩ := h.eof x hx
  refine .waiting (h.tokensOf hx) ?_ (fun _ => rfl) (fun _ => rfl)
  rw [ht]
  rfl

theorem life (hstart : Starts cfg tokens) (h : Stage.Run cfg belongs tokens CrashFree s)
    (hx : x ∈ tokens) : Life cfg s x.token.clientId := by
  induction h with
  | init => exact hstart.life hx
  | step h he hs ih =>
      obtain ⟨-,hsame | ⟨r,hasMessages,y,htook⟩⟩ := step_flow he (allAttended h) hs
      · exact ih.same hsame
      · exact ih.took htook (callbackEof_hop _ _ hasMessages y.token)
          (placed hstart h (Or.inl htook.queued))

end FlightsOptimizer.Receiver
