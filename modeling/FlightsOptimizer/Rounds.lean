import Mathlib.Algebra.BigOperators.Ring.Finset
import Mathlib.Data.Int.Cast.Lemmas
import FlightsOptimizer.Duplicates
import FlightsOptimizer.Ledger
import FlightsOptimizer.Stage

/-!
# What a token knows of its stage

On a queue with a stateless deterministic processor, the counters that a
discovery carries are those of one collection of ids for each replica it has
seen, and the ids that an aggregation carries outnumber, replica by replica, the
members of these collections that it searches for. Replicas go on processing,
crash and restart while the token travels; the collections stay within their
logs, because logs only grow.

When a round ends in the equality branch, its collections and its list of
processed duplicates are what `Accounting` asks for.
-/
namespace FlightsOptimizer.Receiver
open Logger LogGrammar Eof Interruptible Accounting Finset

variable {β : Type}

section
variable (published : List (ClientId × MessageId)) (processor : ClientId → MessageId → Handling)

/-- Tags number the published messages. A delivery brings one of them, marked as
redelivered unless it is its first, and the processor answers it as always. -/
def Promised (s : Stage β) : StageEvent β → Prop
  | .data _ d h => published[d.tag]? = some (d.clientId,d.messageId) ∧
      h = processor d.clientId d.messageId ∧
      (d.redelivered = false → ∀ d' ∈ s.delivered, d'.tag ≠ d.tag)
  | _ => True

def PublishedOnce (c : ClientId) (i : MessageId) : Prop :=
  ∀ t t' : ℕ, published[t]? = some (c,i) → published[t']? = some (c,i) → t = t'

/-- The distinct ids that the upstream stage produced for a client. -/
def publishedIds (c : ClientId) : Finset MessageId :=
  (published.filterMap fun p => if p.1 = c then some p.2 else none).toFinset

theorem mem_publishedIds {c : ClientId} {i : MessageId} :
    i ∈ publishedIds published c ↔ (c,i) ∈ published := by
  unfold publishedIds
  simp only [List.mem_toFinset,List.mem_filterMap,Option.ite_none_right_eq_some,Option.some.injEq]
  constructor
  · rintro ⟨⟨a,b⟩,hp,rfl,rfl⟩
    exact hp
  · intro h
    exact ⟨(c,i),h,rfl,rfl⟩

/-- The deliveries of a stage, against those that its replicas saw. -/
structure Delivers (cfg : Config) (s : Stage β) : Prop where
  total : ∀ c i, ∑ r ∈ cfg.replicas, (s.replica r).state.history.fresh c i =
    s.delivered.countP (freshOf c i)
  known : ∀ r, ∀ d ∈ (s.replica r).state.history.delivered, d ∈ s.delivered
  published : ∀ d ∈ s.delivered, published[d.tag]? = some (d.clientId,d.messageId)
  tags : ((s.delivered.filter fun d => !d.redelivered).map Delivery.tag).Nodup

end

/-- The deliveries that an event brings. -/
def deliveries : Event (Work β) → List (Delivery β)
  | .begin (.data d _) => [d]
  | _ => []

theorem delivered_exec (a : Action β) (r : Replica β) :
    (exec a r).history.delivered = r.history.delivered := by
  cases a <;> rfl

variable {cfg : Config} {belongs : MessageId → MessageId → Bool}
variable {published : List (ClientId × MessageId)} {processor : ClientId → MessageId → Handling}

theorem delivered_step {k k' : Interruptible.Config (Replica β) (Action β)}
    {ev : Event (Work β)} (h : (process cfg belongs).step k ev = some k') :
    k'.state.history.delivered = deliveries ev ++ k.state.history.delivered := by
  rcases state_of_step h with ⟨d,h,rfl,hs⟩ | ⟨t,hasMessages,rfl,hs⟩ | ⟨a,-,rfl,hs⟩ | ⟨rfl,ht⟩
  · rw [hs]
    rfl
  · rw [hs]
    rfl
  · rw [hs]
    exact delivered_exec a k.state
  · rw [recover_history ht]
    rfl

theorem delivered_broker {s : Stage β} {e : StageEvent β} {ev : Event (Work β)}
    (h : s.event e = some ev) : (s.broker e).delivered = deliveries ev ++ s.delivered := by
  cases e with
  | data r d h' =>
      cases h
      rfl
  | eof r i hasMessages =>
      obtain ⟨x,_,_,rfl⟩ := Stage.event_eof h
      rfl
  | tick r =>
      cases h
      simp only [Stage.broker]
      cases (s.replica r).pending.head? with
      | none => rfl
      | some a => cases a <;> rfl
  | crash r =>
      cases h
      rfl

variable {tokens : List Envelope} {s : Stage β}

theorem deliversAll (h : Stage.Run cfg belongs tokens (Promised published processor) s) :
    Delivers published cfg s := by
  induction h with
  | init =>
      refine ⟨fun c i => sum_eq_zero fun _ _ => rfl,?_,?_,List.nodup_nil⟩
      · intro r d hd
        cases hd
      · intro d hd
        cases hd
  | @step s s' e _ hg hs ih =>
      obtain ⟨hr,ev,k,hev,hk,rfl⟩ := Stage.step_cases hs
      have hdel := delivered_step hk
      have hbroker := delivered_broker hev
      have hnew : ∀ d ∈ deliveries ev, published[d.tag]? = some (d.clientId,d.messageId) ∧
          (d.redelivered = false → ∀ d' ∈ s.delivered, d'.tag ≠ d.tag) := by
        intro d hd
        cases e with
        | data r d' h' =>
            cases hev
            rw [List.mem_singleton.mp hd]
            exact ⟨hg.1,hg.2.2⟩
        | eof r i hasMessages =>
            obtain ⟨x,_,_,rfl⟩ := Stage.event_eof hev
            cases hd
        | tick r =>
            cases hev
            cases hd
        | crash r =>
            cases hev
            cases hd
      refine ⟨?_,?_,?_,?_⟩
      · intro c i
        have hsum := Stage.sum_change
          (F := fun x => (s.replica x).state.history.fresh c i)
          (G := fun x => (Function.update s.replica e.replica k x).state.history.fresh c i) hr
          fun x hx => by simp only [Function.update_of_ne hx]
        have hfresh : k.state.history.fresh c i = (deliveries ev).countP (freshOf c i) +
            (s.replica e.replica).state.history.fresh c i := by
          unfold History.fresh
          rw [hdel,List.countP_append]
        rw [ih.total,Function.update_self] at hsum
        simp only [hbroker,List.countP_append]
        omega
      · intro r d hd
        simp only [hbroker,List.mem_append]
        by_cases her : r = e.replica
        · subst her
          simp only [Function.update_self,hdel,List.mem_append] at hd
          exact hd.imp_right (ih.known _ d)
        · simp only [Function.update_of_ne her] at hd
          exact Or.inr (ih.known r d hd)
      · intro d hd
        simp only [hbroker,List.mem_append] at hd
        rcases hd with hd | hd
        · exact (hnew d hd).1
        · exact ih.published d hd
      · simp only [hbroker,List.filter_append,List.map_append]
        rcases hde : deliveries ev with _ | ⟨d,ds⟩
        · exact ih.tags
        · have hone : ds = [] := by
            unfold deliveries at hde
            split at hde <;> cases hde
            rfl
          subst hone
          cases hred : d.redelivered with
          | true => simpa [hred] using ih.tags
          | false =>
              have hfresh := (hnew d (hde ▸ List.mem_singleton_self d)).2 hred
              simp only [List.filter_cons,hred,Bool.not_false,if_true,List.filter_nil,List.map_cons,
                List.map_nil,List.singleton_append,List.nodup_cons]
              refine ⟨?_,ih.tags⟩
              intro hm
              obtain ⟨d',hd',he⟩ := List.mem_map.mp hm
              exact hfresh d' (List.mem_filter.mp hd').1 he

/-- All deliveries of an id but one are marked, if it was published once. -/
theorem Delivers.fresh_le_one (h : Delivers published cfg s) {c : ClientId} {i : MessageId}
    (hi : PublishedOnce published c i) :
    ∑ r ∈ cfg.replicas, (s.replica r).state.history.fresh c i ≤ 1 := by
  rw [h.total,List.countP_eq_length_filter]
  have hsub : (s.delivered.filter (freshOf c i)).Sublist
      (s.delivered.filter fun d => !d.redelivered) := by
    apply List.monotone_filter_right
    intro d hd
    simp only [freshOf,Bool.and_eq_true] at hd
    exact hd.2
  have htags : ((s.delivered.filter (freshOf c i)).map Delivery.tag).Nodup :=
    h.tags.sublist (hsub.map _)
  have hsame : ∀ d ∈ s.delivered.filter (freshOf c i), published[d.tag]? = some (c,i) := by
    intro d hd
    obtain ⟨hd,hf⟩ := List.mem_filter.mp hd
    simp only [freshOf,Bool.and_eq_true,beq_iff_eq] at hf
    rw [h.published d hd,hf.1.1,hf.1.2]
  rcases hl : s.delivered.filter (freshOf c i) with _ | ⟨d,_ | ⟨d',ds⟩⟩
  · exact Nat.zero_le 1
  · exact Nat.le_refl 1
  · rw [hl] at htags hsame
    have he : d.tag = d'.tag := hi _ _ (hsame d List.mem_cons_self)
      (hsame d' (List.mem_cons_of_mem d List.mem_cons_self))
    simp only [List.map_cons,List.nodup_cons] at htags
    exact absurd (he ▸ List.mem_cons_self) htags.1

/-- No replica took the branch that ends a round of `c`. -/
def Stage.Unfinished (s : Stage β) (c : ClientId) : Prop :=
  ∀ r, ¬(s.replica r).state.history.Completed c

/-- Three sums over the replicas in `A`, and the collections that they count. -/
structure Sample (cfg : Config) (processor : ClientId → MessageId → Handling) (s : Stage β)
    (c : ClientId) (A : Finset ReplicaId) (received : ℕ) (sent : ℤ)
    (duplicates : List MessageId) (K : ReplicaId → Multiset MessageId) : Prop where
  saved : ∀ r ∈ A, K r ≤ (savedIds c (s.replica r).state.log : Multiset MessageId)
  received : ∑ r ∈ A, (K r).card = received
  sent : cfg.hasSender = true → s.Unfinished c →
    sent = ∑ r ∈ A, ((K r).map (sendsOf processor c)).sum
  fresh : ∀ i, i ∉ duplicates → ∀ r ∈ A, (K r).count i ≤ (s.replica r).state.history.fresh c i

theorem sample_empty (s : Stage β) (c : ClientId) : Sample cfg processor s c ∅ 0 0 [] 0 := by
  refine ⟨?_,rfl,fun _ _ => rfl,?_⟩
  · intro r hr
    exact absurd hr (notMem_empty r)
  · intro i _ r hr
    exact absurd hr (notMem_empty r)

/-- One more replica adds its counters. -/
theorem Sample.insert {c : ClientId} {A : Finset ReplicaId} {received n : ℕ} {sent m : ℤ}
    {ds es : List MessageId} {K : ReplicaId → Multiset MessageId} {r : ReplicaId}
    {L : Multiset MessageId} (h : Sample cfg processor s c A received sent ds K) (hr : r ∉ A)
    (hL : Account (cfg.forReplica r) processor (s.replica r).state.history
      (s.replica r).state.log c n m es L) :
    Sample cfg processor s c (insert r A) (received + n) (sent + m) (ds ++ es)
      (Function.update K r L) := by
  have hold : ∀ x ∈ A, Function.update K r L x = K x := by
    intro x hx
    have hne : x ≠ r := fun he => hr (he ▸ hx)
    exact Function.update_of_ne hne L K
  refine ⟨?_,?_,?_,?_⟩
  · intro x hx
    rcases mem_insert.mp hx with rfl | hx
    · rw [Function.update_self]
      exact hL.saved
    · rw [hold x hx]
      exact h.saved x hx
  · rw [sum_insert hr,Function.update_self,hL.card,
      sum_congr rfl fun x hx => congrArg Multiset.card (hold x hx),h.received,add_comm]
  · intro hs hu
    rw [sum_insert hr,Function.update_self,h.sent hs hu,hL.sent hs (hu r),add_comm]
    congr 1
    apply sum_congr rfl
    intro x hx
    rw [hold x hx]
  · intro i hi x hx
    rcases mem_insert.mp hx with rfl | hx
    · rw [Function.update_self]
      exact hL.fresh i fun hm => hi (List.mem_append_right _ hm)
    · rw [hold x hx]
      exact h.fresh i (fun hm => hi (List.mem_append_left _ hm)) x hx

theorem Sample.mono {s' : Stage β} {c : ClientId} {A : Finset ReplicaId} {received : ℕ} {sent : ℤ}
    {ds : List MessageId} {K : ReplicaId → Multiset MessageId}
    (h : Sample cfg processor s c A received sent ds K)
    (hg : ∀ r, Stage.Grows (s.replica r).state (s'.replica r).state) :
    Sample cfg processor s' c A received sent ds K := by
  refine ⟨?_,h.received,?_,?_⟩
  · intro r hr
    exact (h.saved r hr).trans (savedIds_sublist (hg r).log c).subperm
  · intro hs hu
    apply h.sent hs
    rintro r ⟨n,hn⟩
    exact hu r ⟨n,(hg r).completed.subset hn⟩
  · intro i hi r hr
    exact (h.fresh i hi r hr).trans ((hg r).delivered.sublist.countP_le)

/-- The ids that the replicas in `A` found in their logs, against the collections. -/
structure Found (s : Stage β) (c : ClientId) (A : Finset ReplicaId) (searched : List MessageId)
    (K : ReplicaId → Multiset MessageId) (ids : List MessageId) : Prop where
  listed : ∀ i ∈ searched, ∑ r ∈ A, (K r).count i ≤ ids.count i
  saved : ∀ i ∈ ids, ∃ r, i ∈ savedIds c (s.replica r).state.log

theorem Found.mono {s' : Stage β} {c : ClientId} {A : Finset ReplicaId}
    {searched ids : List MessageId} {K : ReplicaId → Multiset MessageId}
    (h : Found s c A searched K ids)
    (hg : ∀ r, Stage.Grows (s.replica r).state (s'.replica r).state) :
    Found s' c A searched K ids := by
  refine ⟨h.listed,?_⟩
  intro i hi
  obtain ⟨r,hr⟩ := h.saved i hi
  exact ⟨r,(savedIds_sublist (hg r).log c).subset hr⟩

/-- On a log whose marks are the processor's, a search is a filter of the saved ids. -/
theorem search_eq_stamp {l : List Line} (hg : Grammar True l)
    (hm : ∀ e ∈ records l, e.2.sent = sentMark processor e.1 e.2.messageId) (c : ClientId)
    (ids : List MessageId) : search c ids none l =
      ((savedIds c l).filter fun i => i ∈ ids).map (stamp (sentMark processor c)) := by
  rw [search_eq hg,savedIds_eq_records]
  generalize records l = es at hm
  induction es with
  | nil => rfl
  | cons e es ih =>
      have he := hm e List.mem_cons_self
      have hes := ih fun x hx => hm x (List.mem_cons_of_mem e hx)
      rw [List.filterMap_cons,List.filterMap_cons,hes]
      by_cases hc : e.1 = c
      · by_cases hi : e.2.messageId ∈ ids
        · have hstamp : stamp (sentMark processor c) e.2.messageId = e.2 := by
            unfold stamp
            rw [← hc,← he]
          simp only [hc,hi,and_self,if_true,List.filter_cons,decide_true,List.map_cons,hstamp]
        · simp [hc,hi]
      · simp [hc]

/-- Different replicas of the stage. -/
structure Seen (cfg : Config) (seen : List ReplicaId) : Prop where
  nodup : seen.Nodup
  members : ∀ r ∈ seen, r ∈ cfg.replicas

theorem Seen.append {seen : List ReplicaId} {r : ReplicaId} (h : Seen cfg seen) (hr : r ∉ seen)
    (hm : r ∈ cfg.replicas) : Seen cfg (seen ++ [r]) := by
  constructor
  · rw [List.nodup_append]
    refine ⟨h.nodup,List.nodup_singleton r,?_⟩
    intro x hx y hy he
    rw [List.mem_singleton.mp hy] at he
    exact hr (he ▸ hx)
  · intro x hx
    rcases List.mem_append.mp hx with hx | hx
    · exact h.members x hx
    · exact List.mem_singleton.mp hx ▸ hm

/-- A full list has seen every replica. -/
theorem Seen.full {seen : List ReplicaId} (h : Seen cfg seen)
    (hf : cfg.replicasCount ≤ seen.length) : seen.toFinset = cfg.replicas := by
  apply eq_of_subset_of_card_le
  · intro r hr
    exact h.members r (List.mem_toFinset.mp hr)
  · rw [List.toFinset_card_of_nodup h.nodup,Config.replicas,Nat.card_Icc]
    omega

theorem toFinset_append_singleton (seen : List ReplicaId) (r : ReplicaId) :
    (seen ++ [r]).toFinset = insert r seen.toFinset := by
  ext x
  simp only [List.mem_toFinset,List.mem_append,List.mem_singleton,mem_insert]
  exact or_comm

section
variable (cfg : Config) (processor : ClientId → MessageId → Handling)
variable (c : ClientId) (N : ℤ) (D : List MessageId) (s : Stage β)

structure Discovering (t : EofDiscovery) : Prop where
  origin : t.originalMessagesSent = N ∧ t.originalPossibleDuplicates = D
  seen : Seen cfg t.replicaIdSeen
  sample : ∃ K, Sample cfg processor s t.clientId t.replicaIdSeen.toFinset t.messagesReceived
    t.messagesSent t.possibleDuplicates K

structure Aggregating (t : EofAggregation) : Prop where
  origin : t.originalMessagesSent = N ∧ t.originalPossibleDuplicates = D
  seen : Seen cfg t.replicaIdSeen
  sample : ∃ K ids, Sample cfg processor s t.clientId cfg.replicas t.messagesReceived
      t.messagesSent t.possibleDuplicates K ∧
    t.possibleDuplicatesProcessedBy = ids.map (stamp (sentMark processor t.clientId)) ∧
    Found s t.clientId t.replicaIdSeen.toFinset t.searched K ids

/-- What every token of client `c` guarantees, when the upstream stage announced
`N` messages and the duplicates `D`. -/
def Justified : Token → Prop
  | .eof t => t.clientId = c → t.messagesSent = N ∧ t.possibleDuplicates = D
  | .discovery t => t.clientId = c → Discovering cfg processor N D s t
  | .aggregation t => t.clientId = c → Aggregating cfg processor N D s t
  | .finish _ => True

end

variable {c : ClientId} {N : ℤ} {D : List MessageId}

theorem Justified.mono {s' : Stage β} {t : Token} (h : Justified cfg processor c N D s t)
    (hg : ∀ r, Stage.Grows (s.replica r).state (s'.replica r).state) :
    Justified cfg processor c N D s' t := by
  cases t with
  | eof t => exact h
  | finish t => exact h
  | discovery t =>
      intro hc
      obtain ⟨ho,hs,K,hK⟩ := h hc
      exact ⟨ho,hs,K,hK.mono hg⟩
  | aggregation t =>
      intro hc
      obtain ⟨ho,hs,K,ids,hK,hids,hf⟩ := h hc
      exact ⟨ho,hs,K,ids,hK.mono hg,hids,hf.mono hg⟩

theorem Justified.asDiscovery {t : Token} {d : EofDiscovery}
    (h : Justified cfg processor c N D s t) (hd : t.asDiscovery = some d) (hc : d.clientId = c) :
    Discovering cfg processor N D s d := by
  cases t with
  | eof t =>
      cases hd
      exact ⟨h hc,⟨List.nodup_nil,fun _ hr => by cases hr⟩,0,sample_empty s t.clientId⟩
  | discovery t =>
      cases hd
      exact h hc
  | aggregation t => cases hd
  | finish t => cases hd

section
variable {r : ReplicaId}

theorem Discovering.discovered {d : EofDiscovery} (h : Discovering cfg processor N D s d)
    (hm : r ∈ cfg.replicas) (hr : r ∉ d.replicaIdSeen)
    (hb : Balanced (cfg.forReplica r) processor (s.replica r).state) :
    Discovering cfg processor N D s (discovered (cfg.forReplica r) (s.replica r).state d) := by
  obtain ⟨ho,hs,K,hK⟩ := h
  obtain ⟨L,hL⟩ := hb.accounts d.clientId
  refine ⟨ho,hs.append hr hm,Function.update K r L,?_⟩
  have hsample := hK.insert (fun hx => hr (List.mem_toFinset.mp hx)) hL
  rw [← toFinset_append_singleton] at hsample
  exact hsample

theorem Discovering.toAggregation {d : EofDiscovery} (h : Discovering cfg processor N D s d)
    (hf : cfg.replicasCount ≤ d.replicaIdSeen.length) :
    Aggregating cfg processor N D s d.toAggregation := by
  obtain ⟨ho,hs,K,hK⟩ := h
  refine ⟨ho,⟨List.nodup_nil,fun _ hr => by cases hr⟩,K,[],?_,rfl,?_,?_⟩
  · rw [hs.full hf] at hK
    exact hK
  · intro i _
    exact Nat.zero_le _
  · intro i hi
    cases hi

/-- The searching replica adds every record that a collection of its own has. -/
theorem Aggregating.aggregated {a : EofAggregation} (h : Aggregating cfg processor N D s a)
    (hd : cfg.useDuplicateCatcher = false) (hm : r ∈ cfg.replicas) (hr : r ∉ a.replicaIdSeen)
    (hb : Sound (cfg.forReplica r) processor (s.replica r).state.history (s.replica r).state.log) :
    Aggregating cfg processor N D s (aggregated (cfg.forReplica r) (s.replica r).state a) := by
  obtain ⟨ho,hseen,K,ids,hK,hids,hlisted,hsaved⟩ := h
  have hprocessed : (Receiver.aggregated (cfg.forReplica r) (s.replica r).state
      a).possibleDuplicatesProcessedBy = a.possibleDuplicatesProcessedBy ++
        searchProcessed a.clientId a.searched (s.replica r).state.files := by
    have hc : (cfg.forReplica r).useDuplicateCatcher = false := hd
    simp only [updateAggregationEof,hc,Bool.false_eq_true,if_false]
  have hsearch := search_eq_stamp hb.grammar hb.marks a.clientId a.searched
  refine ⟨ho,hseen.append hr hm,K,
    ids ++ (savedIds a.clientId (s.replica r).state.log).filter fun i => i ∈ a.searched,
    hK,?_,?_,?_⟩
  · rw [hprocessed,hids,searchProcessed,hsearch,List.map_append]
    rfl
  · intro i hi
    have hi' : i ∈ a.searched := hi
    have hle : (K r).count i ≤ (savedIds a.clientId (s.replica r).state.log).count i := by
      rw [← Multiset.coe_count]
      exact Multiset.count_le_of_le i (hK.saved r hm)
    have hcount : ((savedIds a.clientId (s.replica r).state.log).filter
        fun i => i ∈ a.searched).count i = (savedIds a.clientId (s.replica r).state.log).count i :=
      List.count_filter (decide_eq_true hi')
    have hA : (Receiver.aggregated (cfg.forReplica r) (s.replica r).state a).replicaIdSeen.toFinset =
        insert r a.replicaIdSeen.toFinset := toFinset_append_singleton a.replicaIdSeen r
    have hold := hlisted i hi
    rw [hA,sum_insert (fun hx => hr (List.mem_toFinset.mp hx)),List.count_append,hcount]
    omega
  · intro i hi
    rcases List.mem_append.mp hi with hi | hi
    · exact hsaved i hi
    · exact ⟨r,(List.mem_filter.mp hi).1⟩

end

section
variable {tokens : List Envelope}

/-- Every replica of such a stage keeps its books. -/
theorem ledger (hq : cfg.routingKey = false) (hd : cfg.useDuplicateCatcher = false)
    (h : Stage.Run cfg belongs tokens (Promised published processor) s) (r : ReplicaId) :
    Sound (cfg.forReplica r) processor (s.replica r).state.history (s.replica r).state.log ∧
      ((s.replica r).pending = [] →
        Balanced (cfg.forReplica r) processor (s.replica r).state) := by
  have hrun : (process (cfg.forReplica r) belongs).Run (Deterministic processor) (s.replica r) := by
    apply Stage.Run.replica _ h r
    intro s e ev hg hev
    cases e with
    | data r d h =>
        cases hev
        exact hg.2.1
    | eof r i hasMessages =>
        obtain ⟨x,_,_,rfl⟩ := Stage.event_eof hev
        trivial
    | tick r =>
        cases hev
        trivial
    | crash r =>
        cases hev
        trivial
  have hp : (process (β := β) (cfg.forReplica r) belongs).Survives (Deterministic processor)
      (Balanced (cfg.forReplica r) processor) fun t =>
        Sound (cfg.forReplica r) processor t.history t.log := ledger_survives hq hd
  exact ⟨hrun.kept hp,hrun.idle hp⟩

theorem Aggregates.justified {r : ReplicaId} (hm : r ∈ cfg.replicas)
    (hb : Balanced (cfg.forReplica r) processor (s.replica r).state) {t : Token}
    {a : EofAggregation} {before : List (Action β)}
    (h : Aggregates (cfg.forReplica r) (s.replica r).state t a before)
    (ht : Justified cfg processor c N D s t) (hc : a.clientId = c) :
    Aggregating cfg processor N D s a := by
  cases h with
  | aggregation a => exact ht hc
  | discovered hd hr hf => exact ((ht.asDiscovery hd hc).discovered hm hr hb).toAggregation hf

theorem justified (hq : cfg.routingKey = false) (hd : cfg.useDuplicateCatcher = false)
    (htokens : ∀ e ∈ tokens, e.token.clientId = c → e.token = .eof ⟨c,N,D⟩)
    (h : Stage.Run cfg belongs tokens (Promised published processor) s) {x : Envelope}
    (hx : s.Holds x) : Justified cfg processor c N D s x.token := by
  refine Stage.Run.token (J := fun s x => Justified cfg processor c N D s x.token) ?_ ?_ ?_ h hx
  · intro e he
    have hc := htokens e he
    cases htoken : e.token with
    | eof t =>
        intro ht
        rw [htoken] at hc
        cases hc ht
        exact ⟨rfl,rfl⟩
    | discovery t =>
        intro ht
        rw [htoken] at hc
        cases hc ht
    | aggregation t =>
        intro ht
        rw [htoken] at hc
        cases hc ht
    | finish t => trivial
  · intro s s' e _ _ hs x ht
    exact ht.mono fun r => Stage.grows hs r
  · intro s r hasMessages x h hm hp _ ht x' hmem
    have hb := (ledger hq hd h r).2 hp
    obtain ⟨-,⟨d,hdisc,hr,-,he⟩ | ⟨a,before,ha,hr,⟨-,he⟩ | he⟩ | ⟨f,-,-,-,he⟩⟩ :=
      (callbackEof_hop _ _ hasMessages x.token).of_requeue hmem <;> rw [he]
    · intro hc
      exact (ht.asDiscovery hdisc hc).discovered hm hr hb
    · intro hc
      exact (ha.justified hm hb ht hc).aggregated hd hm hr hb.sound
    · intro hc
      exact (ha.justified hm hb ht hc).origin
    · trivial

/-- A round that ends in the equality branch, seen from outside: `K` is what the
replicas counted, `ids` what they found. -/
structure RoundEnd (cfg : Config) (processor : ClientId → MessageId → Handling) (s : Stage β)
    (c : ClientId) (T : Finset MessageId) (t : EofAggregation) (ids : List MessageId)
    (K : Multiset MessageId) : Prop where
  processedBy : t.possibleDuplicatesProcessedBy = ids.map (stamp (sentMark processor c))
  lists : Lists K (ids : Multiset MessageId) (· ∈ t.searched)
  counted : ∀ i ∈ K, i ∈ T
  found : ∀ i ∈ (ids : Multiset MessageId), i ∈ T
  balance : K.card = T.card + surplus (ids : Multiset MessageId)
  saved : ∀ i ∈ K, ∃ r ∈ cfg.replicas, i ∈ savedIds c (s.replica r).state.log
  sent : cfg.hasSender = true → s.Unfinished c → t.messagesSent = (K.map (sendsOf processor c)).sum

theorem sentMark_eq (processor : ClientId → MessageId → Handling) (c : ClientId) (i : MessageId) :
    sentMark processor c i = decide (0 < sendsOf processor c i) := by
  unfold sentMark sendsOf
  apply decide_eq_decide.mpr
  rcases processor c i with _ | ⟨_ | k,b⟩ | k <;>
    simp only [Handling.records,Handling.sends,Nat.cast_zero,lt_self_iff_false] <;>
    omega

/-- The count that goes downstream: each surplus record takes away what the
multiplier says, and brought in what its message had sent. -/
theorem RoundEnd.real_sent {T : Finset MessageId} {t : EofAggregation} {ids : List MessageId}
    {K : Multiset MessageId} (h : RoundEnd cfg processor s c T t ids K)
    (hs : cfg.hasSender = true) (hu : s.Unfinished c) :
    t.realMessagesSent cfg = ∑ i ∈ T, sendsOf processor c i +
      ∑ i ∈ T, ((ids.count i - 1 : ℕ) : ℤ) *
        (sendsOf processor c i - if 0 < sendsOf processor c i then (cfg.multiplier : ℤ) else 0) := by
  have hsum := h.lists.sum_eq h.counted h.found h.balance (sendsOf processor c)
  simp only [Multiset.coe_count,nsmul_eq_mul] at hsum
  have hsubset : ∑ i ∈ ids.toFinset, (if sentMark processor c i then ids.count i - 1 else 0) =
      ∑ i ∈ T, if sentMark processor c i then ids.count i - 1 else 0 := by
    apply sum_subset
    · intro i hi
      exact h.found i (Multiset.mem_coe.mpr (List.mem_toFinset.mp hi))
    · intro i _ hi
      have hc : ids.count i = 0 := List.count_eq_zero.mpr fun hm => hi (List.mem_toFinset.mpr hm)
      simp only [hc,Nat.zero_sub,ite_self]
  unfold EofAggregation.realMessagesSent
  rw [h.processedBy,countDuplicates_stamp,h.sent hs hu,hsum,hsubset,add_sub_assoc]
  push_cast
  rw [sum_mul,← sum_sub_distrib]
  congr 1
  apply sum_congr rfl
  intro i _
  simp only [sentMark_eq,decide_eq_true_eq,mul_sub]
  split_ifs
  · rfl
  · rw [zero_mul,mul_zero]

/-- A saved id was published. -/
theorem saved_published (hq : cfg.routingKey = false) (hd : cfg.useDuplicateCatcher = false)
    (h : Stage.Run cfg belongs tokens (Promised published processor) s) {r : ReplicaId}
    {i : MessageId} (hi : i ∈ savedIds c (s.replica r).state.log) :
    i ∈ publishedIds published c := by
  obtain ⟨d,hdel,rfl,rfl⟩ := (ledger hq hd h r).1.delivered c i hi
  have hall := deliversAll h
  rw [mem_publishedIds]
  exact List.mem_of_getElem? (hall.published d (hall.known r d hdel))

/-- In the equality branch for `c` the numbers that the round collected balance
over the published ids. -/
theorem round_end (hq : cfg.routingKey = false) (hd : cfg.useDuplicateCatcher = false)
    (htokens : ∀ e ∈ tokens, e.token.clientId = c →
      e.token = .eof ⟨c,(publishedIds published c).card,D⟩)
    (hD : ∀ i, i ∉ D → PublishedOnce published c i)
    (h : Stage.Run cfg belongs tokens (Promised published processor) s) {s' : Stage β}
    {r : ReplicaId} {p : ℕ} {hasMessages : Bool}
    (hs : s.step cfg belongs (.eof r p hasMessages) = some s') {n : ℤ} {ds : List MessageId}
    (hsync : .synchronise c n ds ∈ (s'.replica r).pending) :
    ∃ t ids K, (∀ b, .updateAggregationEof b ∈ (s'.replica r).pending ↔ b = t) ∧
      n = t.realMessagesSent cfg ∧
      RoundEnd cfg processor s c (publishedIds published c) t ids K := by
  obtain ⟨hm,ev,k,hev,hk,rfl⟩ := Stage.step_cases hs
  obtain ⟨x,hx,_,rfl⟩ := Stage.event_eof hev
  simp only [StageEvent.replica,Function.update_self] at hk hm hsync ⊢
  obtain ⟨hp,u,program,hbegin,rfl⟩ := Process.begin_of_step hk
  have hprogram : program =
      callbackEof (cfg.forReplica r) (s.replica r).state hasMessages x.token := by
    cases hbegin
    rfl
  rw [hprogram] at hsync ⊢
  obtain ⟨a,before,ha,hr,hfull,heq,hc,hn,-,hmem⟩ :=
    (callbackEof_hop _ _ hasMessages x.token).of_synchronise hsync
  have hb := (ledger hq hd h r).2 hp
  have ht : Justified cfg processor c (publishedIds published c).card D s x.token :=
    justified hq hd htokens h (Or.inl (List.mem_of_getElem? hx))
  have hagg := (ha.justified hm hb ht hc.symm).aggregated hd hm hr hb.sound
  generalize hnew : aggregated (cfg.forReplica r) (s.replica r).state a = new at *
  have hclient : new.clientId = c := by
    rw [← hnew,hc]
    rfl
  obtain ⟨⟨horigin,hdup⟩,hseen,K,ids,hK,hids,hfound⟩ := hagg
  rw [hclient] at hK hids hfound
  have hall := deliversAll h
  have hA : new.replicaIdSeen.toFinset = cfg.replicas := hseen.full hfull
  have hcard : (∑ r ∈ cfg.replicas, K r).card = new.messagesReceived := by
    rw [Multiset.card_sum]
    exact hK.received
  have hsaved : ∀ i ∈ ∑ r ∈ cfg.replicas, K r, ∃ r ∈ cfg.replicas,
      i ∈ savedIds c (s.replica r).state.log := by
    intro i hi
    obtain ⟨r,hr,hi⟩ := Multiset.mem_sum.mp hi
    exact ⟨r,hr,Multiset.mem_of_le (hK.saved r hr) hi⟩
  refine ⟨new,ids,∑ r ∈ cfg.replicas, K r,hmem,hn,hids,⟨?_,?_⟩,?_,?_,?_,hsaved,?_⟩
  · intro i hi
    rw [Multiset.count_sum',Multiset.coe_count,← hA]
    exact hfound.listed i hi
  · intro i hi
    have hnot : i ∉ new.possibleDuplicates ∧ i ∉ D := by
      unfold EofAggregation.searched at hi
      rw [List.mem_append,not_or,hdup] at hi
      exact hi
    rw [Multiset.count_sum']
    exact (sum_le_sum fun r hr => hK.fresh i hnot.1 r hr).trans (hall.fresh_le_one (hD i hnot.2))
  · intro i hi
    obtain ⟨r,_,hi⟩ := hsaved i hi
    exact saved_published hq hd h hi
  · intro i hi
    obtain ⟨r,hi⟩ := hfound.saved i (Multiset.mem_coe.mp hi)
    exact saved_published hq hd h hi
  · have hreal : new.realMessagesReceived (cfg.forReplica r) =
        new.messagesReceived - surplus (ids : Multiset MessageId) := by
      unfold EofAggregation.realMessagesReceived
      rw [hids,countDuplicates_stamp]
    have ho : a.originalMessagesSent = (publishedIds published c).card := by
      rw [← horigin,← hnew]
      rfl
    rw [hreal,ho] at heq
    rw [hcard]
    omega
  · intro hs hu
    rw [hK.sent hs hu]
    exact (map_sum (Multiset.sumAddMonoidHom.comp
      (Multiset.mapAddMonoidHom (sendsOf processor c))) K cfg.replicas).symm

end

end FlightsOptimizer.Receiver
