import FlightsOptimizer.Rounds

/-!
# A second EOF round

The token of a client goes through discovery and aggregation once more, after a
first one completed at some replica of a queue stage. Completing a round
overwrites the sender's counter of that replica with the total of the stage,
and the second discovery adds that counter up again. What the second round
computes is a sum over the counters before the first one, and it is the same
number under one condition on them.

Replicas may do other work in between: only what the rounds of the client read
has to stay.
-/
namespace FlightsOptimizer.Receiver
open Logger LogGrammar Eof Interruptible Finset

variable {β : Type}

/-- Two states of a replica with the same counters and records of client `c`. -/
structure Alike (c : ClientId) (r t : Replica β) : Prop where
  received : t.memory.received c = r.memory.received c
  sent : t.memory.sent c = r.memory.sent c
  duplicates : t.memory.duplicates c = r.memory.duplicates c
  found : ∀ ids, searchProcessed c ids t.files = searchProcessed c ids r.files
  sender : t.memory.sender.isSome = r.memory.sender.isSome

theorem Alike.refl (c : ClientId) (r : Replica β) : Alike c r r := ⟨rfl,rfl,rfl,fun _ => rfl,rfl⟩

theorem Alike.trans {c : ClientId} {r t u : Replica β} (h : Alike c r t) (h' : Alike c t u) :
    Alike c r u :=
  ⟨h'.received.trans h.received,h'.sent.trans h.sent,h'.duplicates.trans h.duplicates,
    fun ids => (h'.found ids).trans (h.found ids),h'.sender.trans h.sender⟩

/-- The actions that are no concern of client `c`. -/
def Action.Spares (c : ClientId) : Action β → Prop
  | .addPossibleDuplicate _ d | .send d | .countReceived d => d ≠ c
  | .saveCommunication _ d | .synchronise d _ _ => d ≠ c
  | _ => True

/-- A search passes over every line but the saves of its client. -/
theorem search_cons {c : ClientId} {l : Line} (h : ∀ m, l ≠ .saveDone m c) (ids : List MessageId)
    (ls : List Line) : search c ids none (l :: ls) = search c ids none ls := by
  cases l with
  | saveDone m d =>
      have hd : d ≠ c := fun hd => h m (hd ▸ rfl)
      exact if_pos (Or.inl hd)
  | _ => rfl

theorem Alike.exec {c : ClientId} {a : Action β} (ha : a.Spares c) (r : Replica β) :
    Alike c r (exec a r) := by
  cases a with
  | newMessageReceived m d =>
      exact ⟨rfl,rfl,rfl,fun ids => search_cons (fun _ he => by cases he) ids _,rfl⟩
  | addPossibleDuplicate m d =>
      have hd : d ≠ c := ha
      exact ⟨rfl,rfl,Dict.getD_set_ne _ hd _ _,fun _ => rfl,rfl⟩
  | send d =>
      have hd : d ≠ c := ha
      exact ⟨rfl,Memory.sent_send_ne (Ne.symm hd) _,rfl,fun _ => rfl,Option.isSome_map⟩
  | messageSent ids =>
      exact ⟨rfl,rfl,rfl,fun ids => search_cons (fun _ he => by cases he) ids _,rfl⟩
  | countReceived d =>
      have hd : d ≠ c := ha
      exact ⟨Dict.getD_set_ne _ hd _ _,rfl,rfl,fun _ => rfl,rfl⟩
  | saveCommunication m d =>
      have hd : d ≠ c := ha
      refine ⟨rfl,rfl,rfl,?_,rfl⟩
      intro ids
      refine (search_cons ?_ ids _).trans ?_
      · intro m' he
        cases he
        exact hd rfl
      · exact (search_cons (fun _ he => by cases he) ids _).trans
          (search_cons (fun _ he => by cases he) ids _)
  | commitMessage m d =>
      exact ⟨rfl,rfl,rfl,fun ids => search_cons (fun _ he => by cases he) ids _,rfl⟩
  | synchronise d n ds =>
      have hd : d ≠ c := ha
      exact ⟨rfl,Memory.sent_synchronise_ne (Ne.symm hd) n ds _,rfl,fun _ => rfl,Option.isSome_map⟩
  | _ => exact ⟨rfl,rfl,rfl,fun _ => rfl,rfl⟩

variable (cfg : Config) (belongs : MessageId → MessageId → Bool)

theorem Alike.execAll {c : ClientId} {program : List (Action β)}
    (h : ∀ a ∈ program, a.Spares c) (r : Replica β) :
    Alike c r ((process cfg belongs).execAll program r) := by
  induction program generalizing r with
  | nil => exact Alike.refl c r
  | cons a as ih =>
      exact (Alike.exec (h a List.mem_cons_self) r).trans
        (ih (fun b hb => h b (List.mem_cons_of_mem a hb)) _)

/-- A data message of another client. -/
theorem alike_data {c : ClientId} {d : Delivery β} (hd : d.clientId ≠ c) (h : Handling)
    (r : Replica β) : Alike c r ((process cfg belongs).execAll (callback cfg d h) (deliver d r)) := by
  have hdeliver : Alike c r (deliver d r) := ⟨rfl,rfl,rfl,fun _ => rfl,rfl⟩
  refine hdeliver.trans (Alike.execAll cfg belongs ?_ _)
  intro a ha
  rcases mem_callback cfg ha with rfl | rfl | rfl | rfl | rfl | rfl | rfl | rfl | rfl | rfl | rfl |
    rfl | rfl <;> first | exact hd | trivial

/-- A token of another client. -/
theorem alike_eof {c : ClientId} {t : Token} (ht : t.clientId ≠ c) (r : Replica β)
    (hasMessages : Bool) : Alike c r
      ((process cfg belongs).execAll (callbackEof cfg r hasMessages t) r) := by
  refine Alike.execAll cfg belongs ?_ r
  intro a ha
  have hof := (callbackEof_hop cfg r hasMessages t).ofEof a ha
  cases a with
  | send d => exact fun hd => ht (hof.symm.trans hd)
  | synchronise d n ds => exact fun hd => ht (hof.symm.trans hd)
  | addPossibleDuplicate m d => exact hof.elim
  | countReceived d => exact hof.elim
  | saveCommunication m d => exact hof.elim
  | _ => trivial

/-- A token of the client itself, as long as it does not complete here. -/
theorem alike_passing (hq : cfg.routingKey = false) {t : Token} {r : Replica β} {hasMessages : Bool}
    (h : ∀ n ds, .synchronise t.clientId n ds ∉ callbackEof cfg r hasMessages t) (c : ClientId) :
    Alike c r ((process cfg belongs).execAll (callbackEof cfg r hasMessages t) r) := by
  rcases quiet_callbackEof cfg r hasMessages hq t with hquiet | ⟨n,ds,hsync⟩
  · rw [execAll_quiet cfg belongs hquiet]
    exact Alike.refl c r
  · exact absurd hsync (h n ds)

/-- A replica, in some state, is offered a token. -/
structure Visit (β : Type) where
  replica : ReplicaId
  state : Replica β
  hasMessages : Bool

def Visit.program (v : Visit β) (t : Token) : List (Action β) :=
  callbackEof (cfg.forReplica v.replica) v.state v.hasMessages t

/-- The replica after the visit. -/
def Visit.after (v : Visit β) (t : Token) : Replica β :=
  (process (cfg.forReplica v.replica) belongs).execAll (v.program cfg t) v.state

/-- Within one round a token becomes another. `meets` says in which states the
replicas are met. -/
inductive Passes (meets : ReplicaId → Replica β → Prop) : Token → Token → Prop
  | here (t : Token) : Passes meets t t
  | visit {t t' t'' : Token} {d : Option ReplicaId} (v : Visit β) : Passes meets t t' →
      v.replica ∈ cfg.replicas → meets v.replica v.state →
      .requeueEof d t'' ∈ v.program cfg t' → (∀ e, t'' ≠ .eof e) → Passes meets t t''

/-- The round ends in the equality branch, with `n` as `real_messages_sent` and
`ds` as the possible duplicates. -/
structure Completes (meets : ReplicaId → Replica β → Prop) (v : Visit β) (t : Token) (n : ℤ)
    (ds : List MessageId) : Prop where
  member : v.replica ∈ cfg.replicas
  meets : meets v.replica v.state
  synchronises : .synchronise t.clientId n ds ∈ v.program cfg t

/-- The numbers of the replicas in order. -/
def replicaIds : List ReplicaId := List.range' 1 cfg.replicasCount

theorem toFinset_replicaIds : (replicaIds cfg).toFinset = cfg.replicas := by
  ext r
  unfold replicaIds Config.replicas
  rw [List.mem_toFinset,List.mem_range'_1,mem_Icc,Nat.lt_one_add_iff]

theorem coe_flatMap {ι A : Type} [DecidableEq ι] {l : List ι} (h : l.Nodup) (f : ι → List A) :
    (l.flatMap f : Multiset A) = ∑ i ∈ l.toFinset, (f i : Multiset A) := by
  rw [List.sum_toFinset _ h]
  induction l with
  | nil => rfl
  | cons i l ih =>
      rw [List.flatMap_cons,List.map_cons,List.sum_cons,← ih (List.nodup_cons.mp h).2]
      rfl

theorem coe_flatMap_replicaIds {A : Type} (f : ReplicaId → List A) :
    ((replicaIds cfg).flatMap f : Multiset A) = ∑ r ∈ cfg.replicas, (f r : Multiset A) := by
  have hnodup : (replicaIds cfg).Nodup := List.nodup_range'
  rw [coe_flatMap hnodup f,toFinset_replicaIds]

section
variable (c : ClientId) (s : ReplicaId → Replica β) (e : EofMessage)

/-- The possible duplicates of the stage and of the EOF. -/
def possibleDuplicates : List MessageId :=
  ((replicaIds cfg).flatMap fun r => (s r).memory.duplicates c) ++ e.possibleDuplicates

/-- What a replica finds of them in its log. -/
def foundBy (r : ReplicaId) : List ProcessedMessage :=
  if cfg.useDuplicateCatcher then []
  else searchProcessed c (possibleDuplicates cfg c s e) (s r).files

def duplicatesSent : ℕ := (countDuplicates cfg ((replicaIds cfg).flatMap (foundBy cfg c s e))).2

def duplicatesReceived : ℕ :=
  (countDuplicates cfg ((replicaIds cfg).flatMap (foundBy cfg c s e))).1

/-- A state in which replica `r` is met has the records and the received counter
of `s r`. Its sent counter is `sent r`, unless the replica is in `early`, where
the token was before. -/
structure Contributes (early : Finset ReplicaId) (sent : ReplicaId → ℤ) (r : ReplicaId)
    (x : Replica β) : Prop where
  received : x.memory.received c = (s r).memory.received c
  duplicates : x.memory.duplicates c = (s r).memory.duplicates c
  found : ∀ ids, searchProcessed c ids x.files = searchProcessed c ids (s r).files
  sent : r ∉ early → x.memory.sent c = sent r

variable (early : Finset ReplicaId) (sent : ReplicaId → ℤ) (N : ℤ)

structure Collecting (d : EofDiscovery) : Prop where
  clientId : d.clientId = c
  announced : d.originalMessagesSent = N
  origin : d.originalPossibleDuplicates.Perm e.possibleDuplicates
  seen : Seen cfg d.replicaIdSeen
  early : early ⊆ d.replicaIdSeen.toFinset
  received : d.messagesReceived = ∑ r ∈ d.replicaIdSeen.toFinset, (s r).memory.received c
  sent : d.messagesSent = ∑ r ∈ d.replicaIdSeen.toFinset, sent r
  duplicates : (d.possibleDuplicates : Multiset MessageId) =
    ∑ r ∈ d.replicaIdSeen.toFinset, ((s r).memory.duplicates c : Multiset MessageId)

structure Searching (a : EofAggregation) : Prop where
  clientId : a.clientId = c
  announced : a.originalMessagesSent = N
  seen : Seen cfg a.replicaIdSeen
  received : a.messagesReceived = ∑ r ∈ cfg.replicas, (s r).memory.received c
  sent : a.messagesSent = ∑ r ∈ cfg.replicas, sent r
  searched : a.searched.Perm (possibleDuplicates cfg c s e)
  processedBy : (a.possibleDuplicatesProcessedBy : Multiset ProcessedMessage) =
    ∑ r ∈ a.replicaIdSeen.toFinset, (foundBy cfg c s e r : Multiset ProcessedMessage)

/-- What a token of the round carries, when its EOF announced `N` messages. -/
def Gathered : Token → Prop
  | .eof t => t.clientId = c ∧ t.messagesSent = N ∧
      t.possibleDuplicates.Perm e.possibleDuplicates ∧ early = ∅
  | .discovery d => Collecting cfg c s e early sent N d
  | .aggregation a => Searching cfg c s e sent N a
  | .finish t => t.clientId = c

end

/-- A search looks at its ids as a set. -/
theorem search_congr {ids ids' : List MessageId} (h : ∀ i, i ∈ ids ↔ i ∈ ids') (c : ClientId)
    (m : Option MessageId) (ls : List Line) : search c ids m ls = search c ids' m ls := by
  induction ls generalizing m with
  | nil => cases m <;> rfl
  | cons l ls ih =>
      cases m with
      | none => cases l <;> simp only [search,h,ih]
      | some m => cases l <;> simp only [search,ih]

theorem countDuplicates_perm {l l' : List ProcessedMessage} (h : l.Perm l') :
    countDuplicates cfg l = countDuplicates cfg l' := by
  rw [countDuplicates_eq,countDuplicates_eq,Multiset.coe_eq_coe.mpr h,
    List.toFinset_eq_of_perm _ _ h]
  simp only [h.count_eq]

variable {cfg} {c : ClientId} {s : ReplicaId → Replica β} {e : EofMessage}
variable {early : Finset ReplicaId} {sent : ReplicaId → ℤ} {N : ℤ} {r : ReplicaId} {x : Replica β}

theorem Gathered.clientId {t : Token} (h : Gathered cfg c s e early sent N t) : t.clientId = c := by
  cases t with
  | eof t => exact h.1
  | discovery d => exact Collecting.clientId h
  | aggregation a => exact Searching.clientId h
  | finish t => exact h

theorem Gathered.asDiscovery {t : Token} {d : EofDiscovery}
    (h : Gathered cfg c s e early sent N t) (hd : t.asDiscovery = some d) :
    Collecting cfg c s e early sent N d := by
  cases t with
  | eof t =>
      cases hd
      obtain ⟨hc,hN,horigin,rfl⟩ := h
      exact ⟨hc,hN,horigin,⟨List.nodup_nil,fun _ hr => by cases hr⟩,empty_subset _,rfl,rfl,rfl⟩
  | discovery t =>
      cases hd
      exact h
  | aggregation t => cases hd
  | finish t => cases hd

theorem Collecting.discovered {d : EofDiscovery} (h : Collecting cfg c s e early sent N d)
    (hr : r ∈ cfg.replicas) (hseen : r ∉ d.replicaIdSeen) (hx : Contributes c s early sent r x) :
    Collecting cfg c s e early sent N (discovered (cfg.forReplica r) x d) := by
  have hnew : r ∉ d.replicaIdSeen.toFinset := fun hm => hseen (List.mem_toFinset.mp hm)
  have hset : (Receiver.discovered (cfg.forReplica r) x d).replicaIdSeen.toFinset =
      insert r d.replicaIdSeen.toFinset := toFinset_append_singleton d.replicaIdSeen r
  refine ⟨h.clientId,h.announced,h.origin,h.seen.append hseen hr,?_,?_,?_,?_⟩
  · rw [hset]
    exact h.early.trans (subset_insert r _)
  · have hstep : (Receiver.discovered (cfg.forReplica r) x d).messagesReceived =
        d.messagesReceived + x.memory.received d.clientId := rfl
    rw [hset,sum_insert hnew,hstep,h.received,h.clientId,hx.received,add_comm]
  · have hstep : (Receiver.discovered (cfg.forReplica r) x d).messagesSent =
        d.messagesSent + x.memory.sent d.clientId := rfl
    rw [hset,sum_insert hnew,hstep,h.sent,h.clientId,hx.sent fun hm => hnew (h.early hm),add_comm]
  · have hstep : ((Receiver.discovered (cfg.forReplica r) x d).possibleDuplicates :
        Multiset MessageId) = d.possibleDuplicates + (x.memory.duplicates d.clientId :
          Multiset MessageId) := rfl
    rw [hset,sum_insert hnew,hstep,h.duplicates,h.clientId,hx.duplicates,add_comm]

theorem Collecting.toAggregation {d : EofDiscovery} (h : Collecting cfg c s e early sent N d)
    (hfull : cfg.replicasCount ≤ d.replicaIdSeen.length) :
    Searching cfg c s e sent N d.toAggregation := by
  have hall := h.seen.full hfull
  refine ⟨h.clientId,h.announced,⟨List.nodup_nil,fun _ hr => by cases hr⟩,?_,?_,?_,rfl⟩
  · exact hall ▸ h.received
  · exact hall ▸ h.sent
  · refine List.Perm.append (Multiset.coe_eq_coe.mp ?_) h.origin
    rw [coe_flatMap_replicaIds,← hall]
    exact h.duplicates

theorem Searching.aggregated {a : EofAggregation} (h : Searching cfg c s e sent N a)
    (hr : r ∈ cfg.replicas) (hseen : r ∉ a.replicaIdSeen) (hx : Contributes c s early sent r x) :
    Searching cfg c s e sent N (aggregated (cfg.forReplica r) x a) := by
  have hnew : r ∉ a.replicaIdSeen.toFinset := fun hm => hseen (List.mem_toFinset.mp hm)
  refine ⟨h.clientId,h.announced,h.seen.append hseen hr,h.received,h.sent,h.searched,?_⟩
  have hset : (Receiver.aggregated (cfg.forReplica r) x a).replicaIdSeen.toFinset =
      insert r a.replicaIdSeen.toFinset := toFinset_append_singleton a.replicaIdSeen r
  have hstep : (Receiver.aggregated (cfg.forReplica r) x a).possibleDuplicatesProcessedBy =
      a.possibleDuplicatesProcessedBy ++ foundBy cfg c s e r := by
    have hfound : searchProcessed a.clientId a.searched x.files =
        searchProcessed c (possibleDuplicates cfg c s e) (s r).files := by
      rw [h.clientId,hx.found]
      exact search_congr (fun i => h.searched.mem_iff) c none _
    have hcatcher : (cfg.forReplica r).useDuplicateCatcher = cfg.useDuplicateCatcher := rfl
    unfold Receiver.aggregated updateAggregationEof foundBy
    rw [hfound,hcatcher]
    split_ifs
    · exact (List.append_nil _).symm
    · rfl
  rw [hset,sum_insert hnew,hstep,← Multiset.coe_add,h.processedBy,add_comm]

/-- A token that is handled as an aggregation has gathered what that needs. -/
theorem Aggregates.searching {t : Token} {a : EofAggregation} {before : List (Action β)}
    (h : Aggregates (cfg.forReplica r) x t a before) (ht : Gathered cfg c s e early sent N t)
    (hr : r ∈ cfg.replicas) (hx : Contributes c s early sent r x) :
    Searching cfg c s e sent N a := by
  cases h with
  | aggregation a => exact ht
  | discovered hd hseen hfull =>
      exact ((ht.asDiscovery hd).discovered hr hseen hx).toAggregation hfull

/-- One hop of a round. -/
theorem Gathered.visit {t t' : Token} {v : Visit β} {d : Option ReplicaId}
    (ht : Gathered cfg c s e early sent N t) (hr : v.replica ∈ cfg.replicas)
    (hx : Contributes c s early sent v.replica v.state)
    (h : .requeueEof d t' ∈ v.program cfg t) (hne : ∀ e, t' ≠ .eof e) :
    Gathered cfg c s e early sent N t' := by
  have hop := callbackEof_hop (cfg.forReplica v.replica) v.state v.hasMessages t
  obtain ⟨-,⟨d,hd,hseen,-,rfl⟩ | ⟨a,before,ha,hseen,⟨-,rfl⟩ | rfl⟩ | ⟨f,hf,-,-,rfl⟩⟩ := hop.of_requeue h
  · exact (ht.asDiscovery hd).discovered hr hseen hx
  · exact (ha.searching ht hr hx).aggregated hr hseen hx
  · exact absurd rfl (hne _)
  · have hc : f.clientId = t.clientId := hop.ofEof _ h
    exact hc.trans ht.clientId

theorem Passes.gathered {meets : ReplicaId → Replica β → Prop}
    (hm : ∀ r x, meets r x → Contributes c s early sent r x) {t t' : Token}
    (h : Passes cfg meets t t') (ht : Gathered cfg c s e early sent N t) :
    Gathered cfg c s e early sent N t' := by
  induction h with
  | here => exact ht
  | visit v _ hr hx hreq hne ih => exact ih.visit hr (hm _ _ hx) hreq hne

/-- What the last replica of an aggregation computes. -/
theorem Searching.total {a : EofAggregation} (h : Searching cfg c s e sent N a)
    (hfull : cfg.replicasCount ≤ a.replicaIdSeen.length) (r : ReplicaId) :
    a.realMessagesReceived (cfg.forReplica r) =
        ((∑ r ∈ cfg.replicas, (s r).memory.received c : ℕ) : ℤ) - duplicatesReceived cfg c s e ∧
      a.realMessagesSent (cfg.forReplica r) =
        ∑ r ∈ cfg.replicas, sent r - (duplicatesSent cfg c s e : ℤ) := by
  have hperm : a.possibleDuplicatesProcessedBy.Perm
      ((replicaIds cfg).flatMap (foundBy cfg c s e)) := by
    apply Multiset.coe_eq_coe.mp
    rw [coe_flatMap_replicaIds,← h.seen.full hfull]
    exact h.processedBy
  have hcount : countDuplicates (cfg.forReplica r) a.possibleDuplicatesProcessedBy =
      countDuplicates cfg ((replicaIds cfg).flatMap (foundBy cfg c s e)) :=
    countDuplicates_perm cfg hperm
  unfold EofAggregation.realMessagesReceived EofAggregation.realMessagesSent
  rw [hcount,h.received,h.sent]
  exact ⟨rfl,rfl⟩

/-- The equality branch, where it is taken. -/
theorem Completes.total {meets : ReplicaId → Replica β → Prop} {v : Visit β} {t : Token} {n : ℤ}
    {ds : List MessageId} (h : Completes cfg meets v t n ds)
    (hm : ∀ r x, meets r x → Contributes c s early sent r x)
    (ht : Gathered cfg c s e early sent N t) :
    n = ∑ r ∈ cfg.replicas, sent r - (duplicatesSent cfg c s e : ℤ) ∧
      ds.Perm (possibleDuplicates cfg c s e) ∧
      ((∑ r ∈ cfg.replicas, (s r).memory.received c : ℕ) : ℤ) - duplicatesReceived cfg c s e = N := by
  have hop := callbackEof_hop (cfg.forReplica v.replica) v.state v.hasMessages t
  obtain ⟨a,before,ha,hseen,hfull,heq,-,hn,hds,-⟩ := hop.of_synchronise h.synchronises
  have hx := hm _ _ h.meets
  have hall := (ha.searching ht h.member hx).aggregated h.member hseen hx
  obtain ⟨hreceived,hsent⟩ := hall.total hfull v.replica
  refine ⟨hn.trans hsent,?_,?_⟩
  · rw [hds]
    exact hall.searched
  · rw [← hreceived,heq]
    exact hall.announced

/-- When the stage received what the EOF announced, no visit starts the round again. -/
theorem Gathered.not_restarted {t : Token} {v : Visit β} (ht : Gathered cfg c s e early sent N t)
    (hr : v.replica ∈ cfg.replicas) (hx : Contributes c s early sent v.replica v.state)
    (hN : ((∑ r ∈ cfg.replicas, (s r).memory.received c : ℕ) : ℤ) - duplicatesReceived cfg c s e = N)
    (d : Option ReplicaId) (e' : EofMessage) : .requeueEof d (.eof e') ∉ v.program cfg t := by
  have hop := callbackEof_hop (cfg.forReplica v.replica) v.state v.hasMessages t
  have hfinishing : ∀ f, .requeueEof d (.eof e') ∉
      finishing (cfg.forReplica v.replica) v.state v.hasMessages f := by
    intro f hf
    rcases mem_finishing hf with hf | hf
    · cases hf
    · exact not_ofToken_connection hf trivial
  have hbefore : ∀ {a before}, Aggregates (cfg.forReplica v.replica) v.state t a before →
      .requeueEof d (.eof e') ∉ before := fun ha hb => ha.not_ofToken hb trivial
  unfold Visit.program
  revert hop
  generalize callbackEof (cfg.forReplica v.replica) v.state v.hasMessages t = program
  intro hop
  cases hop with
  | seen _ => simp
  | discovered _ _ _ => simp
  | aggregated ha _ _ => simp [hbefore ha]
  | finished _ => simp [hfinishing]
  | completed ha _ _ _ =>
      intro hs
      simp only [List.mem_append,List.mem_cons,List.not_mem_nil,or_false,hbefore ha,hfinishing,
        false_or,reduceCtorEq] at hs
      rcases mem_completing hs with hs | hs
      · cases hs
      · exact absurd trivial (not_ofToken_connection hs)
  | restarted ha hseen hfull hne =>
      have hall := (ha.searching ht hr hx).aggregated hr hseen hx
      have htotal := (hall.total hfull v.replica).1
      exact absurd (htotal.trans (hN.trans hall.announced.symm)) hne

/-- What the messages of `finish_processing` add to the counter. -/
def finishSends (cfg : Config) (hasMessages : Bool) : ℤ :=
  if hasMessages && !cfg.isTopic then 1 else 0

/-- `Connection.handle_eof` sends an EOF. -/
def announces (cfg : Config) : Bool := cfg.isTopic || cfg.sendEof

def resultEof (cfg : Config) (c : ClientId) (n : ℤ) (ds : List MessageId) : SentEof :=
  match cfg.resultTagId with
  | none | some 0 => .eof ⟨c,n,ds⟩
  | some tag => .result c tag n

/-- The order of the possible duplicates is the order of the replicas' turns, and
means nothing to the receiver. -/
def SentEof.Same : SentEof → SentEof → Prop
  | .eof t, .eof t' => t.clientId = t'.clientId ∧ t.messagesSent = t'.messagesSent ∧
      t.possibleDuplicates.Perm t'.possibleDuplicates
  | .result c tag n, .result c' tag' n' => c = c' ∧ tag = tag' ∧ n = n'
  | _, _ => False

theorem same_resultEof (cfg : Config) (c : ClientId) {n n' : ℤ} {ds ds' : List MessageId}
    (h : ds.Perm ds') : (resultEof cfg c n ds).Same (resultEof cfg c n' ds') ↔ n = n' := by
  unfold resultEof
  rcases cfg.resultTagId with _ | _ | tag
  · exact ⟨fun hs => hs.2.1,fun hn => ⟨rfl,hn,h⟩⟩
  · exact ⟨fun hs => hs.2.1,fun hn => ⟨rfl,hn,h⟩⟩
  · exact ⟨fun hs => hs.2.2,fun hn => ⟨rfl,rfl,hn⟩⟩

section
variable (cfg c) {y : Replica β} {sender : Sender}

theorem exec_sendResultEof (h : y.memory.sender = some sender) :
    exec (sendResultEof cfg c) y = {y with
      history := y.history.sendEof (some
        (resultEof cfg c (y.memory.sent c) (sender.possibleDuplicates.getD c [])))} := by
  unfold sendResultEof resultEof
  rcases cfg.resultTagId with _ | _ | tag
  · simp only [exec,Memory.eofMessage,Memory.sent,h,Option.map_some]
  · simp only [exec,Memory.eofMessage,Memory.sent,h,Option.map_some]
  · simp only [exec,h,Option.map_some]

theorem execAll_optionalResultEof (h : y.memory.sender = some sender) (b : Bool) :
    ((process cfg belongs).execAll (if b then [sendResultEof cfg c] else []) y).memory = y.memory ∧
      ((process cfg belongs).execAll (if b then [sendResultEof cfg c] else []) y).history.eofsSent =
        (if b then [resultEof cfg c (y.memory.sent c) (sender.possibleDuplicates.getD c [])]
          else []) ++ y.history.eofsSent := by
  cases b with
  | false => exact ⟨rfl,rfl⟩
  | true =>
      have hexec : (process cfg belongs).execAll [sendResultEof cfg c] y =
          exec (sendResultEof cfg c) y := rfl
      rw [if_pos rfl,if_pos rfl,hexec,exec_sendResultEof cfg c h]
      exact ⟨rfl,rfl⟩

theorem execAll_optionalSend (h : y.memory.sender = some sender)
    (ids : Option (MessageId × ClientId)) (b : Bool) : ∃ sender' : Sender,
      ((process cfg belongs).execAll (if b then sendAll c ids else []) y).memory.sender =
        some sender' ∧
      sender'.possibleDuplicates = sender.possibleDuplicates ∧
      ((process cfg belongs).execAll (if b then sendAll c ids else []) y).memory.sent c =
        y.memory.sent c + (if b then 1 else 0) ∧
      ((process cfg belongs).execAll (if b then sendAll c ids else []) y).history = y.history := by
  cases b with
  | false => exact ⟨sender,h,rfl,(add_zero _).symm,rfl⟩
  | true =>
      have hsender : (y.memory.send c).sender = some (sender.send c) := by
        unfold Memory.send
        rw [h]
        rfl
      refine ⟨sender.send c,hsender,rfl,?_,rfl⟩
      have hsent : (y.memory.send c).sent c = y.memory.sent c + 1 := by
        unfold Memory.sent
        rw [hsender,h]
        exact Dict.getD_set_self _ _ _ _
      exact hsent

theorem execAll_connectionHandleEof (h : y.memory.sender = some sender)
    (ids : Option (MessageId × ClientId)) (hasMessages : Bool) :
    ((process cfg belongs).execAll (connectionHandleEof cfg c ids hasMessages) y).memory.sent c =
        y.memory.sent c + finishSends cfg hasMessages ∧
      ((process cfg belongs).execAll (connectionHandleEof cfg c ids hasMessages)
          y).history.eofsSent =
        (if announces cfg then [resultEof cfg c (y.memory.sent c + finishSends cfg hasMessages)
          (sender.possibleDuplicates.getD c [])] else []) ++ y.history.eofsSent := by
  have hprogram : (connectionHandleEof cfg c ids hasMessages : List (Action β)) =
      .eofCallback c :: ((if hasMessages && !cfg.isTopic then sendAll c ids else []) ++
        if announces cfg then [sendResultEof cfg c] else []) := by
    unfold connectionHandleEof announces
    cases cfg.isTopic <;> cases hasMessages <;> rfl
  have hcallback : (exec (.eofCallback c) y).memory.sender = some sender := h
  obtain ⟨sender',hsender,hduplicates,hsent,hhistory⟩ :=
    execAll_optionalSend cfg belongs c hcallback ids (hasMessages && !cfg.isTopic)
  obtain ⟨hmemory,heofs⟩ :=
    execAll_optionalResultEof cfg belongs c hsender (announces cfg)
  rw [hprogram,Process.execAll_cons,Process.execAll_append]
  constructor
  · exact (congrArg (Memory.sent c) hmemory).trans hsent
  · refine heofs.trans ?_
    rw [hsent,hduplicates,hhistory]
    rfl

end

theorem search_sentTimes (k : ℕ) (ids : Option (MessageId × ClientId)) (f : Files β)
    (c : ClientId) (searched : List MessageId) :
    searchProcessed c searched (sentTimes k ids f) = searchProcessed c searched f := by
  unfold searchProcessed sentTimes
  induction k with
  | zero => rfl
  | succ k ih =>
      refine (search_cons ?_ searched _).trans ih
      intro m hm
      cases hm

section
variable {meets : ReplicaId → Replica β → Prop} {v : Visit β} {t : Token} {n : ℤ}
variable {ds : List MessageId}

/-- Up to tokens, a completing visit synchronises and calls `Connection.handle_eof`. -/
theorem Completes.after_eq (hq : cfg.routingKey = false) (h : Completes cfg meets v t n ds) :
    v.after cfg belongs t = (process (cfg.forReplica v.replica) belongs).execAll
      (connectionHandleEof (cfg.forReplica v.replica) t.clientId v.state.memory.currentIds
        v.hasMessages) (exec (.synchronise t.clientId n ds) v.state) := by
  have hop := callbackEof_hop (cfg.forReplica v.replica) v.state v.hasMessages t
  rcases hop.quiet_or_completed (cfg.forReplica v.replica) v.state v.hasMessages hq with
    hquiet | ⟨a,before,ha,hprogram⟩
  · exact (hquiet _ h.synchronises).elim
  · have hcompleting : completing (cfg.forReplica v.replica) v.state v.hasMessages
        (aggregated (cfg.forReplica v.replica) v.state a) =
        .synchronise t.clientId n ds :: connectionHandleEof (cfg.forReplica v.replica) t.clientId
          v.state.memory.currentIds v.hasMessages := by
      obtain ⟨a',-,-,-,-,-,-,hn,hds,hunique⟩ := hop.of_synchronise h.synchronises
      have ha' := (hunique (aggregated (cfg.forReplica v.replica) v.state a)).mp (by
        rw [hprogram]
        exact List.mem_append_right _ List.mem_cons_self)
      have hc : (aggregated (cfg.forReplica v.replica) v.state a).clientId = t.clientId :=
        ha.clientId
      have hqueue : ¬(cfg.forReplica v.replica).routingKey = true := ne_true_of_eq_false hq
      unfold completing
      rw [hc,hn,hds,← ha',if_neg hqueue]
    have hrest : ∀ b ∈ finishing (cfg.forReplica v.replica) v.state v.hasMessages
        ⟨a.clientId,[]⟩ ++ [.ackEof], b.Quiet := by
      intro b hb
      rcases List.mem_append.mp hb with hb | hb
      · exact quiet_finishing (cfg.forReplica v.replica) v.state v.hasMessages hq _ b hb
      · rw [List.mem_singleton.mp hb]
        trivial
    unfold Visit.after Visit.program
    rw [hprogram,Process.execAll_append,
      execAll_quiet _ _ (ha.quiet (cfg.forReplica v.replica) v.state),Process.execAll_cons,
      Process.execAll_append,execAll_quiet _ _ hrest,hcompleting]
    rfl

/-- The counter of the completing replica, and the EOF that it sends. -/
theorem Completes.after (hq : cfg.routingKey = false) (h : Completes cfg meets v t n ds)
    (hs : v.state.memory.sender.isSome = true) :
    (v.after cfg belongs t).memory.sent t.clientId = n + finishSends cfg v.hasMessages ∧
      (v.after cfg belongs t).history.eofsSent = (if announces cfg then
        [resultEof cfg t.clientId (n + finishSends cfg v.hasMessages) ds] else []) ++
          v.state.history.eofsSent := by
  obtain ⟨sender,hsender⟩ := Option.isSome_iff_exists.mp hs
  have hy : (exec (.synchronise t.clientId n ds) v.state).memory.sender =
      some (sender.synchronise t.clientId n ds) := by
    have hmap : (exec (.synchronise t.clientId n ds) v.state).memory.sender =
        v.state.memory.sender.map (Sender.synchronise t.clientId n ds) := rfl
    rw [hmap,hsender]
    rfl
  have hsent : (exec (.synchronise t.clientId n ds) v.state).memory.sent t.clientId = n := by
    unfold Memory.sent
    rw [hy]
    exact Dict.getD_set_self _ _ _ _
  have hduplicates : (sender.synchronise t.clientId n ds).possibleDuplicates.getD t.clientId [] =
      ds := Dict.getD_set_self _ _ _ _
  have hexec := execAll_connectionHandleEof (cfg.forReplica v.replica) belongs t.clientId hy
    v.state.memory.currentIds v.hasMessages
  rw [hsent,hduplicates] at hexec
  rw [h.after_eq belongs hq]
  exact hexec

variable (cfg) in
/-- Its records and received counters stay. -/
theorem Visit.after_contributes (hx : Alike t.clientId x v.state) :
    (v.after cfg belongs t).memory.received t.clientId = x.memory.received t.clientId ∧
      (v.after cfg belongs t).memory.duplicates t.clientId = x.memory.duplicates t.clientId ∧
      ∀ ids, searchProcessed t.clientId ids (v.after cfg belongs t).files =
        searchProcessed t.clientId ids x.files := by
  have htouched := callbackEof_touched (cfg.forReplica v.replica) belongs v.state v.hasMessages t
  obtain ⟨k,hk⟩ := htouched.files
  refine ⟨?_,?_,?_⟩
  · rw [← hx.received]
    exact congrArg (fun d : Dict ClientId ℕ => d.getD t.clientId 0) htouched.messagesReceived
  · rw [← hx.duplicates]
    exact congrArg (fun d : Dict ClientId (List MessageId) => d.getD t.clientId [])
      htouched.possibleDuplicates
  · intro ids
    rw [← hx.found ids]
    exact (congrArg (searchProcessed t.clientId ids) hk).trans (search_sentTimes _ _ _ _ _)

end

theorem sum_counters {q : ReplicaId} (hq : q ∈ cfg.replicas) {F G : ReplicaId → ℤ}
    (h : ∀ r, r ≠ q → G r = F r) :
    ∑ r ∈ cfg.replicas, G r = ∑ r ∈ cfg.replicas.erase q, F r + G q := by
  rw [← sum_erase_add _ _ hq]
  congr 1
  apply sum_congr rfl
  intro r hr
  exact h r (ne_of_mem_erase hr)

/-- A token between two replicas, once the counters of those that it has not seen
have changed. -/
theorem Gathered.waiting {t : Token} {F : ReplicaId → ℤ} (h : Gathered cfg c s e ∅ F N t)
    (hd : t.asDiscovery.isSome = true) (G : ReplicaId → ℤ) :
    Gathered cfg c s e t.replicaIdSeen.toFinset
      (fun r => if r ∈ t.replicaIdSeen.toFinset then F r else G r) N t := by
  cases t with
  | eof t => exact h
  | discovery d =>
      have hc : Collecting cfg c s e ∅ F N d := h
      refine ⟨hc.clientId,hc.announced,hc.origin,hc.seen,subset_rfl,hc.received,?_,hc.duplicates⟩
      rw [hc.sent]
      apply sum_congr rfl
      intro r hr
      exact (if_pos hr).symm
  | aggregation a => cases hd
  | finish t => cases hd

section
variable {e' : EofMessage} {v v' : Visit β} {t t₀ t' : Token} {n n' : ℤ} {ds ds' : List MessageId}

/-- Where the second token has been, the counters are those before the first
round's end; elsewhere they are those after it. -/
def contributed (s : ReplicaId → Replica β) (c : ClientId) (t₀ : Token) (q : ReplicaId) (after : ℤ)
    (r : ReplicaId) : ℤ :=
  if r ∈ t₀.replicaIdSeen.toFinset then (s r).memory.sent c
  else if r = q then after else (s r).memory.sent c

theorem sum_contributed {q : ReplicaId} (hq : q ∈ cfg.replicas) (after : ℤ) :
    ∑ r ∈ cfg.replicas, contributed s c t₀ q after r =
      if q ∈ t₀.replicaIdSeen then ∑ r ∈ cfg.replicas, (s r).memory.sent c
      else ∑ r ∈ cfg.replicas.erase q, (s r).memory.sent c + after := by
  have hothers : ∀ r, r ≠ q → contributed s c t₀ q after r = (s r).memory.sent c := by
    intro r hr
    unfold contributed
    rw [if_neg hr,ite_self]
  rw [sum_counters hq hothers]
  unfold contributed
  simp only [List.mem_toFinset,if_true]
  split_ifs
  · exact sum_erase_add _ _ hq
  · rfl

/-- Lists of at most one EOF. -/
theorem forall₂_announced {a : Bool} {x y : SentEof} {es es' : List SentEof}
    (hx : (if a then [x] else []) = es) (hy : (if a then [y] else []) = es') :
    List.Forall₂ SentEof.Same es es' ↔ (a = true → x.Same y) := by
  subst hx hy
  cases a <;> simp

variable (cfg s) in
/-- The stage after the last visit of the first round. -/
def completed (v : Visit β) (t : Token) : ReplicaId → Replica β :=
  Function.update s v.replica (v.after cfg belongs t)

variable (cfg s e e' v t t₀ t' n ds) in
/-- The EOF `e` of a queue stage makes its round, which completes at `v`. A second
token of the client, the same up to the order of its possible duplicates, is at
`t₀` by then, and at `t'` later. No data of the client comes in between. -/
structure TwoRounds : Prop where
  queue : cfg.routingKey = false
  sender : ∀ r ∈ cfg.replicas, (s r).memory.sender.isSome = true
  clientId : e'.clientId = e.clientId
  possibleDuplicates : e'.possibleDuplicates.Perm e.possibleDuplicates
  first : Passes cfg (fun r => Alike e.clientId (s r)) (.eof e) t
  completes : Completes cfg (fun r => Alike e.clientId (s r)) v t n ds
  copy : Passes cfg (fun r => Alike e.clientId (s r)) (.eof e') t₀
  discovering : t₀.asDiscovery.isSome = true
  second : Passes cfg (fun r => Alike e.clientId (completed cfg belongs s v t r)) t₀ t'

theorem contributes_first : ∀ r x, Alike c (s r) x →
    Contributes c s ∅ (fun r => (s r).memory.sent c) r x :=
  fun _ _ hx => ⟨hx.received,hx.duplicates,hx.found,fun _ => hx.sent⟩

variable {belongs}

theorem TwoRounds.gathered_first (h : TwoRounds cfg belongs s e e' v t t₀ t' n ds) :
    Gathered cfg e.clientId s e ∅ (fun r => (s r).memory.sent e.clientId) e.messagesSent t :=
  h.first.gathered contributes_first ⟨rfl,rfl,List.Perm.refl _,rfl⟩

theorem TwoRounds.sender_first (h : TwoRounds cfg belongs s e e' v t t₀ t' n ds) :
    v.state.memory.sender.isSome = true :=
  h.completes.meets.sender.trans (h.sender v.replica h.completes.member)

/-- The replicas that the second token meets later contribute the new counter. -/
theorem TwoRounds.contributes (h : TwoRounds cfg belongs s e e' v t t₀ t' n ds) :
    ∀ r x, Alike e.clientId (completed cfg belongs s v t r) x →
      Contributes e.clientId s t₀.replicaIdSeen.toFinset
        (contributed s e.clientId t₀ v.replica (n + finishSends cfg v.hasMessages)) r x := by
  intro r x hx
  have hc := h.gathered_first.clientId
  obtain ⟨hsent,-⟩ := h.completes.after belongs h.queue h.sender_first
  obtain ⟨hreceived,hduplicates,hfound⟩ :=
    v.after_contributes cfg belongs (t := t) (hc ▸ h.completes.meets)
  rw [hc] at hsent hreceived hduplicates hfound
  unfold contributed
  unfold completed at hx
  by_cases hr : r = v.replica
  · rw [hr,Function.update_self] at hx
    rw [hr]
    refine ⟨hx.received.trans hreceived,hx.duplicates.trans hduplicates,?_,?_⟩
    · exact fun ids => (hx.found ids).trans (hfound ids)
    · intro hnew
      rw [if_neg hnew,if_pos rfl]
      exact hx.sent.trans hsent
  · rw [Function.update_of_ne hr] at hx
    refine ⟨hx.received,hx.duplicates,hx.found,?_⟩
    intro hnew
    rw [if_neg hnew,if_neg hr]
    exact hx.sent

theorem TwoRounds.gathered (h : TwoRounds cfg belongs s e e' v t t₀ t' n ds) :
    Gathered cfg e.clientId s e t₀.replicaIdSeen.toFinset
      (contributed s e.clientId t₀ v.replica (n + finishSends cfg v.hasMessages)) e'.messagesSent t' :=
  h.second.gathered h.contributes
    ((h.copy.gathered contributes_first ⟨h.clientId,rfl,h.possibleDuplicates,rfl⟩).waiting
      h.discovering _)

/-- A second token that announces as much as the first does not start again. -/
theorem TwoRounds.not_restarted (h : TwoRounds cfg belongs s e e' v t t₀ t' n ds)
    (hN : e'.messagesSent = e.messagesSent) (hr : v'.replica ∈ cfg.replicas)
    (hx : Alike e.clientId (completed cfg belongs s v t v'.replica) v'.state)
    (d : Option ReplicaId) (e'' : EofMessage) : .requeueEof d (.eof e'') ∉ v'.program cfg t' := by
  obtain ⟨-,-,hreceived⟩ := h.completes.total contributes_first h.gathered_first
  exact h.gathered.not_restarted hr (h.contributes _ _ hx) (hreceived.trans hN.symm) d e''

theorem TwoRounds.sender_second (h : TwoRounds cfg belongs s e e' v t t₀ t' n ds)
    (hr : v'.replica ∈ cfg.replicas)
    (hx : Alike e.clientId (completed cfg belongs s v t v'.replica) v'.state) :
    v'.state.memory.sender.isSome = true := by
  rw [hx.sender]
  unfold completed
  by_cases heq : v'.replica = v.replica
  · rw [heq,Function.update_self]
    exact (callbackEof_touched _ belongs v.state v.hasMessages t).sender.trans h.sender_first
  · rw [Function.update_of_ne heq]
    exact h.sender v'.replica hr

/-- Both rounds compute the same `real_messages_sent` and send the same EOF,
exactly when the second token had passed the first round's last replica before,
or the messages counted as sent by the other replicas and by `finish_processing`
are as many as the sent duplicates; and when both last replicas had something to
send, or neither. -/
theorem second_round (h : TwoRounds cfg belongs s e e' v t t₀ t' n ds)
    (h' : Completes cfg (fun r => Alike e.clientId (completed cfg belongs s v t r)) v' t' n' ds') :
    (n' = n ∧ ∃ es es',
        (v.after cfg belongs t).history.eofsSent = es ++ v.state.history.eofsSent ∧
        (v'.after cfg belongs t').history.eofsSent = es' ++ v'.state.history.eofsSent ∧
        List.Forall₂ SentEof.Same es es') ↔
      (v.replica ∈ t₀.replicaIdSeen ∨ ∑ r ∈ cfg.replicas.erase v.replica,
          (s r).memory.sent e.clientId + finishSends cfg v.hasMessages =
        duplicatesSent cfg e.clientId s e) ∧
      (announces cfg = true → finishSends cfg v.hasMessages = finishSends cfg v'.hasMessages) := by
  obtain ⟨hn,hds,-⟩ := h.completes.total contributes_first h.gathered_first
  obtain ⟨hn',hds',-⟩ := h'.total h.contributes h.gathered
  obtain ⟨-,heofs⟩ := h.completes.after belongs h.queue h.sender_first
  obtain ⟨-,heofs'⟩ := h'.after belongs h.queue (h.sender_second h'.member h'.meets)
  rw [h.gathered_first.clientId] at heofs
  rw [h.gathered.clientId] at heofs'
  have hvalue : n' = n ↔ v.replica ∈ t₀.replicaIdSeen ∨ ∑ r ∈ cfg.replicas.erase v.replica,
      (s r).memory.sent e.clientId + finishSends cfg v.hasMessages =
        duplicatesSent cfg e.clientId s e := by
    rw [sum_contributed h.completes.member] at hn'
    split_ifs at hn' with hseen
    · simp only [hseen,true_or,iff_true]
      exact hn'.trans hn.symm
    · simp only [hseen,false_or]
      omega
  have hsame : (∃ es es',
      (v.after cfg belongs t).history.eofsSent = es ++ v.state.history.eofsSent ∧
      (v'.after cfg belongs t').history.eofsSent = es' ++ v'.state.history.eofsSent ∧
      List.Forall₂ SentEof.Same es es') ↔ (announces cfg = true →
        n + finishSends cfg v.hasMessages = n' + finishSends cfg v'.hasMessages) := by
    rw [heofs,heofs',← same_resultEof cfg e.clientId (hds.trans hds'.symm)]
    constructor
    · rintro ⟨es,es',hes,hes',hall⟩
      exact (forall₂_announced (List.append_cancel_right hes)
        (List.append_cancel_right hes')).mp hall
    · intro h
      exact ⟨_,_,rfl,rfl,(forall₂_announced rfl rfl).mpr h⟩
  rw [hsame,← hvalue]
  constructor
  · rintro ⟨heq,hk⟩
    refine ⟨heq,?_⟩
    intro ha
    have hcounts := hk ha
    omega
  · rintro ⟨heq,hk⟩
    refine ⟨heq,?_⟩
    intro ha
    have hcounts := hk ha
    omega

end

/-- A replica that received and sent `n` messages of client 1. -/
def afterMessages (n : ℕ) : Replica Unit where
  files := .empty
  memory := ⟨Dict.empty.set 1 n,.empty,.empty,some ⟨Dict.empty.set 1 (n : ℤ),.empty⟩,none⟩
  history := .empty

/-- An idle stage offers a token to one of its replicas. -/
def offered (s : ReplicaId → Replica Unit) (r : ReplicaId) : Visit Unit := ⟨r,s r,false⟩

section
variable (R n : ℕ)

def equalReplicas : Config := {replicaId := 1, replicasCount := R}

def equalStage : ReplicaId → Replica Unit := fun _ => afterMessages n

def announcedEof : EofMessage := ⟨1,R * n,[]⟩

end

/-- A single replica announces its own total twice. -/
theorem second_round_single : ∃ es es',
    (Visit.after (equalReplicas 1) (fun _ _ => false) (offered (equalStage 3) 1)
      (.eof (announcedEof 1 3))).history.eofsSent = es ++ [] ∧
    (Visit.after (equalReplicas 1) (fun _ _ => false) (offered (completed (equalReplicas 1)
      (fun _ _ => false) (equalStage 3) (offered (equalStage 3) 1) (.eof (announcedEof 1 3))) 1)
      (.eof (announcedEof 1 3))).history.eofsSent = es' ++ [.eof (announcedEof 1 3)] ∧
    List.Forall₂ SentEof.Same es es' := by
  have h : TwoRounds (equalReplicas 1) (fun _ _ => false) (equalStage 3) (announcedEof 1 3)
      (announcedEof 1 3) (offered (equalStage 3) 1) (.eof (announcedEof 1 3))
      (.eof (announcedEof 1 3)) (.eof (announcedEof 1 3)) 3 [] :=
    ⟨rfl,by decide,rfl,.refl _,.here _,⟨by decide,Alike.refl _ _,by decide⟩,.here _,rfl,.here _⟩
  have h' : Completes (equalReplicas 1) (fun r => Alike (announcedEof 1 3).clientId
      (completed (equalReplicas 1) (fun _ _ => false) (equalStage 3) (offered (equalStage 3) 1)
        (.eof (announcedEof 1 3)) r)) (offered (completed (equalReplicas 1) (fun _ _ => false)
          (equalStage 3) (offered (equalStage 3) 1) (.eof (announcedEof 1 3))) 1)
      (.eof (announcedEof 1 3)) 3 [] := ⟨by decide,Alike.refl _ _,by decide⟩
  exact ((second_round h h').mpr ⟨Or.inr (by decide),fun _ => rfl⟩).2

/-- Discovery ends at replica 2, which also begins the aggregation. -/
theorem passes_two {meets : ReplicaId → Replica Unit → Prop} {s : ReplicaId → Replica Unit}
    (hm : ∀ r, meets r (s r)) {d : EofDiscovery} {a : EofAggregation}
    (hd : .requeueEof none (.discovery d) ∈
      (offered s 1).program (equalReplicas 2) (.eof (announcedEof 2 1)))
    (ha : .requeueEof none (.aggregation a) ∈
      (offered s 2).program (equalReplicas 2) (.discovery d)) :
    Passes (equalReplicas 2) meets (.eof (announcedEof 2 1)) (.aggregation a) := by
  have hone : 1 ∈ (equalReplicas 2).replicas := by decide
  have htwo : 2 ∈ (equalReplicas 2).replicas := by decide
  have first : Passes (equalReplicas 2) meets (.eof (announcedEof 2 1)) (.discovery d) :=
    .visit (offered s 1) (.here _) hone (hm 1) hd (by simp)
  exact .visit (offered s 2) first htwo (hm 2) ha (by simp)

/-- Two replicas that sent one message each announce two messages, then three. -/
theorem second_round_two : ∃ v v' t t', TwoRounds (equalReplicas 2) (fun _ _ => false)
      (equalStage 1) (announcedEof 2 1) (announcedEof 2 1) v t (.eof (announcedEof 2 1)) t' 2 [] ∧
    Completes (equalReplicas 2) (fun r => Alike 1 (completed (equalReplicas 2) (fun _ _ => false)
      (equalStage 1) v t r)) v' t' 3 [] ∧
    (v.after (equalReplicas 2) (fun _ _ => false) t).history.eofsSent = [.eof ⟨1,2,[]⟩] ∧
    (v'.after (equalReplicas 2) (fun _ _ => false) t').history.eofsSent =
      [.eof ⟨1,3,[]⟩,.eof ⟨1,2,[]⟩] := by
  have first : Passes (equalReplicas 2) (fun r => Alike 1 (equalStage 1 r))
      (.eof (announcedEof 2 1)) (.aggregation ⟨1,2,[],2,2,[],[2],[]⟩) :=
    passes_two (d := ⟨1,2,[],1,1,[],[1]⟩) (fun _ => Alike.refl _ _) (by decide) (by decide)
  have second : Passes (equalReplicas 2) (fun r => Alike 1 (completed (equalReplicas 2)
      (fun _ _ => false) (equalStage 1) (offered (equalStage 1) 1)
      (.aggregation ⟨1,2,[],2,2,[],[2],[]⟩) r))
      (.eof (announcedEof 2 1)) (.aggregation ⟨1,2,[],2,3,[],[2],[]⟩) :=
    passes_two (d := ⟨1,2,[],1,2,[],[1]⟩) (fun _ => Alike.refl _ _) (by decide) (by decide)
  refine ⟨offered (equalStage 1) 1,offered (completed (equalReplicas 2) (fun _ _ => false)
    (equalStage 1) (offered (equalStage 1) 1) (.aggregation ⟨1,2,[],2,2,[],[2],[]⟩)) 1,
    .aggregation ⟨1,2,[],2,2,[],[2],[]⟩,.aggregation ⟨1,2,[],2,3,[],[2],[]⟩,?_,?_,?_,?_⟩
  · exact ⟨rfl,by decide,rfl,.refl _,first,⟨by decide,Alike.refl _ _,by decide⟩,.here _,rfl,second⟩
  · exact ⟨by decide,Alike.refl _ _,by decide⟩
  · decide
  · decide

end FlightsOptimizer.Receiver
