import FlightsOptimizer.Callback

/-!
# What one replica does with a token

`Hop` lists the six ways in which a token is handled, each with the program that
it runs: a replica that has seen the token gives it back, the others pass it on,
complete a round, start it again, or finish. Every statement about EOF programs
is read off from it: such a program appends SENT records to the communication
log, changes the sender's counters of its client, and touches nothing else.
-/
namespace FlightsOptimizer.Receiver
open Logger LogGrammar Eof Interruptible

variable {β : Type}

section
variable (cfg : Config) (r : Replica β) (hasMessages : Bool)

/-- A discovery with the counters of this replica added. -/
def discovered (t : EofDiscovery) : EofDiscovery :=
  Eof.updateDiscoveryEof cfg (r.memory.received t.clientId) (r.memory.sent t.clientId)
    (r.memory.duplicates t.clientId) t

/-- An aggregation with what this replica found in its log. -/
abbrev aggregated (t : EofAggregation) : EofAggregation := Eof.updateAggregationEof cfg r.files t

/-- The actions of a finish that this replica has not seen. -/
def finishing (t : EofFinish) : List (Action β) :=
  (if (updateFinishEof cfg t).replicaIdSeen.length < cfg.replicasCount then
    [.requeueEof (destination cfg) (.finish (updateFinishEof cfg t))] else []) ++
  if cfg.routingKey then connectionHandleEof cfg t.clientId r.memory.currentIds hasMessages else []

/-- The equality branch, up to the finish that it hands over to. -/
def completing (t : EofAggregation) : List (Action β) :=
  .synchronise t.clientId (t.realMessagesSent cfg) t.searched ::
    if cfg.routingKey then []
    else connectionHandleEof cfg t.clientId r.memory.currentIds hasMessages

/-- A token comes to be handled as an aggregation, after some actions. -/
inductive Aggregates : Token → EofAggregation → List (Action β) → Prop
  | aggregation (t : EofAggregation) : Aggregates (.aggregation t) t []
  | discovered {t : Token} {d : EofDiscovery} : t.asDiscovery = some d →
      cfg.replicaId ∉ d.replicaIdSeen →
      cfg.replicasCount ≤ (discovered cfg r d).replicaIdSeen.length →
      Aggregates t (discovered cfg r d).toAggregation [.updateDiscoveryEof (discovered cfg r d)]

inductive Hop : Token → List (Action β) → Prop
  | seen {t : Token} : cfg.replicaId ∈ t.replicaIdSeen → Hop t [.nackEof]
  | discovered {t : Token} {d : EofDiscovery} : t.asDiscovery = some d →
      cfg.replicaId ∉ d.replicaIdSeen →
      (discovered cfg r d).replicaIdSeen.length < cfg.replicasCount →
      Hop t [.updateDiscoveryEof (discovered cfg r d),
        .requeueEof (destination cfg) (.discovery (discovered cfg r d)),.ackEof]
  | aggregated {t : Token} {a : EofAggregation} {before : List (Action β)} :
      Aggregates cfg r t a before → cfg.replicaId ∉ a.replicaIdSeen →
      (aggregated cfg r a).replicaIdSeen.length < cfg.replicasCount →
      Hop t (before ++ [.updateAggregationEof (aggregated cfg r a),
        .requeueEof (destination cfg) (.aggregation (aggregated cfg r a)),.ackEof])
  | restarted {t : Token} {a : EofAggregation} {before : List (Action β)} :
      Aggregates cfg r t a before → cfg.replicaId ∉ a.replicaIdSeen →
      cfg.replicasCount ≤ (aggregated cfg r a).replicaIdSeen.length →
      (aggregated cfg r a).realMessagesReceived cfg ≠ a.originalMessagesSent →
      Hop t (before ++ [.updateAggregationEof (aggregated cfg r a),
        .requeueEof (destination cfg) (.eof a.toEof),.ackEof])
  | completed {t : Token} {a : EofAggregation} {before : List (Action β)} :
      Aggregates cfg r t a before → cfg.replicaId ∉ a.replicaIdSeen →
      cfg.replicasCount ≤ (aggregated cfg r a).replicaIdSeen.length →
      (aggregated cfg r a).realMessagesReceived cfg = a.originalMessagesSent →
      Hop t (before ++ (.updateAggregationEof (aggregated cfg r a) ::
        (completing cfg r hasMessages (aggregated cfg r a) ++
          (finishing cfg r hasMessages ⟨a.clientId,[]⟩ ++ [.ackEof]))))
  | finished {t : EofFinish} : cfg.replicaId ∉ t.replicaIdSeen →
      Hop (.finish t) (finishing cfg r hasMessages t ++ [.ackEof])

/-- The program of a handler and its answer. -/
def acknowledged (handled : List (Action β) × AckType) : List (Action β) :=
  handled.1 ++ [match handled.2 with
    | .ack => .ackEof
    | .nack => .nackEof]

variable {cfg r hasMessages}

theorem handleEofFinish_unseen {t : EofFinish} (h : cfg.replicaId ∉ t.replicaIdSeen) :
    handleEofFinish cfg r hasMessages t = (finishing cfg r hasMessages t,.ack) := if_neg h

theorem hop_finish (t : EofFinish) :
    Hop cfg r hasMessages (.finish t) (acknowledged (handleEofFinish cfg r hasMessages t)) := by
  by_cases h : cfg.replicaId ∈ t.replicaIdSeen
  · have hseen : handleEofFinish cfg r hasMessages t = ([],.nack) := if_pos h
    rw [hseen]
    exact .seen h
  · rw [handleEofFinish_unseen h]
    exact .finished h

theorem hop_aggregation {t : Token} {a : EofAggregation} {before : List (Action β)}
    (ha : Aggregates cfg r t a before) (h : cfg.replicaId ∉ a.replicaIdSeen) :
    Hop cfg r hasMessages t
      (before ++ acknowledged (handleEofAggregation cfg r hasMessages a)) := by
  by_cases hlen : (aggregated cfg r a).replicaIdSeen.length < cfg.replicasCount
  · have hpass : handleEofAggregation cfg r hasMessages a =
        ([.updateAggregationEof (aggregated cfg r a),
          .requeueEof (destination cfg) (.aggregation (aggregated cfg r a))],.ack) := by
      unfold handleEofAggregation
      rw [if_neg h]
      exact if_pos hlen
    rw [hpass]
    exact .aggregated ha h hlen
  · by_cases heq : (aggregated cfg r a).realMessagesReceived cfg = a.originalMessagesSent
    · have hfull : handleEofAggregation cfg r hasMessages a =
          (.updateAggregationEof (aggregated cfg r a) ::
            (completing cfg r hasMessages (aggregated cfg r a) ++
              finishing cfg r hasMessages ⟨a.clientId,[]⟩),.ack) := by
        unfold handleEofAggregation
        rw [if_neg h]
        refine (if_neg hlen).trans ((if_pos heq).trans ?_)
        rw [handleEofFinish_unseen List.not_mem_nil]
        rfl
      rw [hfull]
      unfold acknowledged
      rw [List.cons_append,List.append_assoc]
      exact .completed ha h (Nat.le_of_not_lt hlen) heq
    · have hagain : handleEofAggregation cfg r hasMessages a =
          ([.updateAggregationEof (aggregated cfg r a),
            .requeueEof (destination cfg) (.eof a.toEof)],.ack) := by
        unfold handleEofAggregation
        rw [if_neg h]
        exact (if_neg hlen).trans (if_neg heq)
      rw [hagain]
      exact .restarted ha h (Nat.le_of_not_lt hlen) heq

theorem hop_discovery {t : Token} {d : EofDiscovery} (hd : t.asDiscovery = some d)
    (hs : d.replicaIdSeen = t.replicaIdSeen) : Hop cfg r hasMessages t
      (acknowledged (handleEofDiscovery cfg r hasMessages d)) := by
  by_cases h : cfg.replicaId ∈ d.replicaIdSeen
  · have hseen : handleEofDiscovery cfg r hasMessages d = ([],.nack) := if_pos h
    rw [hseen]
    exact .seen (hs ▸ h)
  · by_cases hlen : (discovered cfg r d).replicaIdSeen.length < cfg.replicasCount
    · have hpass : handleEofDiscovery cfg r hasMessages d =
          ([.updateDiscoveryEof (discovered cfg r d),
            .requeueEof (destination cfg) (.discovery (discovered cfg r d))],.ack) := by
        unfold handleEofDiscovery
        rw [if_neg h]
        exact if_pos hlen
      rw [hpass]
      exact .discovered hd h hlen
    · have hturn : handleEofDiscovery cfg r hasMessages d =
          (.updateDiscoveryEof (discovered cfg r d) ::
            (handleEofAggregation cfg r hasMessages (discovered cfg r d).toAggregation).1,
            (handleEofAggregation cfg r hasMessages (discovered cfg r d).toAggregation).2) := by
        unfold handleEofDiscovery
        rw [if_neg h]
        exact if_neg hlen
      rw [hturn]
      exact hop_aggregation (.discovered hd h (Nat.le_of_not_lt hlen)) List.not_mem_nil

/-- The handlers of a token, as one relation. -/
theorem callbackEof_hop (cfg : Config) (r : Replica β) (hasMessages : Bool) (t : Token) :
    Hop cfg r hasMessages t (callbackEof cfg r hasMessages t) := by
  cases t with
  | eof t => exact hop_discovery (t := .eof t) rfl rfl
  | discovery t => exact hop_discovery (t := .discovery t) rfl rfl
  | aggregation t =>
      by_cases h : cfg.replicaId ∈ t.replicaIdSeen
      · have hseen : handleEofAggregation cfg r hasMessages t = ([],.nack) := if_pos h
        have hprogram : callbackEof cfg r hasMessages (.aggregation t) =
            acknowledged (handleEofAggregation cfg r hasMessages t) := rfl
        rw [hprogram,hseen]
        exact .seen h
      · exact hop_aggregation (.aggregation t) h
  | finish t => exact hop_finish t

theorem discovered_clientId {t : Token} {d : EofDiscovery} (h : t.asDiscovery = some d) :
    (discovered cfg r d).clientId = t.clientId := by
  cases t <;> cases h <;> rfl

theorem Aggregates.clientId {t : Token} {a : EofAggregation} {before : List (Action β)}
    (h : Aggregates cfg r t a before) : a.clientId = t.clientId := by
  cases h with
  | aggregation t => rfl
  | @discovered t d hd _ _ =>
      have hc : (Receiver.discovered cfg r d).clientId = t.clientId := discovered_clientId hd
      exact hc

end

/-- The actions that an EOF of client `c` is made of, when the storer's last ids
are `ids`. -/
def Action.OfEof (c : ClientId) (ids : Option (MessageId × ClientId)) : Action β → Prop
  | .updateDiscoveryEof t => t.clientId = c
  | .updateAggregationEof t => t.clientId = c
  | .eofCallback d | .send d => d = c
  | .synchronise d _ _ | .sendEof d _ | .sendSpecialResultEof d _ => d = c
  | .messageSent i => i = ids
  | .requeueEof _ t => t.clientId = c
  | .ackEof | .nackEof => True
  | _ => False

/-- What EOF actions of client `c` leave alone. -/
structure EofTouched (c : ClientId) (r t : Replica β) : Prop where
  files : ∃ k, t.files = sentTimes k r.memory.currentIds r.files
  delivered : t.history.delivered = r.history.delivered
  acked : t.history.acked = r.history.acked
  completed : r.history.completed <:+ t.history.completed
  messagesReceived : t.memory.messagesReceived = r.memory.messagesReceived
  possibleDuplicates : t.memory.possibleDuplicates = r.memory.possibleDuplicates
  duplicateCatchers : t.memory.duplicateCatchers = r.memory.duplicateCatchers
  currentIds : t.memory.currentIds = r.memory.currentIds
  sender : t.memory.sender.isSome = r.memory.sender.isSome
  sent : ∀ d, d ≠ c → t.memory.sent d = r.memory.sent d

theorem EofTouched.refl (c : ClientId) (r : Replica β) : EofTouched c r r :=
  ⟨⟨0,rfl⟩,rfl,rfl,List.suffix_rfl,rfl,rfl,rfl,rfl,rfl,fun _ _ => rfl⟩

theorem Memory.sent_send_ne {c d : ClientId} (h : d ≠ c) (mem : Memory) :
    (mem.send c).sent d = mem.sent d := by
  unfold Memory.sent Memory.send
  cases mem.sender with
  | none => rfl
  | some s => exact Dict.getD_set_ne _ (Ne.symm h) _ _

theorem Memory.sent_synchronise_ne {c d : ClientId} (h : d ≠ c) (n : ℤ) (ds : List MessageId)
    (mem : Memory) : (mem.synchronise c n ds).sent d = mem.sent d := by
  unfold Memory.sent Memory.synchronise
  cases mem.sender with
  | none => rfl
  | some s => exact Dict.getD_set_ne _ (Ne.symm h) _ _

theorem EofTouched.exec {c : ClientId} {r t : Replica β} (ht : EofTouched c r t) {a : Action β}
    (ha : a.OfEof c r.memory.currentIds) : EofTouched c r (exec a t) := by
  obtain ⟨⟨k,hk⟩,h₁,h₂,h₃,h₄,h₅,h₆,h₇,h₈,h₉⟩ := ht
  cases a with
  | messageSent ids =>
      have he : ids = r.memory.currentIds := ha
      refine ⟨⟨k + 1,?_⟩,h₁,h₂,h₃,h₄,h₅,h₆,h₇,h₈,h₉⟩
      simp only [Receiver.exec,hk,he,Logger.sent,sentTimes,List.replicate_succ,List.cons_append]
  | send d =>
      have he : d = c := ha
      refine ⟨⟨k,hk⟩,h₁,h₂,h₃,h₄,h₅,h₆,h₇,Option.isSome_map.trans h₈,?_⟩
      intro e hne
      rw [← h₉ e hne]
      exact Memory.sent_send_ne (he ▸ hne) _
  | synchronise d n ds =>
      have he : d = c := ha
      refine ⟨⟨k,hk⟩,h₁,h₂,h₃.trans (List.suffix_cons _ _),h₄,h₅,h₆,h₇,
        Option.isSome_map.trans h₈,?_⟩
      intro e hne
      rw [← h₉ e hne]
      exact Memory.sent_synchronise_ne (he ▸ hne) _ _ _
  | updateDiscoveryEof d => exact ⟨⟨k,hk⟩,h₁,h₂,h₃,h₄,h₅,h₆,h₇,h₈,h₉⟩
  | updateAggregationEof d => exact ⟨⟨k,hk⟩,h₁,h₂,h₃,h₄,h₅,h₆,h₇,h₈,h₉⟩
  | eofCallback d => exact ⟨⟨k,hk⟩,h₁,h₂,h₃,h₄,h₅,h₆,h₇,h₈,h₉⟩
  | sendEof d n => exact ⟨⟨k,hk⟩,h₁,h₂,h₃,h₄,h₅,h₆,h₇,h₈,h₉⟩
  | sendSpecialResultEof d n => exact ⟨⟨k,hk⟩,h₁,h₂,h₃,h₄,h₅,h₆,h₇,h₈,h₉⟩
  | requeueEof d t => exact ⟨⟨k,hk⟩,h₁,h₂,h₃,h₄,h₅,h₆,h₇,h₈,h₉⟩
  | ackEof => exact ⟨⟨k,hk⟩,h₁,h₂,h₃,h₄,h₅,h₆,h₇,h₈,h₉⟩
  | nackEof => exact ⟨⟨k,hk⟩,h₁,h₂,h₃,h₄,h₅,h₆,h₇,h₈,h₉⟩
  | _ => exact ha.elim

section
variable {cfg : Config} {c : ClientId} {ids : Option (MessageId × ClientId)}

theorem mem_connectionHandleEof {hasMessages : Bool} {a : Action β}
    (ha : a ∈ connectionHandleEof cfg c ids hasMessages) :
    a = .eofCallback c ∨ a = .send c ∨ a = .messageSent ids ∨ (∃ n, a = .sendEof c n) ∨
      ∃ tag, a = .sendSpecialResultEof c tag := by
  have result : a = sendResultEof cfg c →
      (∃ n, a = .sendEof c n) ∨ ∃ tag, a = .sendSpecialResultEof c tag := by
    intro he
    unfold sendResultEof at he
    split at he
    · exact Or.inl ⟨none,he⟩
    · exact Or.inl ⟨none,he⟩
    · exact Or.inr ⟨_,he⟩
  unfold connectionHandleEof sendAll at ha
  rcases List.mem_cons.mp ha with rfl | ha
  · exact Or.inl rfl
  · split_ifs at ha <;> simp only [List.mem_append,List.mem_cons,List.not_mem_nil,or_false,
      false_or] at ha <;> tauto

theorem ofEof_connectionHandleEof (hasMessages : Bool) :
    ∀ a ∈ (connectionHandleEof cfg c ids hasMessages : List (Action β)), a.OfEof c ids := by
  intro a ha
  rcases mem_connectionHandleEof ha with rfl | rfl | rfl | ⟨n,rfl⟩ | ⟨tag,rfl⟩ <;> rfl

variable {r : Replica β} {hasMessages : Bool}

theorem ofEof_finishing (t : EofFinish) :
    ∀ a ∈ finishing cfg r hasMessages t, a.OfEof t.clientId r.memory.currentIds := by
  intro a ha
  unfold finishing at ha
  rcases List.mem_append.mp ha with hq | hc
  · split_ifs at hq
    · rw [List.mem_singleton.mp hq]
      rfl
    · cases hq
  · split_ifs at hc
    · exact ofEof_connectionHandleEof hasMessages a hc
    · cases hc

theorem ofEof_completing (t : EofAggregation) :
    ∀ a ∈ completing cfg r hasMessages t, a.OfEof t.clientId r.memory.currentIds := by
  intro a ha
  unfold completing at ha
  rcases List.mem_cons.mp ha with rfl | hc
  · rfl
  · split_ifs at hc
    · cases hc
    · exact ofEof_connectionHandleEof hasMessages a hc

theorem Aggregates.ofEof {t : Token} {a : EofAggregation} {before : List (Action β)}
    (h : Aggregates cfg r t a before) :
    ∀ b ∈ before, b.OfEof t.clientId r.memory.currentIds := by
  cases h with
  | aggregation t => exact fun _ hb => absurd hb List.not_mem_nil
  | discovered hd _ _ =>
      intro b hb
      rw [List.mem_singleton.mp hb]
      exact discovered_clientId hd

/-- What an aggregation that goes on consists of. -/
theorem forall_mem_before {P : Action β → Prop} {before : List (Action β)} {x y z : Action β}
    (hbefore : ∀ b ∈ before, P b) (hx : P x) (hy : P y) (hz : P z) :
    ∀ b ∈ before ++ [x,y,z], P b := by
  intro b hb
  simp only [List.mem_append,List.mem_cons,List.not_mem_nil,or_false] at hb
  rcases hb with hb | rfl | rfl | rfl
  · exact hbefore b hb
  · exact hx
  · exact hy
  · exact hz

theorem Hop.ofEof {t : Token} {program : List (Action β)}
    (h : Hop cfg r hasMessages t program) :
    ∀ b ∈ program, b.OfEof t.clientId r.memory.currentIds := by
  cases h with
  | seen _ =>
      intro b hb
      rw [List.mem_singleton.mp hb]
      trivial
  | discovered hd _ _ =>
      intro b hb
      simp only [List.mem_cons,List.not_mem_nil,or_false] at hb
      rcases hb with rfl | rfl | rfl
      · exact discovered_clientId hd
      · exact discovered_clientId hd
      · trivial
  | aggregated ha _ _ => exact forall_mem_before ha.ofEof ha.clientId ha.clientId trivial
  | restarted ha _ _ _ => exact forall_mem_before ha.ofEof ha.clientId ha.clientId trivial
  | @completed _ a _ ha _ _ _ =>
      intro b hb
      simp only [List.mem_append,List.mem_cons,List.not_mem_nil,or_false] at hb
      rcases hb with hb | rfl | hb | hb | rfl
      · exact ha.ofEof b hb
      · exact ha.clientId
      · exact ha.clientId ▸ ofEof_completing (Receiver.aggregated cfg r a) b hb
      · exact ha.clientId ▸ ofEof_finishing ⟨a.clientId,[]⟩ b hb
      · trivial
  | @finished t _ =>
      intro b hb
      rcases List.mem_append.mp hb with hb | hb
      · exact ofEof_finishing t b hb
      · rw [List.mem_singleton.mp hb]
        trivial

theorem Aggregates.mem_before {t : Token} {a : EofAggregation} {before : List (Action β)}
    (h : Aggregates cfg r t a before) {b : Action β} (hb : b ∈ before) :
    ∃ d, b = .updateDiscoveryEof d := by
  cases h with
  | aggregation t => cases hb
  | discovered _ _ _ => exact ⟨_,List.mem_singleton.mp hb⟩

/-- What the handlers of a token do, and the connection does not. -/
def Action.OfToken : Action β → Prop
  | .updateAggregationEof _ | .synchronise _ _ _ | .requeueEof _ _ => True
  | _ => False

theorem not_ofToken_connection {c : ClientId} {ids : Option (MessageId × ClientId)}
    {b : Action β} (hb : b ∈ connectionHandleEof cfg c ids hasMessages) : ¬b.OfToken := by
  rcases mem_connectionHandleEof hb with rfl | rfl | rfl | ⟨_,rfl⟩ | ⟨_,rfl⟩ <;> exact fun h => h

theorem Aggregates.not_ofToken {t : Token} {a : EofAggregation} {before : List (Action β)}
    (h : Aggregates cfg r t a before) {b : Action β} (hb : b ∈ before) : ¬b.OfToken := by
  obtain ⟨d,rfl⟩ := h.mem_before hb
  exact fun h => h

theorem mem_finishing {t : EofFinish} {b : Action β} (hb : b ∈ finishing cfg r hasMessages t) :
    b = .requeueEof (destination cfg) (.finish (updateFinishEof cfg t)) ∨
      b ∈ connectionHandleEof cfg t.clientId r.memory.currentIds hasMessages := by
  unfold finishing at hb
  rcases List.mem_append.mp hb with hb | hb
  · split_ifs at hb
    · exact Or.inl (List.mem_singleton.mp hb)
    · cases hb
  · split_ifs at hb
    · exact Or.inr hb
    · cases hb

theorem mem_completing {t : EofAggregation} {b : Action β}
    (hb : b ∈ completing cfg r hasMessages t) :
    b = .synchronise t.clientId (t.realMessagesSent cfg) t.searched ∨
      b ∈ connectionHandleEof cfg t.clientId r.memory.currentIds hasMessages := by
  unfold completing at hb
  rcases List.mem_cons.mp hb with rfl | hb
  · exact Or.inl rfl
  · split_ifs at hb
    · cases hb
    · exact Or.inr hb

/-- The equality branch is taken on an aggregation that every replica has seen. -/
theorem Hop.of_synchronise {t : Token} {program : List (Action β)}
    (h : Hop cfg r hasMessages t program) {c : ClientId} {n : ℤ} {ds : List MessageId}
    (hs : .synchronise c n ds ∈ program) : ∃ a before, Aggregates cfg r t a before ∧
      cfg.replicaId ∉ a.replicaIdSeen ∧
      cfg.replicasCount ≤ (Receiver.aggregated cfg r a).replicaIdSeen.length ∧
      (Receiver.aggregated cfg r a).realMessagesReceived cfg = a.originalMessagesSent ∧
      c = a.clientId ∧ n = (Receiver.aggregated cfg r a).realMessagesSent cfg ∧
      ds = (Receiver.aggregated cfg r a).searched ∧
      ∀ b, .updateAggregationEof b ∈ program ↔ b = Receiver.aggregated cfg r a := by
  have before : ∀ {t a} {before : List (Action β)}, Aggregates cfg r t a before →
      .synchronise c n ds ∉ before := fun ha hb => ha.not_ofToken hb trivial
  have finish : ∀ e, .synchronise c n ds ∉ (finishing cfg r hasMessages e : List (Action β)) := by
    intro e he
    rcases mem_finishing he with he | he
    · cases he
    · exact not_ofToken_connection he trivial
  cases h with
  | seen _ => simp at hs
  | discovered _ _ _ => simp at hs
  | aggregated ha _ _ => simp [before ha] at hs
  | restarted ha _ _ _ => simp [before ha] at hs
  | finished _ => simp [finish] at hs
  | @completed _ a bs ha hr hlen heq =>
      refine ⟨a,bs,ha,hr,hlen,heq,?_⟩
      simp only [List.mem_append,List.mem_cons,List.not_mem_nil,or_false,before ha,finish,
        false_or,reduceCtorEq] at hs
      rcases mem_completing hs with hs | hs
      · cases hs
        refine ⟨rfl,rfl,rfl,?_⟩
        intro b
        constructor
        · intro hb
          simp only [List.mem_append,List.mem_cons,List.not_mem_nil,or_false,reduceCtorEq,
            Action.updateAggregationEof.injEq] at hb
          rcases hb with hb | hb | hb | hb
          · exact absurd trivial (ha.not_ofToken hb)
          · exact hb
          · rcases mem_completing hb with hb | hb
            · cases hb
            · exact absurd trivial (not_ofToken_connection hb)
          · rcases mem_finishing hb with hb | hb
            · cases hb
            · exact absurd trivial (not_ofToken_connection hb)
        · rintro rfl
          exact List.mem_append_right _ List.mem_cons_self
      · exact absurd trivial (not_ofToken_connection hs)

/-- The token that a hop publishes, and where it goes. -/
theorem Hop.of_requeue {t t' : Token} {program : List (Action β)} {e : Option ReplicaId}
    (h : Hop cfg r hasMessages t program) (hs : .requeueEof e t' ∈ program) :
    e = destination cfg ∧
    ((∃ d, t.asDiscovery = some d ∧ cfg.replicaId ∉ d.replicaIdSeen ∧
      d.replicaIdSeen.length + 1 < cfg.replicasCount ∧
      t' = .discovery (Receiver.discovered cfg r d)) ∨
    (∃ a before, Aggregates cfg r t a before ∧ cfg.replicaId ∉ a.replicaIdSeen ∧
      (a.replicaIdSeen.length + 1 < cfg.replicasCount ∧
        t' = .aggregation (Receiver.aggregated cfg r a) ∨ t' = .eof a.toEof)) ∨
    ∃ f, (t = .finish f ∨ f.replicaIdSeen = []) ∧ cfg.replicaId ∉ f.replicaIdSeen ∧
      f.replicaIdSeen.length + 1 < cfg.replicasCount ∧ t' = .finish (updateFinishEof cfg f)) := by
  have before : ∀ {t a} {before : List (Action β)}, Aggregates cfg r t a before →
      .requeueEof e t' ∉ before := fun ha hb => ha.not_ofToken hb trivial
  have finish : ∀ {f}, .requeueEof e t' ∈ finishing cfg r hasMessages f → e = destination cfg ∧
      f.replicaIdSeen.length + 1 < cfg.replicasCount ∧ t' = .finish (updateFinishEof cfg f) := by
    intro f he
    unfold finishing at he
    rcases List.mem_append.mp he with he | he
    · split_ifs at he with hlen
      · have hlen' : (f.replicaIdSeen ++ [cfg.replicaId]).length < cfg.replicasCount := hlen
        rw [List.length_append] at hlen'
        cases List.mem_singleton.mp he
        exact ⟨rfl,hlen',rfl⟩
      · cases he
    · split_ifs at he
      · exact absurd trivial (not_ofToken_connection he)
      · cases he
  cases h with
  | seen _ => simp at hs
  | @discovered _ d hd hr hlen =>
      have hlen' : (d.replicaIdSeen ++ [cfg.replicaId]).length < cfg.replicasCount := hlen
      rw [List.length_append] at hlen'
      simp only [List.mem_cons,reduceCtorEq,List.not_mem_nil,or_false,false_or] at hs
      cases hs
      exact ⟨rfl,Or.inl ⟨d,hd,hr,hlen',rfl⟩⟩
  | @aggregated _ a bs ha hr hlen =>
      have hlen' : (a.replicaIdSeen ++ [cfg.replicaId]).length < cfg.replicasCount := hlen
      rw [List.length_append] at hlen'
      simp only [List.mem_append,before ha,List.mem_cons,reduceCtorEq,List.not_mem_nil,or_false,
        false_or] at hs
      cases hs
      exact ⟨rfl,Or.inr (Or.inl ⟨a,bs,ha,hr,Or.inl ⟨hlen',rfl⟩⟩)⟩
  | @restarted _ a bs ha hr _ _ =>
      simp only [List.mem_append,before ha,List.mem_cons,reduceCtorEq,List.not_mem_nil,or_false,
        false_or] at hs
      cases hs
      exact ⟨rfl,Or.inr (Or.inl ⟨a,bs,ha,hr,Or.inr rfl⟩)⟩
  | @finished f hr =>
      simp only [List.mem_append,List.mem_cons,reduceCtorEq,List.not_mem_nil,or_false] at hs
      obtain ⟨he,hlen,ht⟩ := finish hs
      exact ⟨he,Or.inr (Or.inr ⟨f,Or.inl rfl,hr,hlen,ht⟩)⟩
  | completed ha _ _ _ =>
      simp only [List.mem_append,List.mem_cons,List.not_mem_nil,or_false,before ha,
        false_or,reduceCtorEq] at hs
      rcases hs with hs | hs
      · rcases mem_completing hs with hs | hs
        · cases hs
        · exact absurd trivial (not_ofToken_connection hs)
      · obtain ⟨he,hlen,ht⟩ := finish hs
        exact ⟨he,Or.inr (Or.inr ⟨_,Or.inr rfl,List.not_mem_nil,hlen,ht⟩)⟩

theorem replicaIdSeen_asDiscovery {t : Token} {d : EofDiscovery} (h : t.asDiscovery = some d) :
    d.replicaIdSeen = t.replicaIdSeen := by
  cases t <;> cases h <;> rfl

/-- An aggregation comes as it is, or begins with nobody having seen it. -/
theorem Aggregates.replicaIdSeen {t : Token} {a : EofAggregation} {before : List (Action β)}
    (h : Aggregates cfg r t a before) :
    a.replicaIdSeen = t.replicaIdSeen ∨ a.replicaIdSeen = [] := by
  cases h with
  | aggregation a => exact Or.inl rfl
  | discovered _ _ _ => exact Or.inr rfl

/-- A published token was seen by one replica more, or starts afresh. -/
theorem Hop.seen_of_requeue {t t' : Token} {program : List (Action β)} {e : Option ReplicaId}
    (h : Hop cfg r hasMessages t program) (hs : .requeueEof e t' ∈ program) :
    t'.replicaIdSeen = [] ∨ ∃ seen, (seen = t.replicaIdSeen ∨ seen = []) ∧
      cfg.replicaId ∉ seen ∧ seen.length + 1 < cfg.replicasCount ∧
      t'.replicaIdSeen = seen ++ [cfg.replicaId] := by
  obtain ⟨-,⟨d,hd,hr,hlen,rfl⟩ | ⟨a,bs,ha,hr,⟨hlen,rfl⟩ | rfl⟩ | ⟨f,hf,hr,hlen,rfl⟩⟩ :=
    h.of_requeue hs
  · exact Or.inr ⟨d.replicaIdSeen,Or.inl (replicaIdSeen_asDiscovery hd),hr,hlen,rfl⟩
  · exact Or.inr ⟨a.replicaIdSeen,ha.replicaIdSeen,hr,hlen,rfl⟩
  · exact Or.inl rfl
  · refine Or.inr ⟨f.replicaIdSeen,?_,hr,hlen,rfl⟩
    rcases hf with rfl | hf
    · exact Or.inl rfl
    · exact Or.inr hf

end

section
variable (cfg : Config) (belongs : MessageId → MessageId → Bool)
variable (r : Replica β) (hasMessages : Bool)

/-- From the first action to the last, an EOF touches nothing else. -/
theorem callbackEof_throughout (t : Token) :
    (process cfg belongs).Throughout (EofTouched t.clientId r)
      (callbackEof cfg r hasMessages t) r := by
  apply Process.throughout_of_forall (EofTouched.refl t.clientId r)
  intro a ha s hs
  exact hs.exec ((callbackEof_hop cfg r hasMessages t).ofEof a ha)

theorem callbackEof_touched (t : Token) :
    EofTouched t.clientId r
      ((process cfg belongs).execAll (callbackEof cfg r hasMessages t) r) :=
  callbackEof_throughout cfg belongs r hasMessages t _ List.prefix_rfl

/-- Actions on tokens alone. -/
def Action.Quiet : Action β → Prop
  | .updateDiscoveryEof _ | .updateAggregationEof _ | .requeueEof _ _ | .ackEof | .nackEof => True
  | _ => False

theorem exec_quiet {a : Action β} (ha : a.Quiet) (s : Replica β) : exec a s = s := by
  cases a <;> first | rfl | exact ha.elim

theorem execAll_quiet {program : List (Action β)} (h : ∀ a ∈ program, a.Quiet) (s : Replica β) :
    (process cfg belongs).execAll program s = s := by
  induction program generalizing s with
  | nil => rfl
  | cons a as ih =>
      have ha : exec a s = s := exec_quiet (h a List.mem_cons_self) s
      rw [Process.execAll_cons]
      simp only [process,ha]
      exact ih (fun b hb => h b (List.mem_cons_of_mem a hb)) s

theorem completed_exec (a : Action β) (s : Replica β) :
    s.history.completed <:+ (exec a s).history.completed := by
  cases a <;> first | exact List.suffix_rfl | exact List.suffix_cons _ _

theorem completed_execAll (program : List (Action β)) (s : Replica β) :
    s.history.completed <:+ ((process cfg belongs).execAll program s).history.completed := by
  induction program generalizing s with
  | nil => exact List.suffix_rfl
  | cons a as ih => exact (completed_exec a s).trans (ih (exec a s))

/-- The equality branch leaves its note. -/
theorem mem_completed {d : ClientId} {n : ℤ} {ds : List MessageId} {program : List (Action β)}
    (h : .synchronise d n ds ∈ program) (s : Replica β) :
    (d,n) ∈ ((process cfg belongs).execAll program s).history.completed := by
  obtain ⟨as,bs,rfl⟩ := List.append_of_mem h
  rw [Process.execAll_append,Process.execAll_cons]
  exact (completed_execAll cfg belongs bs _).subset List.mem_cons_self

theorem quiet_finishing (hq : cfg.routingKey = false) (t : EofFinish) :
    ∀ a ∈ finishing cfg r hasMessages t, a.Quiet := by
  intro a ha
  unfold finishing at ha
  simp only [hq,Bool.false_eq_true,if_false,List.append_nil] at ha
  split_ifs at ha
  · rw [List.mem_singleton.mp ha]
    trivial
  · cases ha

theorem Aggregates.quiet {t : Token} {a : EofAggregation} {before : List (Action β)}
    (h : Aggregates cfg r t a before) : ∀ b ∈ before, b.Quiet := by
  cases h with
  | aggregation t => exact fun _ hb => absurd hb List.not_mem_nil
  | discovered _ _ _ =>
      intro b hb
      rw [List.mem_singleton.mp hb]
      trivial

/-- On a queue only the equality branch does more than move tokens. -/
theorem Hop.quiet_or_completed (hq : cfg.routingKey = false) {t : Token}
    {program : List (Action β)} (h : Hop cfg r hasMessages t program) :
    (∀ b ∈ program, b.Quiet) ∨ ∃ a before, Aggregates cfg r t a before ∧
      program = before ++ (.updateAggregationEof (Receiver.aggregated cfg r a) ::
        (completing cfg r hasMessages (Receiver.aggregated cfg r a) ++
          (finishing cfg r hasMessages ⟨a.clientId,[]⟩ ++ [.ackEof]))) := by
  cases h with
  | seen _ =>
      left
      intro b hb
      rw [List.mem_singleton.mp hb]
      trivial
  | discovered _ _ _ =>
      left
      intro b hb
      simp only [List.mem_cons,List.not_mem_nil,or_false] at hb
      rcases hb with rfl | rfl | rfl <;> trivial
  | aggregated ha _ _ =>
      exact Or.inl (forall_mem_before (ha.quiet cfg r) trivial trivial trivial)
  | restarted ha _ _ _ =>
      exact Or.inl (forall_mem_before (ha.quiet cfg r) trivial trivial trivial)
  | completed ha _ _ _ => exact Or.inr ⟨_,_,ha,rfl⟩
  | @finished t _ =>
      left
      intro b hb
      rcases List.mem_append.mp hb with hb | hb
      · exact quiet_finishing cfg r hasMessages hq t b hb
      · rw [List.mem_singleton.mp hb]
        trivial

theorem quiet_callbackEof (hq : cfg.routingKey = false) (t : Token) :
    (∀ a ∈ callbackEof cfg r hasMessages t, a.Quiet) ∨
      ∃ n ds, .synchronise t.clientId n ds ∈ callbackEof cfg r hasMessages t := by
  rcases (callbackEof_hop cfg r hasMessages t).quiet_or_completed cfg r hasMessages hq with
    hquiet | ⟨a,before,ha,hprogram⟩
  · exact Or.inl hquiet
  · right
    have hsync : .synchronise t.clientId ((aggregated cfg r a).realMessagesSent cfg)
        (aggregated cfg r a).searched ∈ completing cfg r hasMessages (aggregated cfg r a) := by
      unfold completing
      rw [← ha.clientId]
      exact List.mem_cons_self
    rw [hprogram]
    exact ⟨_,_,List.mem_append_right _ (List.mem_cons_of_mem _ (List.mem_append_left _ hsync))⟩

end

end FlightsOptimizer.Receiver
