import Mathlib.Data.Rat.Defs
import FlightsOptimizer.Connection
import FlightsOptimizer.EofSafety

/-!
# The load balancer and its EOF count

A batch sends one message for each grouper topic that its rows hash to, but
`count_duplicates` takes `grouper_replicas_count` messages away for each of its
surplus records. The count that goes to the groupers is exact when every batch
that was found more than once hits every topic, and too small otherwise.
-/
namespace FlightsOptimizer.Receiver
open Logger LogGrammar Eof Interruptible Connection Finset

/-- A flight with its fare, an exact rational where nothing else is said. -/
structure Flight (F : Type := ℚ) where
  startingAirport : String
  destinationAirport : String
  totalFare : F
  deriving DecidableEq

def getRoute {F : Type} (f : Flight F) : String :=
  f.startingAirport ++ "-" ++ f.destinationAirport

section
variable {F : Type} (hash : String → ℕ) (grouperReplicasCount : ℕ)

/-- `md5` is a parameter. -/
def queueId (f : Flight F) : ℕ := hash (getRoute f) % grouperReplicasCount + 1

def loadBalancer : Processor Unit (Flight F) (ℕ × Flight F) where
  init := ()
  process := fun f s => (some (.single (queueId hash grouperReplicasCount f,f)),s)
  finishProcessing := fun s => (none,s)

/-- What the load balancer does with a batch. -/
def balance (batch : List (Flight F)) : Handling :=
  handlingTopic ((loadBalancer hash grouperReplicasCount).collect batch ()).1

/-- The topics that a batch hits. -/
def topics (batch : List (Flight F)) : Finset ℕ :=
  (batch.map (queueId hash grouperReplicasCount)).toFinset

theorem balance_eq (batch : List (Flight F)) :
    balance hash grouperReplicasCount batch =
      .done (topics hash grouperReplicasCount batch).card false := by
  unfold balance topics
  rw [collect_single fun _ => rfl]
  simp only [handlingTopic,length_messagesByTopic,List.map_map]
  rfl

variable {hash grouperReplicasCount}

theorem topics_subset (hG : 1 ≤ grouperReplicasCount) (batch : List (Flight F)) :
    topics hash grouperReplicasCount batch ⊆ Icc 1 grouperReplicasCount := by
  intro q hq
  obtain ⟨f,_,rfl⟩ := List.mem_map.mp (List.mem_toFinset.mp hq)
  have hlt := Nat.mod_lt (hash (getRoute f)) hG
  rw [mem_Icc]
  unfold queueId
  omega

theorem topics_eq_iff (hG : 1 ≤ grouperReplicasCount) (batch : List (Flight F)) :
    topics hash grouperReplicasCount batch = Icc 1 grouperReplicasCount ↔
      grouperReplicasCount ≤ (topics hash grouperReplicasCount batch).card := by
  constructor
  · intro h
    rw [h,Nat.card_Icc]
    omega
  · intro h
    apply eq_of_subset_of_card_le (topics_subset hG batch)
    rw [Nat.card_Icc]
    omega

theorem topics_pos {batch : List (Flight F)} (h : batch ≠ []) :
    0 < (topics hash grouperReplicasCount batch).card := by
  obtain ⟨f,fs,rfl⟩ := List.exists_cons_of_ne_nil h
  exact card_pos.mpr ⟨_,List.mem_toFinset.mpr List.mem_cons_self⟩

end

section
variable {cfg : Config} {belongs : MessageId → MessageId → Bool} {tokens : List Envelope}
variable {published : List (ClientId × MessageId)} {content : ClientId → MessageId → List Flight}
variable {hash : String → ℕ} {G : ℕ} {c : ClientId} {D : List MessageId}
variable {s s' : Stage (List Flight)}

/-- What the broker promises a stage of load balancers: an id names one batch. -/
def LoadBalanced (published : List (ClientId × MessageId))
    (content : ClientId → MessageId → List Flight) (hash : String → ℕ) (G : ℕ)
    (s : Stage (List Flight)) : StageEvent (List Flight) → Prop
  | .data _ d h => published[d.tag]? = some (d.clientId,d.messageId) ∧
      d.payload = content d.clientId d.messageId ∧ h = balance hash G d.payload ∧
      (d.redelivered = false → ∀ d' ∈ s.delivered, d'.tag ≠ d.tag)
  | _ => True

/-- The answer to an id is the answer to its batch. -/
def balanceContent (content : ClientId → MessageId → List Flight) (hash : String → ℕ) (G : ℕ)
    (c : ClientId) (i : MessageId) : Handling :=
  balance hash G (content c i)

theorem LoadBalanced.promised {e : StageEvent (List Flight)}
    (h : LoadBalanced published content hash G s e) :
    Promised published (balanceContent content hash G) s e := by
  cases e with
  | data r d h' =>
      obtain ⟨htag,hpayload,hh,hred⟩ := h
      rw [hpayload] at hh
      exact ⟨htag,hh,hred⟩
  | eof r p hasMessages => trivial
  | tick r => trivial
  | crash r => trivial

/-- The distinct messages, by batch and topic, that the batches of a client send. -/
def sentMessages (published : List (ClientId × MessageId))
    (content : ClientId → MessageId → List Flight) (hash : String → ℕ) (G : ℕ) (c : ClientId) :
    Finset ((_ : MessageId) × ℕ) :=
  (publishedIds published c).sigma fun i => topics hash G (content c i)

/-- Each surplus record of a batch takes away `G` messages and had brought one for
each of its topics. -/
theorem surplus_nonpos (hG : 1 ≤ G) (k : ℕ) {batch : List Flight}
    (hne : batch ≠ []) :
    (k : ℤ) * (((topics hash G batch).card : ℤ) -
      if 0 < ((topics hash G batch).card : ℤ) then (G : ℤ) else 0) ≤ 0 ∧
    ((k : ℤ) * (((topics hash G batch).card : ℤ) -
      if 0 < ((topics hash G batch).card : ℤ) then (G : ℤ) else 0) = 0 ↔
        (0 < k → topics hash G batch = Icc 1 G)) := by
  have hpos : 0 < (topics hash G batch).card := topics_pos hne
  have hsub : topics hash G batch ⊆ Icc 1 G := topics_subset hG batch
  have hle := card_le_card hsub
  rw [Nat.card_Icc] at hle
  rw [if_pos (by omega),topics_eq_iff hG]
  constructor
  · apply Int.mul_nonpos_of_nonneg_of_nonpos <;> omega
  · rw [mul_eq_zero]
    omega

/-- In the round that ends the stream of a client, which is the first that completes
for it, the count is that of the messages sent exactly when each batch that was found
more than once hits every topic. -/
theorem load_balancer_eof (hG : 1 ≤ G) (hq : cfg.routingKey = false)
    (hd : cfg.useDuplicateCatcher = false) (hm : cfg.loadBalancerSendMultiply = some G)
    (hsender : cfg.hasSender = true)
    (htokens : ∀ e ∈ tokens, e.token.clientId = c →
      e.token = .eof ⟨c,(publishedIds published c).card,D⟩)
    (hD : ∀ i, i ∉ D → PublishedOnce published c i)
    (hne : ∀ i ∈ publishedIds published c, content c i ≠ [])
    (h : Stage.Run cfg belongs tokens (LoadBalanced published content hash G) s)
    (hu : s.Unfinished c) {r : ReplicaId} {p : ℕ} {hasMessages : Bool}
    (hs : s.step cfg belongs (.eof r p hasMessages) = some s') {n : ℤ} {ds : List MessageId}
    {t : EofAggregation} (ht : .updateAggregationEof t ∈ (s'.replica r).pending)
    (hsync : .synchronise c n ds ∈ (s'.replica r).pending) :
    n = (sentMessages published content hash G c).card ↔
      ∀ i, 1 < (t.possibleDuplicatesProcessedBy.map ProcessedMessage.messageId).count i →
        topics hash G (content c i) = Icc 1 G := by
  obtain ⟨t',ids,K,htoken,hn,hend⟩ :=
    round_end hq hd htokens hD (h.mono fun _ _ => LoadBalanced.promised) hs hsync
  obtain rfl := (htoken t).mp ht
  have hmult : cfg.multiplier = G := by
    unfold Config.multiplier
    rw [hm]
    rcases G with _ | G
    · omega
    · rfl
  have hids : t.possibleDuplicatesProcessedBy.map ProcessedMessage.messageId = ids := by
    rw [hend.processedBy,List.map_map]
    exact List.map_id ids
  have hsends : ∀ i, sendsOf (balanceContent content hash G) c i =
      ((topics hash G (content c i)).card : ℤ) := by
    intro i
    unfold sendsOf balanceContent
    rw [balance_eq]
    rfl
  have hcard : ((sentMessages published content hash G c).card : ℤ) =
      ∑ i ∈ publishedIds published c, ((topics hash G (content c i)).card : ℤ) := by
    unfold sentMessages
    rw [card_sigma]
    push_cast
    rfl
  rw [hn,hend.real_sent hsender hu,hids,hcard,hmult]
  simp only [hsends]
  rw [add_eq_left,sum_eq_zero_iff_of_nonpos fun i hi => (surplus_nonpos hG _ (hne i hi)).1]
  constructor
  · intro hz i hi
    have hmem : i ∈ publishedIds published c :=
      hend.found i (Multiset.mem_coe.mpr (List.count_pos_iff.mp (by omega)))
    apply (surplus_nonpos hG _ (hne i hmem)).2.mp (hz i hmem)
    omega
  · intro hall i hi
    apply (surplus_nonpos hG _ (hne i hi)).2.mpr
    intro hk
    apply hall i
    omega

end

/-- One load balancer in front of three groupers. -/
def balancer : Config where
  replicaId := 1
  replicasCount := 1
  loadBalancerSendMultiply := some 3
  isTopic := true

/-- Every batch is this one; every route hashes to its length. -/
def oneRow (_ : ClientId) (_ : MessageId) : List Flight := [⟨"EZE","JFK",900⟩]

/-- The checks of `LoadBalanced`, computed. -/
def loadBalanced (s : Stage (List Flight)) : StageEvent (List Flight) → Bool
  | .data _ d h => [(1,7)][d.tag]? == some (d.clientId,d.messageId) &&
      d.payload == oneRow d.clientId d.messageId && h == .done 1 false &&
      (d.redelivered || s.delivered.all fun d' => d'.tag != d.tag)
  | _ => true

theorem loadBalanced_sound (s : Stage (List Flight)) (e : StageEvent (List Flight))
    (h : loadBalanced s e = true) : LoadBalanced [(1,7)] oneRow String.length 3 s e := by
  cases e with
  | data r d h' =>
      simp only [loadBalanced,Bool.and_eq_true,beq_iff_eq,Bool.or_eq_true,List.all_eq_true,
        bne_iff_ne] at h
      obtain ⟨⟨⟨htag,hpayload⟩,hh⟩,hred⟩ := h
      refine ⟨htag,hpayload,?_,?_⟩
      · rw [hh,hpayload,balance_eq]
        rfl
      · intro hr d' hd'
        exact hred.resolve_left (by simp [hr]) d' hd'
  | eof r p hasMessages => trivial
  | tick r => trivial
  | crash r => trivial

/-- The batch is saved, the replica is killed before it acknowledges, and the
batch is saved again. -/
def savedTwice : Stage (List Flight) :=
  ((Stage.initial balancer [⟨none,.eof ⟨1,1,[]⟩⟩]).replay balancer startsWithId loadBalanced
    (.data 1 ⟨0,7,1,oneRow 1 7,false,false⟩ (.done 1 false) :: List.replicate 6 (.tick 1) ++
      [.crash 1] ++ .data 1 ⟨0,7,1,oneRow 1 7,true,false⟩ (.done 1 false) ::
      List.replicate 9 (.tick 1))).get (by decide)

def savedTwiceOver : Stage (List Flight) :=
  (savedTwice.step balancer startsWithId (.eof 1 0 false)).get (by decide)

/-- The token of the completed round. -/
def savedTwiceToken : EofAggregation :=
  ⟨1,1,[],2,2,[7,7],[1],[⟨7,true⟩,⟨7,true⟩]⟩

theorem savedTwice_run : Stage.Run balancer startsWithId [⟨none,.eof ⟨1,1,[]⟩⟩]
    (LoadBalanced [(1,7)] oneRow String.length 3) savedTwice :=
  Stage.run_replay loadBalanced_sound _

theorem savedTwice_unfinished : savedTwice.Unfinished 1 := by
  rintro r ⟨n,hn⟩
  by_cases hr : r ∈ balancer.replicas
  · obtain rfl : r = 1 := mem_singleton.mp hr
    have hempty : (savedTwice.replica 1).state.history.completed = [] := by rfl
    rw [hempty] at hn
    cases hn
  · rw [savedTwice_run.outside hr] at hn
    cases hn

theorem load_balancer_eof_savedTwice :
    (-1 : ℤ) = (sentMessages [(1,7)] oneRow String.length 3 1).card ↔
      ∀ i, 1 < (savedTwiceToken.possibleDuplicatesProcessedBy.map
          ProcessedMessage.messageId).count i →
        topics String.length 3 (oneRow 1 i) = Icc 1 3 := by
  have hstep : savedTwice.step balancer startsWithId (.eof 1 0 false) = some savedTwiceOver :=
    (Option.some_get _).symm
  have htoken : .updateAggregationEof savedTwiceToken ∈ (savedTwiceOver.replica 1).pending := by
    decide
  have hsync : .synchronise 1 (-1) [7,7] ∈ (savedTwiceOver.replica 1).pending := by decide
  have htokens : ∀ e ∈ [(⟨none,.eof ⟨1,1,[]⟩⟩ : Envelope)], e.token.clientId = 1 →
      e.token = .eof ⟨1,(publishedIds [(1,7)] 1).card,[]⟩ := by
    intro e he _
    rw [List.mem_singleton.mp he]
    rfl
  have honce : ∀ i, i ∉ ([] : List MessageId) → PublishedOnce [(1,7)] 1 i := by
    intro i _ t t' ht ht'
    rcases t with _ | t <;> rcases t' with _ | t' <;> cases ht <;> cases ht'
    rfl
  exact load_balancer_eof (by decide) rfl rfl rfl rfl htokens honce
    (fun _ _ => List.cons_ne_nil _ _) savedTwice_run savedTwice_unfinished hstep htoken hsync

/-- One batch sent one message, and the round counts minus one. -/
theorem savedTwice_negative :
    Stage.Run balancer startsWithId [⟨none,.eof ⟨1,1,[]⟩⟩]
      (LoadBalanced [(1,7)] oneRow String.length 3) savedTwice ∧
    savedTwice.Unfinished 1 ∧
    savedTwice.step balancer startsWithId (.eof 1 0 false) = some savedTwiceOver ∧
    .synchronise 1 (-1) [7,7] ∈ (savedTwiceOver.replica 1).pending ∧
    (sentMessages [(1,7)] oneRow String.length 3 1).card = 1 :=
  ⟨savedTwice_run,savedTwice_unfinished,(Option.some_get _).symm,by decide,by decide⟩

end FlightsOptimizer.Receiver
