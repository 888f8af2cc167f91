import FlightsOptimizer.Rounds

/-!
# The EOF of a queue stage is never early

Whatever the order of deliveries, hops, crashes and restarts: when the equality
branch is taken for a client, every id that the upstream stage produced for it is
saved in the log of some replica, and the count that goes downstream is the
number of messages that the distinct ids send.
-/
namespace FlightsOptimizer.Receiver
open Logger LogGrammar Eof Interruptible Finset

variable {β : Type} {cfg : Config} {belongs : MessageId → MessageId → Bool}
variable {tokens : List Envelope} {published : List (ClientId × MessageId)}
variable {processor : ClientId → MessageId → Handling}
variable {c : ClientId} {D : List MessageId} {s s' : Stage β}

/-- Where the corrected count reaches the number of published ids, each of them
was counted. -/
theorem RoundEnd.all_saved {t : EofAggregation} {ids : List MessageId} {K : Multiset MessageId}
    {T : Finset MessageId} (h : RoundEnd cfg processor s c T t ids K) :
    ∀ i ∈ T, ∃ r ∈ cfg.replicas, i ∈ savedIds c (s.replica r).state.log := by
  intro i hi
  have hcount := h.lists.count_eq h.counted h.found h.balance hi
  apply h.saved i
  apply Multiset.count_pos.mp
  omega

theorem eof_safety (hq : cfg.routingKey = false) (hd : cfg.useDuplicateCatcher = false)
    (hm : cfg.loadBalancerSendMultiply = none) (hsends : ∀ i, (processor c i).sends ≤ 1)
    (htokens : ∀ e ∈ tokens, e.token.clientId = c →
      e.token = .eof ⟨c,(publishedIds published c).card,D⟩)
    (hD : ∀ i, i ∉ D → PublishedOnce published c i)
    (h : Stage.Run cfg belongs tokens (Promised published processor) s) {r : ReplicaId} {p : ℕ}
    {hasMessages : Bool} (hs : s.step cfg belongs (.eof r p hasMessages) = some s') {n : ℤ}
    {ds : List MessageId} (hsync : .synchronise c n ds ∈ (s'.replica r).pending) :
    (∀ i ∈ publishedIds published c,
      ∃ r ∈ cfg.replicas, i ∈ savedIds c (s.replica r).state.log) ∧
    (cfg.hasSender = true → s.Unfinished c →
      n = ∑ i ∈ publishedIds published c, sendsOf processor c i) := by
  obtain ⟨t,ids,K,-,hn,hend⟩ := round_end hq hd htokens hD h hs hsync
  refine ⟨hend.all_saved,?_⟩
  intro hsender hu
  have hone : cfg.multiplier = 1 := by
    unfold Config.multiplier
    rw [hm]
  rw [hn,hend.real_sent hsender hu,hone]
  apply add_eq_left.mpr
  apply sum_eq_zero
  intro i _
  have hle := hsends i
  apply mul_eq_zero_of_right
  unfold sendsOf
  split_ifs <;> omega

/-- The checks of `Promised`, computed. -/
def promised (published : List (ClientId × MessageId))
    (processor : ClientId → MessageId → Handling) (s : Stage ℕ) : StageEvent ℕ → Bool
  | .data _ d h => published[d.tag]? == some (d.clientId,d.messageId) &&
      h == processor d.clientId d.messageId &&
      (d.redelivered || s.delivered.all fun d' => d'.tag != d.tag)
  | _ => true

theorem promised_sound (s : Stage ℕ) (e : StageEvent ℕ)
    (h : promised published processor s e = true) : Promised published processor s e := by
  cases e with
  | data r d h' =>
      simp only [promised,Bool.and_eq_true,beq_iff_eq,Bool.or_eq_true,List.all_eq_true,
        bne_iff_ne] at h
      refine ⟨h.1.1,h.1.2,?_⟩
      intro hr d' hd'
      exact h.2.resolve_left (by simp [hr]) d' hd'
  | eof r p hasMessages => trivial
  | tick r => trivial
  | crash r => trivial

def pair : Config where
  replicaId := 1
  replicasCount := 2

def sendsOne (_ : ClientId) (_ : MessageId) : Handling := .done 1 false

def twoMessages : List (ClientId × MessageId) := [(1,7),(1,8)]

theorem twoMessages_once (i : MessageId) : PublishedOnce twoMessages 1 i := by
  intro t t' ht ht'
  rcases t with _ | _ | t <;> rcases t' with _ | _ | t' <;> cases ht <;> cases ht' <;> rfl

/-- Replica 1 saves message 7 and is killed before it acknowledges; replica 2
gets both messages. Then the token makes its round. -/
def redelivery : List (StageEvent ℕ) :=
  .data 1 ⟨0,7,1,50,false,false⟩ (.done 1 false) :: List.replicate 6 (.tick 1) ++ [.crash 1] ++
    .data 2 ⟨0,7,1,50,true,false⟩ (.done 1 false) :: List.replicate 9 (.tick 2) ++
    .data 2 ⟨1,8,1,60,false,false⟩ (.done 1 false) :: List.replicate 8 (.tick 2) ++
    .eof 1 0 false :: List.replicate 3 (.tick 1) ++
    .eof 2 0 false :: List.replicate 4 (.tick 2)

def redelivered : Stage ℕ :=
  ((Stage.initial pair [⟨none,.eof ⟨1,2,[]⟩⟩]).replay pair startsWithId
    (promised twoMessages sendsOne) redelivery).get (by decide)

/-- Replica 1 gets the token a second time. -/
def roundOver : Stage ℕ := (redelivered.step pair startsWithId (.eof 1 0 false)).get (by decide)

theorem eof_safety_redelivered :
    (∀ i ∈ publishedIds twoMessages 1,
      ∃ r ∈ pair.replicas, i ∈ savedIds 1 (redelivered.replica r).state.log) ∧
    (pair.hasSender = true → redelivered.Unfinished 1 →
      (2 : ℤ) = ∑ i ∈ publishedIds twoMessages 1, sendsOf sendsOne 1 i) := by
  have hrun : Stage.Run pair startsWithId [⟨none,.eof ⟨1,2,[]⟩⟩]
      (Promised twoMessages sendsOne) redelivered := Stage.run_replay promised_sound _
  have hstep : redelivered.step pair startsWithId (.eof 1 0 false) = some roundOver :=
    (Option.some_get _).symm
  have hsync : .synchronise 1 2 [7,7] ∈ (roundOver.replica 1).pending := by decide
  have hsends : ∀ i, (sendsOne 1 i).sends ≤ 1 := fun _ => Nat.le_refl 1
  have htokens : ∀ e ∈ [(⟨none,.eof ⟨1,2,[]⟩⟩ : Envelope)], e.token.clientId = 1 →
      e.token = .eof ⟨1,(publishedIds twoMessages 1).card,[]⟩ := by
    intro e he _
    rw [List.mem_singleton.mp he]
    rfl
  exact eof_safety rfl rfl rfl hsends htokens (fun i _ => twoMessages_once i) hrun hstep hsync

end FlightsOptimizer.Receiver
