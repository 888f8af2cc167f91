import FlightsOptimizer.MaxAvgQuery

/-!
# The number of batches that max_avg announces

max_avg announces `grouper_replicas_count` batches with every EOF it sends. A
grouper whose share of the flights has no fare above the average sends no batch,
so the number is right when every grouper has such a fare, and when none has and
nothing is announced. The average is the one that was computed, with its rounding.
-/
namespace FlightsOptimizer.MaxAvg
open Connection Receiver Eof Logger Interruptible

section
variable {F : Type} [Arithmetic F] {hash : String → ℕ} {G : ℕ}
variable {batches : List (List (Flight F))} {arrivals : ℕ → List (List (Flight F))}

/-- Without an average the groupers have nothing to send. -/
theorem filteredBatches_none (arrivals : ℕ → List (List (Flight F))) :
    filteredBatches G arrivals [] = [] := by
  apply List.filterMap_eq_nil_iff.mpr
  intro g _
  rw [collected_eq]
  rfl

theorem isSome_batch (h : Arrived hash G batches arrivals) {g : ℕ} (hg : g ∈ groupers G) (m : F) :
    ((collected (arrivals g)).processSingle m).batch.isSome = true ↔
      HasAbove m hash G batches.flatten g := by
  have hrows : ((collected (arrivals g)).processSingle m).vuelosMessageToSend =
      (collected (arrivals g)).filtered m := by
    rw [collected_eq]
    exact List.nil_append _
  rw [← h.filtered_ne_nil hg]
  unfold Grouper.batch
  rw [hrows]
  split_ifs with hnil <;> simp [hnil]

/-- As many batches are sent as groupers have a fare above the average. -/
theorem length_filteredBatches (h : Arrived hash G batches arrivals) (m : F) :
    ((filteredBatches G arrivals [m]).length = 0 ↔
      ∀ g ∈ groupers G, ¬HasAbove m hash G batches.flatten g) ∧
    ((filteredBatches G arrivals [m]).length = G ↔
      ∀ g ∈ groupers G, HasAbove m hash G batches.flatten g) := by
  have hlength : (groupers G).length = G := List.length_range'
  have hcount : (filteredBatches G arrivals [m]).length = (groupers G).countP fun g =>
      ((collected (arrivals g)).processSingle m).batch.isSome :=
    List.length_filterMap_eq_countP
  rw [hcount]
  constructor
  · rw [List.countP_eq_zero]
    exact forall₂_congr fun g hg => not_congr (isSome_batch h hg m)
  · nth_rewrite 2 [← hlength]
    rw [List.countP_eq_length]
    exact forall₂_congr fun g hg => isSome_batch h hg m

theorem ne_nil_of_mem_filteredBatches {averages : List F} {batch : List (RoutePrices F)}
    (h : batch ∈ filteredBatches G arrivals averages) : batch ≠ [] := by
  obtain ⟨g,-,hg⟩ := List.mem_filterMap.mp h
  unfold Grouper.batch at hg
  split_ifs at hg with hnil
  cases hg
  exact hnil

end

def maxAvgConfig (replicaId : ReplicaId) (replicasCount grouperReplicasCount : ℕ) : Config where
  replicaId := replicaId
  replicasCount := replicasCount
  sendEofDefaultSentValue := some grouperReplicasCount

section
variable {β F : Type} [Arithmetic F]

/-- What max_avg does with a batch. -/
def maxAvgHandling (batch : List (RoutePrices F)) : Handling :=
  handlingQueue (maxAvg.collect batch ()).1

/-- The messages that max_avg gets: for client `c` the batches that the groupers
sent. No grouper sends it an EOF. -/
def FromGroupers (c : ClientId) (sent : List (List (RoutePrices F)))
    (_ : Interruptible.Config (Replica (List (RoutePrices F))) (Action (List (RoutePrices F)))) :
    Interruptible.Event (Work (List (RoutePrices F))) → Prop
  | .begin (.data d h) => (d.clientId = c → d.payload ∈ sent) ∧ h = maxAvgHandling d.payload
  | .begin (.eof _ _) => False
  | _ => True

variable {c : ClientId} {G R : ℕ} {r : ReplicaId} {sent : List (List (RoutePrices F))}
variable {belongs : MessageId → MessageId → Bool}

/-- The EOFs that a replica has sent or will send announce `G`, and there is one for
`c` only if `c` has batches. -/
structure Announces (c : ClientId) (G : ℕ) (sent : List (List (RoutePrices F)))
    (k : Interruptible.Config (Replica (List (RoutePrices F))) (Action (List (RoutePrices F)))) :
    Prop where
  eofs : ∀ e, .eof e ∈ k.state.history.eofsSent →
    e.messagesSent = (G : ℤ) ∧ (e.clientId = c → sent ≠ [])
  pending : ∀ d n, .sendEof d n ∈ k.pending → n = some G ∧ (d = c → sent ≠ [])

theorem eofMessage_announces (hG : 1 ≤ G) {mem : Memory} {d : ClientId} {e : EofMessage}
    (h : mem.eofMessage d (some G) = some e) : e.clientId = d ∧ e.messagesSent = (G : ℤ) := by
  obtain ⟨s,-,rfl⟩ := Option.map_eq_some_iff.mp h
  obtain ⟨G,rfl⟩ := Nat.exists_eq_succ_of_ne_zero (Nat.pos_iff_ne_zero.mp hG)
  exact ⟨rfl,rfl⟩

/-- An EOF that an action sends. -/
theorem eof_of_exec {a : Action β} {s : Replica β} {e : EofMessage}
    (h : .eof e ∈ (exec a s).history.eofsSent) : .eof e ∈ s.history.eofsSent ∨
      ∃ d n, a = .sendEof d n ∧ s.memory.eofMessage d n = some e := by
  cases a with
  | sendEof d n =>
      rcases List.mem_append.mp h with h | h
      · obtain ⟨e',he,h⟩ := Option.map_eq_some_iff.mp (Option.mem_toList.mp h)
        cases h
        exact Or.inr ⟨d,n,rfl,he⟩
      · exact Or.inl h
  | sendSpecialResultEof d tag =>
      rcases List.mem_append.mp h with h | h
      · obtain ⟨_,_,h⟩ := Option.map_eq_some_iff.mp (Option.mem_toList.mp h)
        cases h
      · exact Or.inl h
  | _ => exact Or.inl h

theorem Announces.step (hG : 1 ≤ G)
    {k k' : Interruptible.Config (Replica (List (RoutePrices F))) (Action (List (RoutePrices F)))}
    {ev : Event (Work (List (RoutePrices F)))} (h : Announces c G sent k)
    (hev : FromGroupers c sent k ev)
    (hk : (process (maxAvgConfig r R G) belongs).step k ev = some k') : Announces c G sent k' := by
  have hpending : ∀ d n, .sendEof d n ∈ k'.pending → n = some G ∧ (d = c → sent ≠ []) := by
    intro d n hn
    rcases Stage.mem_pending_step hk hn with hn | ⟨m,h',rfl,hn⟩ | ⟨t,hasMessages,rfl,-⟩
    · exact h.pending d n hn
    · rcases hn with hn | hn
      · cases hn
      · obtain ⟨rfl,rfl⟩ := sendEof_of_callback _ hn
        exact ⟨rfl,fun hc => List.ne_nil_of_mem (hev.1 hc)⟩
    · exact hev.elim
  refine ⟨?_,hpending⟩
  intro e he
  cases ev with
  | begin w =>
      rcases state_of_step hk with ⟨d,h',-,hs⟩ | ⟨t,b,-,hs⟩ | ⟨a,-,hev',-⟩ | ⟨hev',-⟩
      · rw [hs] at he
        exact h.eofs e he
      · rw [hs] at he
        exact h.eofs e he
      · cases hev'
      · cases hev'
  | tick =>
      obtain ⟨a,rest,hp,rfl⟩ := Process.tick_of_step hk
      rcases eof_of_exec he with he | ⟨d,n,rfl,hmessage⟩
      · exact h.eofs e he
      · obtain ⟨rfl,hc⟩ := h.pending d n (hp ▸ List.mem_cons_self)
        obtain ⟨rfl,hsent⟩ := eofMessage_announces hG hmessage
        exact ⟨hsent,hc⟩
  | crash =>
      rw [recover_history (Process.crash_of_step hk).1] at he
      exact h.eofs e he

theorem announces (hG : 1 ≤ G)
    {k : Interruptible.Config (Replica (List (RoutePrices F))) (Action (List (RoutePrices F)))}
    (h : (process (maxAvgConfig r R G) belongs).Run (FromGroupers c sent) k) :
    Announces c G sent k := by
  induction h with
  | init =>
      refine ⟨?_,?_⟩
      · intro e he
        cases he
      · intro d n hn
        cases hn
  | step _ hev hk ih => exact ih.step hG hev hk

/-- A replica that gets a batch of `c` sends an EOF for `c`. -/
theorem exists_announced (hG : 1 ≤ G) {batch : List (RoutePrices F)} (hb : batch ∈ sent)
    (hne : batch ≠ []) : ∃ k, (process (maxAvgConfig r R G) belongs).Run (FromGroupers c sent) k ∧
      ∃ e, .eof e ∈ k.state.history.eofsSent ∧ e.clientId = c := by
  obtain ⟨G,rfl⟩ := Nat.exists_eq_succ_of_ne_zero (Nat.pos_iff_ne_zero.mp hG)
  obtain ⟨x,xs,rfl⟩ := List.exists_cons_of_ne_nil hne
  have hhandling : maxAvgHandling (x :: xs) = .done 1 true := by
    unfold maxAvgHandling
    rw [collect_sendEof fun _ => rfl]
    rfl
  have hbegin : (process (maxAvgConfig r R (G + 1)) belongs).Run (FromGroupers c sent)
      ⟨deliver ⟨0,1,c,x :: xs,false,false⟩ (fresh (maxAvgConfig r R (G + 1))),
        callback (maxAvgConfig r R (G + 1)) ⟨0,1,c,x :: xs,false,false⟩ (.done 1 true)⟩ := by
    refine .step (e := .begin (.data ⟨0,1,c,x :: xs,false,false⟩ (.done 1 true))) .init ?_ rfl
    exact ⟨fun _ => hb,hhandling.symm⟩
  refine ⟨_,hbegin.drain fun _ => trivial,⟨c,G + 1,[]⟩,?_,rfl⟩
  exact List.mem_cons_self

end

section
variable {F : Type} [Arithmetic F] {hash : String → ℕ} {G R : ℕ}
variable {batches : List (List (Flight F))} {arrivals : ℕ → List (List (Flight F))}
variable {c : ClientId} {r : ReplicaId} {belongs : MessageId → MessageId → Bool}

theorem announced_count (hG : 1 ≤ G) (h : Arrived hash G batches arrivals) {order : List ℕ}
    (horder : order.Perm (groupers G)) :
    (∀ k, (process (maxAvgConfig r R G) belongs).Run
        (FromGroupers c (filteredBatches G arrivals (averages G (sumsOf order arrivals)))) k →
      ∀ e, .eof e ∈ k.state.history.eofsSent → e.clientId = c → e.messagesSent =
        ((filteredBatches G arrivals (averages G (sumsOf order arrivals))).length : ℤ)) ↔
    ∀ m, meanOf order arrivals batches.flatten = some m →
      (∀ g ∈ groupers G, ¬HasAbove m hash G batches.flatten g) ∨
        ∀ g ∈ groupers G, HasAbove m hash G batches.flatten g := by
  rw [averages_sumsOf hG h horder]
  cases meanOf order arrivals batches.flatten with
  | none =>
      constructor
      · exact fun _ => nofun
      · intro _ k hk e he hc
        have hsent := ((announces hG hk).eofs e he).2 hc
        exact absurd (filteredBatches_none arrivals) hsent
  | some m =>
      simp only [Option.some.injEq,forall_eq']
      obtain ⟨hnone,hall⟩ := length_filteredBatches h m
      constructor
      · intro hrun
        by_cases hnil : filteredBatches G arrivals [m] = []
        · left
          exact hnone.mp (List.length_eq_zero_iff.mpr hnil)
        · right
          obtain ⟨batch,hb⟩ := List.exists_mem_of_ne_nil _ hnil
          obtain ⟨k,hk,e,he,hc⟩ : ∃ k, (process (maxAvgConfig r R G) belongs).Run
              (FromGroupers c (filteredBatches G arrivals [m])) k ∧
              ∃ e, .eof e ∈ k.state.history.eofsSent ∧ e.clientId = c :=
            exists_announced hG hb (ne_nil_of_mem_filteredBatches hb)
          have hsent := ((announces hG hk).eofs e he).1
          apply hall.mp
          rw [hrun k hk e he hc] at hsent
          exact Int.ofNat.inj hsent
      · rintro (hzero | hfull) k hk e he hc
        · have hsent := ((announces hG hk).eofs e he).2 hc
          exact absurd (List.length_eq_zero_iff.mp (hnone.mpr hzero)) hsent
        · have hlength : (filteredBatches G arrivals [m]).length = G := hall.mpr hfull
          change e.messagesSent = ((filteredBatches G arrivals [m]).length : ℤ)
          rw [hlength]
          exact ((announces hG hk).eofs e he).1

end

/-- Two routes, each with a grouper of its own. -/
def twoFlights : List (List Flight) := [[⟨"EZE","JFK",100⟩],[⟨"EZE","MIA",300⟩]]

def twoArrivals (g : ℕ) : List (List Flight) := forGrouper byRoute 2 g twoFlights

/-- The batches that the two groupers send. -/
def twoSent : List (List RoutePrices) :=
  filteredBatches 2 twoArrivals (averages 2 (sumsOf [2,1] twoArrivals))

theorem announced_count_twoFlights :
    (∀ k, (process (maxAvgConfig 1 1 2) startsWithId).Run (FromGroupers 1 twoSent) k →
      ∀ e, .eof e ∈ k.state.history.eofsSent → e.clientId = 1 →
        e.messagesSent = (twoSent.length : ℤ)) ↔
    ∀ m, meanOf [2,1] twoArrivals twoFlights.flatten = some m →
      (∀ g ∈ groupers 2, ¬HasAbove m byRoute 2 twoFlights.flatten g) ∨
        ∀ g ∈ groupers 2, HasAbove m byRoute 2 twoFlights.flatten g :=
  announced_count (by decide) (fun _ _ => List.Perm.refl _) (by decide)

/-- Only one of the two groupers has a fare above the mean, and two batches are
announced. -/
theorem twoSent_announced : twoSent.length = 1 ∧
    ∃ k, (process (maxAvgConfig 1 1 2) startsWithId).Run (FromGroupers 1 twoSent) k ∧
      ∃ e, .eof e ∈ k.state.history.eofsSent ∧ e.clientId = 1 ∧ e.messagesSent = 2 := by
  have hlength : twoSent.length = 1 := by decide +kernel
  obtain ⟨batch,hb⟩ := List.exists_mem_of_length_pos (hlength ▸ Nat.one_pos)
  obtain ⟨k,hk,e,he,hc⟩ : ∃ k, (process (maxAvgConfig 1 1 2) startsWithId).Run
      (FromGroupers 1 twoSent) k ∧ ∃ e, .eof e ∈ k.state.history.eofsSent ∧ e.clientId = 1 :=
    exists_announced (by decide) hb (ne_nil_of_mem_filteredBatches hb)
  have hannounces : Announces 1 2 twoSent k := announces (by decide) hk
  exact ⟨hlength,k,hk,e,he,hc,(hannounces.eofs e he).1⟩

end FlightsOptimizer.MaxAvg
