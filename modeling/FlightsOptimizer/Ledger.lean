import Mathlib.Algebra.BigOperators.Group.Multiset.Defs
import Mathlib.Data.Multiset.Count
import FlightsOptimizer.Recovery

/-!
# What the counters of a replica stand for

For a stateless deterministic processor behind no duplicate catcher, a replica's
counters for a client always stand for a collection of ids: `messages_received`
is its size, `messages_sent` the number of sends of its members, each member has
a SAVE DONE record of its own, and an id that is no possible duplicate was
counted at most as often as it was freshly delivered. A crash may roll the
counters back, so the collection may lag behind the log; it never runs ahead.

Every saved state satisfies the same, which is what makes it survive a restart
that reads one of them.
-/
namespace FlightsOptimizer.Receiver
open Logger LogGrammar Eof Interruptible

variable {β : Type}

/-- Deliveries of an id that were not marked as redelivered. -/
def freshOf (c : ClientId) (i : MessageId) (d : Delivery β) : Bool :=
  d.clientId == c && d.messageId == i && !d.redelivered

def History.fresh (h : History β) (c : ClientId) (i : MessageId) : ℕ :=
  h.delivered.countP (freshOf c i)

/-- The branch of the aggregation that ends a round for `c` was taken here. -/
def History.Completed (h : History β) (c : ClientId) : Prop := ∃ n, (c,n) ∈ h.completed

/-- The outside only learns more. -/
structure History.Before (h h' : History β) : Prop where
  delivered : h.delivered <:+ h'.delivered
  completed : h.completed <:+ h'.completed

theorem History.Before.refl (h : History β) : h.Before h := ⟨List.suffix_rfl,List.suffix_rfl⟩

theorem History.Before.fresh_le {h h' : History β} (hb : h.Before h') (c : ClientId)
    (i : MessageId) : h.fresh c i ≤ h'.fresh c i :=
  hb.delivered.sublist.countP_le

theorem History.Before.not_completed {h h' : History β} (hb : h.Before h') {c : ClientId}
    (hc : ¬h'.Completed c) : ¬h.Completed c := by
  rintro ⟨n,hn⟩
  exact hc ⟨n,hb.completed.subset hn⟩

section
variable (cfg : Config) (processor : ClientId → MessageId → Handling)

/-- Whether the record of an id carries the S mark. -/
def sentMark (c : ClientId) (i : MessageId) : Bool := decide (0 < (processor c i).records)

def sendsOf (c : ClientId) (i : MessageId) : ℤ := (processor c i).sends

/-- The collection that three counters of client `c` stand for. Once a round of
`c` is complete, `messages_sent` holds what the round assigned to it. -/
structure Account (h : History β) (l : List Line) (c : ClientId) (received : ℕ) (sent : ℤ)
    (duplicates : List MessageId) (K : Multiset MessageId) : Prop where
  saved : K ≤ (savedIds c l : Multiset MessageId)
  card : K.card = received
  sent : cfg.hasSender = true → ¬h.Completed c → sent = (K.map (sendsOf processor c)).sum
  fresh : ∀ i, i ∉ duplicates → K.count i ≤ h.fresh c i

def Accounted (h : History β) (l : List Line) (c : ClientId) (received : ℕ) (sent : ℤ)
    (duplicates : List MessageId) : Prop :=
  ∃ K, Account cfg processor h l c received sent duplicates K

/-- What the disk of a replica guarantees of its own future. -/
structure Sound (h : History β) (l : List Line) : Prop where
  grammar : Grammar True l
  snapshots : Saved (fun s l => ∀ c,
    Accounted cfg processor h l c (s.received c) (s.sent c) (s.duplicates c)) l
  marks : ∀ e ∈ records l, e.2.sent = sentMark processor e.1 e.2.messageId
  delivered : ∀ c i, i ∈ savedIds c l → ∃ d ∈ h.delivered, d.clientId = c ∧ d.messageId = i

/-- What an idle replica guarantees of its memory. -/
structure Balanced (r : Replica β) : Prop where
  sound : Sound cfg processor r.history r.log
  sender : r.memory.sender.isSome = cfg.hasSender
  accounts : ∀ c, Accounted cfg processor r.history r.log c (r.memory.received c)
    (r.memory.sent c) (r.memory.duplicates c)

end

variable {cfg : Config} {processor : ClientId → MessageId → Handling}

theorem Accounted.mono {h h' : History β} {l l' : List Line} {c : ClientId} {received : ℕ}
    {sent : ℤ} {ds ds' : List MessageId}
    (ha : Accounted cfg processor h l c received sent ds) (hh : h.Before h')
    (hl : (savedIds c l).Sublist (savedIds c l')) (hds : ∀ i ∈ ds, i ∈ ds') :
    Accounted cfg processor h' l' c received sent ds' := by
  obtain ⟨K,hK⟩ := ha
  refine ⟨K,hK.saved.trans hl.subperm,hK.card,?_,?_⟩
  · intro hs hc
    exact hK.sent hs (hh.not_completed hc)
  · intro i hi
    have hle : K.count i ≤ h.fresh c i := hK.fresh i fun hm => hi (hds i hm)
    exact hle.trans (hh.fresh_le c i)

theorem accounted_zero (h : History β) (l : List Line) (c : ClientId) (ds : List MessageId) :
    Accounted cfg processor h l c 0 0 ds := by
  refine ⟨0,Multiset.zero_le _,rfl,fun _ _ => rfl,?_⟩
  intro i _
  rw [Multiset.count_zero]
  exact Nat.zero_le _

theorem Sound.mono {h h' : History β} {l : List Line} (hs : Sound cfg processor h l)
    (hh : h.Before h') : Sound cfg processor h' l := by
  refine ⟨hs.grammar,hs.snapshots.mono ?_,hs.marks,?_⟩
  · intro s l ha c
    exact (ha c).mono hh (List.Sublist.refl _) fun _ hi => hi
  · intro c i hi
    obtain ⟨d,hd,he⟩ := hs.delivered c i hi
    exact ⟨d,hh.delivered.subset hd,he⟩

/-- Lines that are no part of a save change nothing that the invariant speaks of. -/
theorem Sound.of_same {h : History β} {l l' : List Line} (hs : Sound cfg processor h l)
    (hg : Grammar True l') (hsaved : ∀ Q, Saved Q l → Saved Q l')
    (hr : records l' = records l) (hids : ∀ c, savedIds c l' = savedIds c l) :
    Sound cfg processor h l' := by
  refine ⟨hg,hsaved _ hs.snapshots,?_,?_⟩
  · rw [hr]
    exact hs.marks
  · intro c i hi
    rw [hids] at hi
    exact hs.delivered c i hi

theorem sound_opened {h : History β} {l : List Line} (hs : Sound cfg processor h l)
    (m : MessageId) (c : ClientId) (j : ℕ) : Sound cfg processor h (opened m c j l) :=
  hs.of_same (grammar_opened hs.grammar) (fun _ => saved_opened) (records_opened m c j l)
    (savedIds_opened m c j l)

theorem sound_replicate {h : History β} {l : List Line} (hs : Sound cfg processor h l) (k : ℕ)
    (ids : Option (MessageId × ClientId)) :
    Sound cfg processor h (List.replicate k (.sent ids) ++ l) :=
  hs.of_same (grammar_replicate hs.grammar k ids) (fun _ hq => saved_replicate hq k ids)
    (records_replicate k ids l) fun c => savedIds_replicate k ids c l

theorem sent_currentState (mem : Memory) (c : ClientId) :
    mem.currentState.sent c = mem.sent c := by
  unfold Memory.currentState State.sent Memory.sent
  cases mem.sender <;> rfl

theorem fresh_cons {h h' : History β} {d : Delivery β} (hd : h'.delivered = d :: h.delivered)
    (c : ClientId) (i : MessageId) :
    h'.fresh c i = h.fresh c i + if freshOf c i d then 1 else 0 := by
  unfold History.fresh
  rw [hd,List.countP_cons]

section
variable {r : Replica β} {d : Delivery β} {h' : History β}

/-- The saved message joins the collection of its client. -/
theorem accounted_processed (hr : Balanced cfg processor r)
    (hd : h'.delivered = d :: r.history.delivered) (hc : h'.completed = r.history.completed)
    (c : ClientId) :
    Accounted cfg processor h' (d.savedLog cfg (processor d.clientId d.messageId) r) c
      ((r.memory.processed cfg d (processor d.clientId d.messageId)).received c)
      ((r.memory.processed cfg d (processor d.clientId d.messageId)).sent c)
      ((r.memory.processed cfg d (processor d.clientId d.messageId)).duplicates c) := by
  have hbefore : r.history.Before h' := ⟨hd ▸ List.suffix_cons _ _,hc ▸ List.suffix_rfl⟩
  have hsaved : ∀ e, savedIds e (d.savedLog cfg (processor d.clientId d.messageId) r) =
      if d.clientId = e then d.messageId :: savedIds e r.log else savedIds e r.log := by
    intro e
    unfold Delivery.savedLog
    rw [savedIds_saved,savedIds_opened]
  have hdup : (r.memory.processed cfg d (processor d.clientId d.messageId)).duplicates c =
      r.memory.duplicates c ++
        if d.redelivered = true ∧ d.clientId = c then [d.messageId] else [] := by
    rw [duplicates_processed,duplicates_opening]
  obtain ⟨K,hK⟩ := hr.accounts c
  rw [received_processed,hdup]
  by_cases he : d.clientId = c
  · refine ⟨d.messageId ::ₘ K,?_,?_,?_,?_⟩
    · rw [hsaved,if_pos he]
      exact (Multiset.cons_le_cons_iff d.messageId).mpr hK.saved
    · rw [if_pos he,Multiset.card_cons,hK.card]
    · intro hs hnc
      have hsome : r.memory.sender.isSome = true := hr.sender.trans hs
      have hsum := hK.sent hs (hbefore.not_completed hnc)
      rw [sent_processed cfg d _ hsome,if_pos he,Multiset.map_cons,Multiset.sum_cons,hsum,add_comm]
      unfold sendsOf
      rw [he]
    · intro i hi
      have hnot : i ∉ r.memory.duplicates c := fun hm => hi (List.mem_append_left _ hm)
      have hle := hK.fresh i hnot
      rw [Multiset.count_cons,fresh_cons hd]
      by_cases hm : i = d.messageId
      · have hfresh : freshOf c i d = true := by
          cases hred : d.redelivered with
          | false => simp [freshOf,he,hm,hred]
          | true =>
              have hmem : i ∈ (if d.redelivered = true ∧ d.clientId = c then [d.messageId]
                  else []) := by
                rw [if_pos ⟨hred,he⟩,hm]
                exact List.mem_singleton_self _
              exact absurd (List.mem_append_right _ hmem) hi
        rw [if_pos hm,if_pos hfresh]
        omega
      · rw [if_neg hm]
        omega
  · refine ⟨K,?_,?_,?_,?_⟩
    · rw [hsaved,if_neg he]
      exact hK.saved
    · rw [if_neg he]
      exact hK.card
    · intro hs hnc
      have hsome : r.memory.sender.isSome = true := hr.sender.trans hs
      rw [sent_processed cfg d _ hsome,if_neg he,add_zero]
      exact hK.sent hs (hbefore.not_completed hnc)
    · intro i hi
      have hnot : i ∉ r.memory.duplicates c := fun hm => hi (List.mem_append_left _ hm)
      exact (hK.fresh i hnot).trans (hbefore.fresh_le c i)

theorem sound_savedLog (hr : Balanced cfg processor r)
    (hd : h'.delivered = d :: r.history.delivered) (hc : h'.completed = r.history.completed) :
    Sound cfg processor h' (d.savedLog cfg (processor d.clientId d.messageId) r) := by
  have hbefore : r.history.Before h' := ⟨hd ▸ List.suffix_cons _ _,hc ▸ List.suffix_rfl⟩
  have hopened := sound_opened (hr.sound.mono hbefore) d.messageId d.clientId
    (processor d.clientId d.messageId).records
  refine ⟨grammar_savedLog hr.sound.grammar,hopened.snapshots.save ?_,?_,?_⟩
  · intro c
    rw [sent_currentState]
    exact accounted_processed hr hd hc c
  · intro e he
    unfold Delivery.savedLog at he
    rw [records_saved,opened_head] at he
    rcases List.mem_cons.mp he with rfl | he
    · rfl
    · exact hopened.marks e he
  · intro c i hi
    unfold Delivery.savedLog at hi
    rw [savedIds_saved] at hi
    split_ifs at hi with hcl
    · rcases List.mem_cons.mp hi with rfl | hi
      · exact ⟨d,hd ▸ List.mem_cons_self,hcl,rfl⟩
      · exact hopened.delivered c i hi
    · exact hopened.delivered c i hi

theorem sound_commit (hr : Balanced cfg processor r)
    (hd : h'.delivered = d :: r.history.delivered) (hc : h'.completed = r.history.completed) :
    Sound cfg processor h' (.commit d.messageId d.clientId ::
      d.savedLog cfg (processor d.clientId d.messageId) r) :=
  (sound_savedLog hr hd hc).of_same (grammar_commit hr.sound.grammar) (fun _ hq => hq.cons rfl)
    (records_cons rfl _) fun c => savedIds_cons rfl c _

theorem sound_crashed {t : Replica β} (hr : Balanced cfg processor r)
    (ht : Crashed cfg d (processor d.clientId d.messageId) r t) :
    Sound cfg processor t.history t.log := by
  have hbefore : r.history.Before t.history :=
    ⟨ht.delivered ▸ List.suffix_cons _ _,ht.completed ▸ List.suffix_rfl⟩
  unfold Replica.log
  rcases log_of_interrupted ht.files with hl | ⟨j,hl⟩ | ⟨_,hl⟩ | ⟨_,hl⟩ <;> rw [hl]
  · exact hr.sound.mono hbefore
  · exact sound_opened (hr.sound.mono hbefore) _ _ j
  · exact sound_savedLog hr ht.delivered ht.completed
  · exact sound_commit hr ht.delivered ht.completed

theorem balanced_complete {belongs : MessageId → MessageId → Bool}
    (hr : Balanced cfg processor r) : Balanced cfg processor ((process cfg belongs).execAll
      (callback cfg d (processor d.clientId d.messageId)) (deliver d r)) := by
  have hcrashed := callback_throughout cfg belongs d (processor d.clientId d.messageId) r _
    List.prefix_rfl
  have hsound := sound_crashed hr hcrashed
  have hbefore : r.history.Before ((process cfg belongs).execAll
      (callback cfg d (processor d.clientId d.messageId)) (deliver d r)).history :=
    ⟨hcrashed.delivered ▸ List.suffix_cons _ _,hcrashed.completed ▸ List.suffix_rfl⟩
  cases hready : (processor d.clientId d.messageId).ready with
  | false =>
      rw [callback_notReady cfg belongs hready] at hsound hbefore ⊢
      refine ⟨hsound,?_,?_⟩
      · simp only [opening_eq]
        exact hr.sender
      · intro c
        simp only [received_opening,sent_opening]
        refine (hr.accounts c).mono hbefore ?_ ?_
        · exact (savedIds_opened d.messageId d.clientId 0 r.log c).symm ▸ List.Sublist.refl _
        · intro i hi
          rw [duplicates_opening]
          exact List.mem_append_left _ hi
  | true =>
      obtain ⟨es,hes⟩ := callback_ready cfg belongs hready r
      rw [hes] at hsound hbefore hcrashed ⊢
      refine ⟨hsound,?_,?_⟩
      · simp only [processed_eq,Option.isSome_map]
        exact hr.sender
      · intro c
        refine (accounted_processed hr hcrashed.delivered hcrashed.completed c).mono
          (.refl _) ?_ fun _ hi => hi
        simp only [Replica.log,savedIds_finish]
        exact List.Sublist.refl _

end

section
variable {belongs : MessageId → MessageId → Bool} {r t : Replica β}

theorem EofTouched.before {c : ClientId} (ht : EofTouched c r t) : r.history.Before t.history :=
  ⟨ht.delivered ▸ List.suffix_rfl,ht.completed⟩

theorem sound_touched {c : ClientId} (hr : Sound cfg processor r.history r.log)
    (ht : EofTouched c r t) : Sound cfg processor t.history t.log := by
  obtain ⟨k,hk⟩ := ht.files
  have hl : t.log = List.replicate k (.sent r.memory.currentIds) ++ r.log :=
    congrArg Files.communication hk
  rw [hl]
  exact sound_replicate (hr.mono ht.before) k _

theorem savedIds_touched {c : ClientId} (ht : EofTouched c r t) (e : ClientId) :
    savedIds e t.log = savedIds e r.log := by
  obtain ⟨k,hk⟩ := ht.files
  have hl : t.log = List.replicate k (.sent r.memory.currentIds) ++ r.log :=
    congrArg Files.communication hk
  rw [hl,savedIds_replicate]

/-- On a queue the sender's counter of a client changes only where its round ends. -/
theorem balanced_callbackEof (hq : cfg.routingKey = false) (hr : Balanced cfg processor r)
    (hasMessages : Bool) (t : Token) : Balanced cfg processor
      ((process cfg belongs).execAll (callbackEof cfg r hasMessages t) r) := by
  rcases quiet_callbackEof cfg r hasMessages hq t with hquiet | ⟨n,ds,hsync⟩
  · rw [execAll_quiet cfg belongs hquiet]
    exact hr
  · have ht := callbackEof_touched cfg belongs r hasMessages t
    have hcompleted := mem_completed cfg belongs hsync r
    refine ⟨sound_touched hr.sound ht,ht.sender.trans hr.sender,?_⟩
    intro c
    have hl : (savedIds c r.log).Sublist (savedIds c ((process cfg belongs).execAll
        (callbackEof cfg r hasMessages t) r).log) := by rw [savedIds_touched ht c]
    obtain ⟨K,hK⟩ := (hr.accounts c).mono ht.before hl fun _ hi => hi
    refine ⟨K,hK.saved,?_,?_,?_⟩
    · unfold Memory.received
      rw [ht.messagesReceived]
      exact hK.card
    · intro hs hnc
      have hne : c ≠ t.clientId := fun he => hnc ⟨n,he ▸ hcompleted⟩
      rw [ht.sent c hne]
      exact hK.sent hs hnc
    · unfold Memory.duplicates
      rw [ht.possibleDuplicates]
      exact hK.fresh

/-- What the restorer answers on a reachable log: nothing, or a saved state whose
duplicates may have grown by one. -/
theorem restored_cases {l : List Line} (hg : Grammar True l) {a : RestoreState}
    (ha : (restoreCommunication l).restored = some a) :
    (∀ c, a.messagesReceived.getD c 0 = 0) ∧ (∀ c, a.messagesSent.getD c 0 = 0) ∨
      ∃ s m c t, saved m c s t <:+ l ∧
        (∀ c, a.messagesReceived.getD c 0 = s.received c) ∧
        (∀ c, a.messagesSent.getD c 0 = s.sent c) ∧
        ∀ c, ∀ i ∈ s.duplicates c, i ∈ a.possibleDuplicates.getD c [] := by
  have hgrows : ∀ (d : Dict ClientId (List MessageId)) m e c, ∀ i ∈ d.getD c [],
      i ∈ (d.set e (d.getD e [] ++ [m])).getD c [] := by
    intro d m e c i hi
    rw [Dict.getD_set]
    split_ifs with hc
    · rw [hc]
      exact List.mem_append_left _ hi
    · exact hi
  rcases hg.restore_cases with h₀ | ⟨ty,m,e,st,h₁,hst⟩
  · rw [h₀] at ha
    cases ha
    exact Or.inl ⟨fun _ => rfl,fun _ => rfl⟩
  · rw [h₁] at ha
    cases st with
    | none =>
        left
        cases ty <;> cases ha <;> exact ⟨fun _ => rfl,fun _ => rfl⟩
    | some s =>
        right
        obtain ⟨m',c',t,hsuf⟩ := hst s rfl
        refine ⟨s,m',c',t,hsuf,?_⟩
        cases ty <;> cases ha
        · exact ⟨fun _ => rfl,fun _ => rfl,fun _ _ hi => hi⟩
        · exact ⟨fun _ => rfl,fun _ => rfl,hgrows _ m e⟩
        · exact ⟨fun _ => rfl,fun _ => rfl,hgrows _ m e⟩

/-- The dictionaries of a restarted replica come from a saved state, or are empty. -/
theorem recover_counters (hg : Grammar True r.log) (h : recover cfg belongs r = some t) :
    t.memory.sender.isSome = cfg.hasSender ∧ t.history = r.history ∧
      ((∀ c, t.memory.received c = 0 ∧ t.memory.sent c = 0) ∨
      ∃ s m c l, saved m c s l <:+ r.log ∧ ∀ c, t.memory.received c = s.received c ∧
        (cfg.hasSender = true → t.memory.sent c = s.sent c) ∧
        ∀ i ∈ s.duplicates c, i ∈ t.memory.duplicates c) := by
  unfold recover at h
  obtain ⟨a,ha,rfl⟩ := Option.map_eq_some_iff.mp h
  rw [restore_fst] at ha
  have hsender : (Memory.restored cfg a (Logger.restore belongs r.files).2).sender.isSome =
      cfg.hasSender := by
    unfold Memory.restored
    cases cfg.hasSender <;> rfl
  have hsent : ∀ c, (Memory.restored cfg a (Logger.restore belongs r.files).2).sent c =
      if cfg.hasSender then a.messagesSent.getD c 0 else 0 := by
    intro c
    unfold Memory.restored Memory.sent
    cases cfg.hasSender <;> rfl
  refine ⟨hsender,rfl,?_⟩
  rcases restored_cases hg ha with ⟨hrec,hs⟩ | ⟨s,m,c,l,hsuf,hrec,hs,hdup⟩
  · refine Or.inl fun c => ⟨hrec c,?_⟩
    rw [hsent,hs c,ite_self]
  · refine Or.inr ⟨s,m,c,l,hsuf,fun e => ⟨hrec e,?_,hdup e⟩⟩
    intro hh
    rw [hsent,if_pos hh]
    exact hs e

theorem balanced_recover (hr : Sound cfg processor r.history r.log)
    (h : recover cfg belongs r = some t) : Balanced cfg processor t := by
  obtain ⟨hsender,hhist,hcount⟩ := recover_counters hr.grammar h
  have hlog : t.log = r.log := recover_log h
  refine ⟨hhist ▸ hlog ▸ hr,hsender,?_⟩
  intro c
  rcases hcount with hzero | ⟨s,m,d,l,hsuf,hs⟩
  · rw [(hzero c).1,(hzero c).2]
    exact accounted_zero _ _ c _
  · obtain ⟨hrec,hsent,hdup⟩ := hs c
    obtain ⟨K,hK⟩ := (hr.snapshots m d s l hsuf c).mono (.refl _)
      (hlog ▸ savedIds_sublist hsuf c) hdup
    refine ⟨K,hK.saved,hK.card.trans hrec.symm,?_,?_⟩
    · intro hs hnc
      rw [hsent hs]
      exact hK.sent hs (hhist ▸ hnc)
    · exact hhist ▸ hK.fresh

end

/-- The processor answers an id in one way, however often it is delivered. -/
def Deterministic (processor : ClientId → MessageId → Handling)
    (_ : Interruptible.Config (Replica β) (Action β)) : Event (Work β) → Prop
  | .begin (.data d h) => h = processor d.clientId d.messageId
  | _ => True

theorem ledger_survives {belongs : MessageId → MessageId → Bool}
    (hq : cfg.routingKey = false) (hd : cfg.useDuplicateCatcher = false) :
    (process (β := β) cfg belongs).Survives (Deterministic processor)
      (Balanced cfg processor) fun r => Sound cfg processor r.history r.log where
  init := by
    refine ⟨⟨.empty,saved_nil _,?_,?_⟩,?_,?_⟩
    · intro e he
      cases he
    · intro c i hi
      cases hi
    · simp only [process,fresh,Memory.restored]
      cases cfg.hasSender <;> rfl
    · intro c
      have hs : (fresh cfg : Replica β).memory.sent c = 0 := by
        simp only [fresh,Memory.restored,Memory.sent]
        cases cfg.hasSender <;> rfl
      have hz : Accounted cfg processor (fresh cfg : Replica β).history [] c 0 0
          ((fresh cfg : Replica β).memory.duplicates c) := accounted_zero _ _ _ _
      rw [← hs] at hz
      exact hz
  kept := fun _ h => h.sound
  complete := by
    intro e r t program hr hg hb
    cases e with
    | eof t hasMessages =>
        cases hb
        exact balanced_callbackEof hq hr hasMessages t
    | data d h =>
        have hh : h = processor d.clientId d.messageId := hg
        subst hh
        obtain ⟨rfl,rfl⟩ := begin_data_uncaught cfg belongs hd hb
        exact balanced_complete hr
  through := by
    intro e r t program hr hg hb
    cases e with
    | eof t hasMessages =>
        cases hb
        exact (callbackEof_throughout cfg belongs r hasMessages t).mono fun s hs =>
          sound_touched hr.sound hs
    | data d h =>
        have hh : h = processor d.clientId d.messageId := hg
        subst hh
        obtain ⟨rfl,rfl⟩ := begin_data_uncaught cfg belongs hd hb
        exact (callback_throughout cfg belongs d _ r).mono fun s hs => sound_crashed hr hs
  recovered := fun _ _ hk _ ht => balanced_recover hk ht

end FlightsOptimizer.Receiver
