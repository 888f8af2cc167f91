import FlightsOptimizer.Recovery

/-!
# Exactly-once persistence behind a duplicate catcher

A stateful receiver with a duplicate catcher keeps three files for a client: its
connection log, its duplicate-catcher log, and the SAVE DONE records of the
communication log. They are appended one after the other. `Persisted` is what an
idle replica guarantees of them; `Unfinished` is what a killed one still keeps,
with at most one line too many in each of the first two, always the line of the
message whose START is the last one. A restart removes exactly these lines.

`exactly_once` takes the test that decides whether a line belongs to the unfinished
message as equality of ids. The invariants themselves ask of a restart only that it
loses no saved line, `keepsSaved`, whatever the test is and wherever SENT records
stand.
-/
namespace FlightsOptimizer.Receiver
open Logger LogGrammar Eof Interruptible

variable {β : Type} {cfg : Config}

/-- The test that the deletions stand for. -/
def sameId (line messageId : MessageId) : Bool := line == messageId

theorem sameId_self (m : MessageId) : sameId m m = true := beq_self_eq_true m

theorem startsWithId_self (m : MessageId) : startsWithId m m = true :=
  List.isPrefixOf_iff_prefix.mpr List.prefix_rfl

def connectionIds (c : ClientId) (f : Files β) : List MessageId :=
  (f.connection.getD c []).map Prod.fst

def duplicateIds (c : ClientId) (f : Files β) : List MessageId := f.duplicateCatcher.getD c []

/-- What a deletion leaves of a file. -/
def dropOwn (belongs : MessageId → MessageId → Bool) (m : MessageId) :
    List MessageId → List MessageId
  | [] => []
  | x :: xs => if belongs x m then xs else x :: xs

theorem getD_appendLine {γ : Type} (d : ClientId) (line : γ) (file : Dict ClientId (List γ))
    (c : ClientId) : (appendLine d line file).getD c [] =
      if d = c then line :: file.getD c [] else file.getD c [] := by
  unfold appendLine
  rw [Dict.getD_set]
  split_ifs with h
  · rw [h]
  · rfl

section
variable (belongs : MessageId → MessageId → Bool)

theorem getD_deleteLastLine {γ : Type} (lineId : γ → MessageId) (m : MessageId) (d : ClientId)
    (file : Dict ClientId (List γ)) (c : ClientId) :
    ((deleteLastLine belongs lineId m d file).getD c []).map lineId =
      if d = c then dropOwn belongs m ((file.getD c []).map lineId)
      else (file.getD c []).map lineId := by
  unfold deleteLastLine
  cases hf : file.get? d with
  | none =>
      split_ifs with h
      · subst h
        simp only [Dict.getD,hf]
        rfl
      · rfl
  | some lines =>
      cases lines with
      | nil =>
          split_ifs with h
          · subst h
            simp only [Dict.getD,hf]
            rfl
          · rfl
      | cons line rest =>
          cases hm : belongs (lineId line) m with
          | true =>
              simp only [hm,if_true,Dict.getD_set]
              split_ifs with h
              · subst h
                simp only [Dict.getD,hf,Option.getD_some,List.map_cons,dropOwn,hm,if_true]
              · rfl
          | false =>
              simp only [hm,Bool.false_eq_true,if_false]
              split_ifs with h
              · subst h
                simp only [Dict.getD,hf,Option.getD_some,List.map_cons,dropOwn,hm,
                  Bool.false_eq_true,if_false]
              · rfl

theorem connectionIds_delete (m : MessageId) (d : ClientId) (f : Files β) (c : ClientId) :
    connectionIds c (deleteConnectionMessages belongs m d f) =
      if d = c then dropOwn belongs m (connectionIds c f) else connectionIds c f :=
  getD_deleteLastLine belongs Prod.fst m d f.connection c

theorem duplicateIds_delete (m : MessageId) (d : ClientId) (f : Files β) (c : ClientId) :
    duplicateIds c (deleteDuplicateCatcherMessages belongs m d f) =
      if d = c then dropOwn belongs m (duplicateIds c f) else duplicateIds c f := by
  have h := getD_deleteLastLine belongs id m d f.duplicateCatcher c
  simp only [List.map_id] at h
  exact h

end

theorem dropOwn_of_not_mem {m : MessageId} {ids : List MessageId} (h : m ∉ ids) :
    dropOwn sameId m ids = ids := by
  cases ids with
  | nil => rfl
  | cons x xs =>
      have hx : sameId x m = false := beq_false_of_ne fun he => h (he ▸ List.mem_cons_self)
      exact if_neg (ne_true_of_eq_false hx)

/-- A deletion that loses none of some distinct ids leaves them as they are. -/
theorem dropOwn_of_subset {belongs : MessageId → MessageId → Bool} {m : MessageId}
    {ids : List MessageId} (hn : ids.Nodup) (h : ids ⊆ dropOwn belongs m ids) :
    dropOwn belongs m ids = ids := by
  cases ids with
  | nil => rfl
  | cons x xs =>
      simp only [dropOwn] at h ⊢
      split_ifs at h ⊢
      · exact absurd (h List.mem_cons_self) (List.nodup_cons.mp hn).1
      · rfl

theorem dropOwn_cons {belongs : MessageId → MessageId → Bool} {m : MessageId}
    (h : belongs m m = true) (ids : List MessageId) : dropOwn belongs m (m :: ids) = ids :=
  if_pos h

theorem connectionIds_saveConnection (m : MessageId) (d : ClientId) (p : β) (f : Files β)
    (c : ClientId) : connectionIds c (saveConnection m d p f) =
      if d = c then m :: connectionIds c f else connectionIds c f := by
  unfold connectionIds saveConnection
  rw [getD_appendLine]
  split_ifs <;> rfl

theorem duplicateIds_saveDuplicateCatcher (m : MessageId) (d : ClientId) (f : Files β)
    (c : ClientId) : duplicateIds c (saveDuplicateCatcher m d f) =
      if d = c then m :: duplicateIds c f else duplicateIds c f :=
  getD_appendLine d m f.duplicateCatcher c

theorem mem_isDuplicate (m : MessageId) (d : DuplicateCatcher) (x : MessageId) :
    x ∈ (d.isDuplicate m).2.messagesId ↔ x = m ∨ x ∈ d.messagesId := by
  unfold DuplicateCatcher.isDuplicate
  split_ifs with hm
  · constructor
    · exact Or.inr
    · rintro (rfl | hx)
      · exact hm
      · exact hx
  · exact Finset.mem_insert

theorem mem_ofMessages (ids : List MessageId) (x : MessageId) :
    x ∈ (DuplicateCatcher.ofMessages ids).messagesId ↔ x ∈ ids := by
  have hfold : ∀ (ids : List MessageId) (d : DuplicateCatcher),
      x ∈ (ids.foldl (fun d m => (d.isDuplicate m).2) d).messagesId ↔
        x ∈ ids ∨ x ∈ d.messagesId := by
    intro ids
    induction ids with
    | nil =>
        intro d
        simp
    | cons m ids ih =>
        intro d
        rw [List.foldl_cons,ih,mem_isDuplicate,List.mem_cons]
        tauto
  have hempty : x ∉ DuplicateCatcher.empty.messagesId := Finset.notMem_empty x
  unfold DuplicateCatcher.ofMessages
  rw [hfold]
  tauto

/-- The saved ids, or one more on top: that of the open message. -/
def AtMostOpen (c : ClientId) (l : List Line) (ids : List MessageId) : Prop :=
  ids = savedIds c l ∨ ∃ m, Open m c l ∧ ids = m :: savedIds c l

/-- What files and acknowledgements keep at every boundary. -/
structure Unfinished (free : Prop) (f : Files β) (acked : List (MessageId × ClientId)) : Prop where
  grammar : Grammar free f.communication
  distinct : ∀ c, (savedIds c f.communication).Nodup
  opened : ∀ m c, Open m c f.communication → m ∉ savedIds c f.communication
  connection : ∀ c, AtMostOpen c f.communication (connectionIds c f)
  duplicates : ∀ c, AtMostOpen c f.communication (duplicateIds c f)
  acked : ∀ m c, (m,c) ∈ acked → m ∈ savedIds c f.communication

/-- The three records of a client hold the same ids, each of them once, and hold
all that were acknowledged. -/
structure Persisted (r : Replica β) (c : ClientId) : Prop where
  connection : connectionIds c r.files = savedIds c r.log
  duplicates : duplicateIds c r.files = savedIds c r.log
  distinct : (savedIds c r.log).Nodup
  acked : ∀ m, (m,c) ∈ r.history.acked → m ∈ savedIds c r.log

/-- Between two messages the catcher knows every saved id. It may know more, those
of messages that were not ready. -/
structure Settled (free : Prop) (r : Replica β) : Prop where
  unfinished : Unfinished free r.files r.history.acked
  connection : ∀ c, connectionIds c r.files = savedIds c r.log
  duplicates : ∀ c, duplicateIds c r.files = savedIds c r.log
  caught : ∀ m c, m ∈ savedIds c r.log → m ∈ (r.memory.duplicateCatcher c).messagesId

variable {free : Prop}

theorem Settled.persisted {r : Replica β} (h : Settled free r) (c : ClientId) : Persisted r c :=
  ⟨h.connection c,h.duplicates c,h.unfinished.distinct c,fun m => h.unfinished.acked m c⟩

section
variable (belongs : MessageId → MessageId → Bool) (f : Files β)

/-- A restart from these files takes no line of a saved message away. -/
def keepsSaved : Bool :=
  match restoreCommunication f.communication with
  | .found ⟨.sent,_,c,_⟩ =>
      let g := (Logger.restore belongs f).2
      (savedIds c f.communication).all fun m =>
        decide (m ∈ connectionIds c g) && decide (m ∈ duplicateIds c g)
  | _ => true

theorem restore_snd :
    (∃ m c s, restoreCommunication f.communication = .found ⟨.sent,m,c,s⟩ ∧
      (Logger.restore belongs f).2 =
        deleteDuplicateCatcherMessages belongs m c (deleteConnectionMessages belongs m c f)) ∨
    (∀ m c s, restoreCommunication f.communication ≠ .found ⟨.sent,m,c,s⟩) ∧
      (Logger.restore belongs f).2 = f := by
  unfold Logger.restore
  split
  · next m c s h => exact Or.inl ⟨m,c,s,h,rfl⟩
  · next h => exact Or.inr ⟨h,rfl⟩

end

section
variable {belongs : MessageId → MessageId → Bool} {f : Files β}
variable {acked : List (MessageId × ClientId)} {m : MessageId} {d : ClientId} {s : Option State}

variable (belongs) in
theorem connectionIds_restore (hr : restoreCommunication f.communication = .found ⟨.sent,m,d,s⟩)
    (c : ClientId) : connectionIds c (Logger.restore belongs f).2 =
      if d = c then dropOwn belongs m (connectionIds c f) else connectionIds c f := by
  rw [← connectionIds_delete]
  unfold Logger.restore
  rw [hr]
  rfl

variable (belongs) in
theorem duplicateIds_restore (hr : restoreCommunication f.communication = .found ⟨.sent,m,d,s⟩)
    (c : ClientId) : duplicateIds c (Logger.restore belongs f).2 =
      if d = c then dropOwn belongs m (duplicateIds c f) else duplicateIds c f := by
  rw [← duplicateIds_delete belongs m d f c]
  unfold Logger.restore
  rw [hr]
  rfl

theorem keepsSaved_iff (hr : restoreCommunication f.communication = .found ⟨.sent,m,d,s⟩) :
    keepsSaved belongs f = true ↔
      savedIds d f.communication ⊆ dropOwn belongs m (connectionIds d f) ∧
      savedIds d f.communication ⊆ dropOwn belongs m (duplicateIds d f) := by
  have hc := connectionIds_restore belongs hr d
  have hd := duplicateIds_restore belongs hr d
  rw [if_pos rfl] at hc hd
  unfold keepsSaved
  rw [hr,← hc,← hd]
  simp only [List.all_eq_true,Bool.and_eq_true,decide_eq_true_eq]
  exact forall₂_and

/-- A restart that loses no saved line takes one line of an open message away, if
there is one. Then the three records agree. -/
theorem restore_ids (hself : ∀ m, belongs m m = true) (h : Unfinished free f acked)
    (hk : keepsSaved belongs f = true) (c : ClientId) :
    connectionIds c (Logger.restore belongs f).2 = savedIds c f.communication ∧
      duplicateIds c (Logger.restore belongs f).2 = savedIds c f.communication := by
  rcases restore_snd belongs f with ⟨m,d,s,hr,-⟩ | ⟨hno,hf⟩
  · obtain ⟨t,ht⟩ := h.grammar.skipTo_of_restore hr
    obtain ⟨hconnection,hduplicates⟩ := (keepsSaved_iff hr).mp hk
    -- at most the open message's id lies above the saved ones, and only at its own client
    have drop : ∀ ids, AtMostOpen c f.communication ids →
        (d = c → savedIds d f.communication ⊆ dropOwn belongs m ids) →
        (if d = c then dropOwn belongs m ids else ids) = savedIds c f.communication := by
      rintro ids (rfl | ⟨m',ho,rfl⟩) hsub
      · split_ifs with hdc
        · exact dropOwn_of_subset (h.distinct c) (hdc ▸ hsub hdc)
        · rfl
      · obtain ⟨t',ht'⟩ := ho.skipTo_start
        rw [ht] at ht'
        cases ht'
        rw [if_pos rfl,dropOwn_cons (hself m)]
    rw [connectionIds_restore belongs hr,duplicateIds_restore belongs hr]
    exact ⟨drop _ (h.connection c) fun hdc => hdc ▸ hconnection,
      drop _ (h.duplicates c) fun hdc => hdc ▸ hduplicates⟩
  · have hopen : ∀ m, ¬Open m c f.communication := by
      intro m ho
      obtain ⟨t,ht⟩ := ho.skipTo_start
      exact hno _ _ _ (ho.restore h.grammar ht)
    rw [hf]
    exact ⟨(h.connection c).resolve_right fun ⟨m,ho,_⟩ => hopen m ho,
      (h.duplicates c).resolve_right fun ⟨m,ho,_⟩ => hopen m ho⟩

/-- Without stray SENT records, and with the test that is meant, none is lost. -/
theorem keepsSaved_sameId (h : Unfinished False f acked) : keepsSaved sameId f = true := by
  rcases restore_snd sameId f with ⟨m,d,s,hr,-⟩ | ⟨hno,-⟩
  · obtain ⟨m',d',ho⟩ := h.grammar.open_or_closed.resolve_right fun hclosed => hclosed.2 m d s hr
    obtain ⟨t,ht⟩ := ho.skipTo_start
    cases (ho.restore h.grammar ht).symm.trans hr
    have drop : ∀ ids, AtMostOpen d f.communication ids →
        savedIds d f.communication ⊆ dropOwn sameId m ids := by
      rintro ids (rfl | ⟨m',ho',rfl⟩)
      · rw [dropOwn_of_not_mem (h.opened m d ho)]
        exact List.Subset.refl _
      · obtain ⟨rfl,-⟩ := ho.unique ho'
        rw [dropOwn_cons (sameId_self m)]
        exact List.Subset.refl _
    exact (keepsSaved_iff hr).mpr ⟨drop _ (h.connection d),drop _ (h.duplicates d)⟩
  · unfold keepsSaved
    split
    · next m c s hr => exact absurd hr (hno m c s)
    · rfl

end

theorem duplicateCatcher_restored (hd : cfg.useDuplicateCatcher = true) (s : RestoreState)
    (f : Files β) (c : ClientId) :
    (Memory.restored cfg s f).duplicateCatcher c = .ofMessages (duplicateIds c f) := by
  unfold Memory.restored Memory.duplicateCatcher duplicateIds
  simp only [hd,if_true,Dict.getD,Dict.get?_mapValues]
  cases f.duplicateCatcher.get? c <;> rfl

/-- A restart comes up, settled, with a catcher that knows the saved ids exactly. -/
theorem settled_recover {belongs : MessageId → MessageId → Bool} (hself : ∀ m, belongs m m = true)
    (hd : cfg.useDuplicateCatcher = true) {r : Replica β}
    (h : Unfinished free r.files r.history.acked) (hk : keepsSaved belongs r.files = true) :
    ∃ t, recover cfg belongs r = some t ∧ Settled free t ∧
      ∀ c m, m ∈ (t.memory.duplicateCatcher c).messagesId ↔ m ∈ savedIds c t.log := by
  have hids := restore_ids hself h hk
  obtain ⟨s,hs⟩ : ∃ s, (Logger.restore belongs r.files).1.restored = some s := by
    rw [restore_fst]
    rcases h.grammar.restore_cases with hn | ⟨ty,m,c,st,hf,_⟩
    · exact ⟨_,by rw [hn]; rfl⟩
    · rw [hf]
      cases ty <;> exact ⟨_,rfl⟩
  have hlog : (Logger.restore belongs r.files).2.communication = r.files.communication :=
    restore_communication r.files
  have hcatch : ∀ c m, m ∈ ((Memory.restored cfg s
      (Logger.restore belongs r.files).2).duplicateCatcher c).messagesId ↔
        m ∈ savedIds c r.files.communication := by
    intro c m
    rw [duplicateCatcher_restored hd,mem_ofMessages,(hids c).2]
  refine ⟨⟨(Logger.restore belongs r.files).2,
    .restored cfg s (Logger.restore belongs r.files).2,r.history⟩,?_,⟨?_,?_,?_,?_⟩,?_⟩
  · unfold recover
    simp only [hs,Option.map_some]
  · refine ⟨?_,?_,?_,?_,?_,?_⟩ <;> simp only [hlog]
    · exact h.grammar
    · exact h.distinct
    · exact h.opened
    · exact fun c => Or.inl (hids c).1
    · exact fun c => Or.inl (hids c).2
    · exact h.acked
  · intro c
    simp only [Replica.log,hlog]
    exact (hids c).1
  · intro c
    simp only [Replica.log,hlog]
    exact (hids c).2
  · intro m c hm
    simp only [Replica.log,hlog] at hm
    exact (hcatch c m).mpr hm
  · intro c m
    simp only [Replica.log,hlog]
    exact hcatch c m

theorem connectionIds_storeConnection (hs : cfg.hasStatefullProcessor = true) (d : Delivery β)
    (f : Files β) (c : ClientId) : connectionIds c (d.storeConnection cfg f) =
      if d.clientId = c then d.messageId :: connectionIds c f else connectionIds c f := by
  unfold Delivery.storeConnection
  rw [if_pos hs]
  exact connectionIds_saveConnection d.messageId d.clientId d.payload f c

theorem duplicateIds_storeConnection (d : Delivery β) (f : Files β) (c : ClientId) :
    duplicateIds c (d.storeConnection cfg f) = duplicateIds c f := by
  unfold Delivery.storeConnection
  split_ifs <;> rfl

theorem connectionIds_storeDuplicateCatcher (d : Delivery β) (f : Files β) (c : ClientId) :
    connectionIds c (d.storeDuplicateCatcher cfg f) = connectionIds c f := by
  unfold Delivery.storeDuplicateCatcher
  split_ifs <;> rfl

theorem duplicateIds_storeDuplicateCatcher (hd : cfg.useDuplicateCatcher = true) (d : Delivery β)
    (f : Files β) (c : ClientId) : duplicateIds c (d.storeDuplicateCatcher cfg f) =
      if d.clientId = c then d.messageId :: duplicateIds c f else duplicateIds c f := by
  unfold Delivery.storeDuplicateCatcher
  rw [if_pos hd]
  exact duplicateIds_saveDuplicateCatcher d.messageId d.clientId f c

theorem connectionIds_stored (hs : cfg.hasStatefullProcessor = true) (d : Delivery β)
    (h : Handling) (f : Files β) (c : ClientId) : connectionIds c (d.stored cfg h f) =
      if d.clientId = c then d.messageId :: connectionIds c f else connectionIds c f := by
  unfold Delivery.stored
  rw [connectionIds_storeDuplicateCatcher,connectionIds_storeConnection hs]
  rfl

theorem duplicateIds_stored (hd : cfg.useDuplicateCatcher = true) (d : Delivery β)
    (h : Handling) (f : Files β) (c : ClientId) : duplicateIds c (d.stored cfg h f) =
      if d.clientId = c then d.messageId :: duplicateIds c f else duplicateIds c f := by
  unfold Delivery.stored
  rw [duplicateIds_storeDuplicateCatcher hd,duplicateIds_storeConnection]
  rfl

theorem savedIds_savedLog (d : Delivery β) (h : Handling) (r : Replica β) (c : ClientId) :
    savedIds c (d.savedLog cfg h r) =
      if d.clientId = c then d.messageId :: savedIds c r.log else savedIds c r.log := by
  unfold Delivery.savedLog
  rw [savedIds_saved,savedIds_opened]

/-- One more id on top of the saved ones, at the message's own client. -/
theorem atMostOpen_cons {d : Delivery β} {l : List Line} {c : ClientId} {ids : List MessageId}
    (h : ids = savedIds c l) (j : ℕ) :
    AtMostOpen c (opened d.messageId d.clientId j l)
      (if d.clientId = c then d.messageId :: ids else ids) := by
  unfold AtMostOpen
  rw [savedIds_opened]
  split_ifs with hc
  · exact Or.inr ⟨d.messageId,hc ▸ opened_open _ _ _ _,congrArg _ h⟩
  · exact Or.inl h

/-- A new message opens the log, and keeps its id out of the saved ones until its
own save. -/
theorem unfinished_opened {d : Delivery β} {r : Replica β} (hr : Settled free r)
    (hm : d.messageId ∉ savedIds d.clientId r.log) {f : Files β} {j : ℕ}
    (hl : f.communication = opened d.messageId d.clientId j r.log)
    (hc : ∀ c, AtMostOpen c f.communication (connectionIds c f))
    (hd : ∀ c, AtMostOpen c f.communication (duplicateIds c f)) :
    Unfinished free f r.history.acked := by
  refine ⟨?_,?_,?_,hc,hd,?_⟩ <;> rw [hl]
  · exact grammar_opened hr.unfinished.grammar
  · intro c
    rw [savedIds_opened]
    exact hr.unfinished.distinct c
  · intro m c ho
    obtain ⟨rfl,rfl⟩ := (opened_open _ _ _ _).unique ho
    rw [savedIds_opened]
    exact hm
  · intro m c ha
    rw [savedIds_opened]
    exact hr.unfinished.acked m c ha

/-- Once saved, the three records agree again. -/
theorem unfinished_saved {d : Delivery β} {h : Handling} {r : Replica β} (hr : Settled free r)
    (hm : d.messageId ∉ savedIds d.clientId r.log) {f : Files β}
    {acked : List (MessageId × ClientId)}
    (hl : f.communication = d.savedLog cfg h r ∨
      f.communication = .commit d.messageId d.clientId :: d.savedLog cfg h r)
    (hc : ∀ c, connectionIds c f = savedIds c (d.savedLog cfg h r))
    (hd : ∀ c, duplicateIds c f = savedIds c (d.savedLog cfg h r))
    (ha : ∀ m c, (m,c) ∈ acked →
      (m,c) = (d.messageId,d.clientId) ∨ (m,c) ∈ r.history.acked) :
    Unfinished free f acked := by
  have hids : ∀ c, savedIds c f.communication = savedIds c (d.savedLog cfg h r) := by
    intro c
    rcases hl with hl | hl <;> rw [hl]
    exact savedIds_cons rfl c _
  have hg : Grammar free f.communication := by
    rcases hl with hl | hl <;> rw [hl]
    · exact grammar_savedLog hr.unfinished.grammar
    · exact grammar_commit hr.unfinished.grammar
  have hno : ∀ m c, ¬Open m c f.communication := by
    intro m c
    rcases hl with hl | hl <;> rw [hl]
    · exact not_open_saved
    · exact not_open_commit
  refine ⟨hg,?_,fun m c ho => absurd ho (hno m c),fun c => Or.inl ?_,fun c => Or.inl ?_,?_⟩
  · intro c
    rw [hids,savedIds_savedLog]
    have hn := hr.unfinished.distinct c
    split_ifs with hcl
    · subst hcl
      exact List.nodup_cons.mpr ⟨hm,hn⟩
    · exact hn
  · rw [hids]
    exact hc c
  · rw [hids]
    exact hd c
  · intro m c hmem
    rw [hids,savedIds_savedLog]
    rcases ha m c hmem with he | ho
    · cases he
      rw [if_pos rfl]
      exact List.mem_cons_self
    · have hs := hr.unfinished.acked m c ho
      split_ifs
      · exact List.mem_cons_of_mem _ hs
      · exact hs

theorem connectionIds_save (hs : cfg.hasStatefullProcessor = true) {d : Delivery β}
    {h : Handling} {r : Replica β} (hr : Settled free r) (c : ClientId) :
    connectionIds c (d.stored cfg h r.files) = savedIds c (d.savedLog cfg h r) := by
  rw [connectionIds_stored hs,savedIds_savedLog,hr.connection c]

theorem duplicateIds_save (hd : cfg.useDuplicateCatcher = true) {d : Delivery β} {h : Handling}
    {r : Replica β} (hr : Settled free r) (c : ClientId) :
    duplicateIds c (d.stored cfg h r.files) = savedIds c (d.savedLog cfg h r) := by
  rw [duplicateIds_stored hd,savedIds_savedLog,hr.duplicates c]

section
variable (hs : cfg.hasStatefullProcessor = true) (hd : cfg.useDuplicateCatcher = true)
variable {d : Delivery β} {h : Handling} {r : Replica β}
include hs hd

/-- Each of the seven stages of a new message keeps the records unfinished at worst. -/
theorem unfinished_interrupted (hr : Settled free r) (hm : d.messageId ∉ savedIds d.clientId r.log)
    {f : Files β} {acked : List (MessageId × ClientId)} (hi : Interrupted cfg d h r f acked) :
    Unfinished free f acked := by
  have hopen : ∀ j c, AtMostOpen c (opened d.messageId d.clientId j r.log)
      (savedIds c r.log) := by
    intro j c
    exact Or.inl (savedIds_opened _ _ _ _ c).symm
  cases hi with
  | untouched => exact hr.unfinished
  | opened j =>
      refine unfinished_opened hr hm rfl (fun c => ?_) (fun c => ?_)
      · exact (hr.connection c).symm ▸ hopen j c
      · exact (hr.duplicates c).symm ▸ hopen j c
  | connection _ =>
      refine unfinished_opened hr hm (storeConnection_communication d _) (fun c => ?_) fun c => ?_
      · rw [storeConnection_communication,connectionIds_storeConnection hs]
        exact atMostOpen_cons (hr.connection c) h.records
      · rw [storeConnection_communication,duplicateIds_storeConnection]
        exact (hr.duplicates c).symm ▸ hopen h.records c
  | duplicateCatcher _ =>
      refine unfinished_opened hr hm (stored_communication d h _) (fun c => ?_) fun c => ?_
      · rw [stored_communication,connectionIds_stored hs]
        exact atMostOpen_cons (hr.connection c) h.records
      · rw [stored_communication,duplicateIds_stored hd]
        exact atMostOpen_cons (hr.duplicates c) h.records
  | saved _ =>
      exact unfinished_saved hr hm (Or.inl (save_communication d h r)) (connectionIds_save hs hr)
        (duplicateIds_save hd hr) fun m c ha => Or.inr ha
  | acked _ =>
      exact unfinished_saved hr hm (Or.inl (save_communication d h r)) (connectionIds_save hs hr)
        (duplicateIds_save hd hr) fun m c ha => List.mem_cons.mp ha
  | finished _ =>
      have hl : (d.finish cfg h r).communication = d.savedLog cfg h r ∨
          (d.finish cfg h r).communication =
            .commit d.messageId d.clientId :: d.savedLog cfg h r := by
        rw [finish_communication]
        split_ifs
        · exact Or.inl rfl
        · exact Or.inr rfl
      refine unfinished_saved hr hm hl (fun c => ?_) (fun c => ?_) fun m c ha => List.mem_cons.mp ha
      · rw [← connectionIds_save hs hr c]
        unfold Delivery.finish
        split_ifs <;> rfl
      · rw [← duplicateIds_save hd hr c]
        unfold Delivery.finish
        split_ifs <;> rfl

theorem settled_complete (belongs : MessageId → MessageId → Bool) (hr : Settled free r)
    (hm : d.messageId ∉ savedIds d.clientId r.log) :
    Settled free ((process cfg belongs).execAll (callback cfg d h) (deliver d r)) := by
  have hcaught : ∀ mem : Memory, mem.duplicateCatchers = (r.memory.opening cfg d).duplicateCatchers →
      ∀ m c, (m = d.messageId ∧ d.clientId = c) ∨ m ∈ savedIds c r.log →
        m ∈ (mem.duplicateCatcher c).messagesId := by
    intro mem hmem m c hmc
    unfold Memory.duplicateCatcher
    rw [hmem,opening_eq,hd,if_pos rfl,Dict.getD_set]
    split_ifs with hc
    · rw [mem_isDuplicate,hc]
      rcases hmc with ⟨he,_⟩ | hsaved
      · exact Or.inl he
      · exact Or.inr (hr.caught m c hsaved)
    · rcases hmc with ⟨_,he⟩ | hsaved
      · exact absurd he hc
      · exact hr.caught m c hsaved
  cases hh : h.ready with
  | false =>
      rw [callback_notReady cfg belongs hh]
      have hl : ∀ c, savedIds c (opened d.messageId d.clientId 0 r.log) = savedIds c r.log :=
        savedIds_opened _ _ _ _
      have hi : Interrupted cfg d h r (d.opening 0 r.files) r.history.acked := .opened 0
      refine ⟨unfinished_interrupted hs hd hr hm hi,fun c => ?_,fun c => ?_,?_⟩
      · exact (hr.connection c).trans (hl c).symm
      · exact (hr.duplicates c).trans (hl c).symm
      · intro m c hsaved
        exact hcaught _ rfl m c (Or.inr ((hl c) ▸ hsaved))
  | true =>
      obtain ⟨es,hes⟩ := callback_ready cfg belongs hh r
      rw [hes]
      have hl : ∀ c, savedIds c (d.finish cfg h r).communication =
          savedIds c (d.savedLog cfg h r) := savedIds_finish d h r
      refine ⟨unfinished_interrupted hs hd hr hm (.finished hh),fun c => ?_,fun c => ?_,?_⟩
      · simp only [Replica.log,hl,← connectionIds_save hs hr c]
        unfold Delivery.finish
        split_ifs <;> rfl
      · simp only [Replica.log,hl,← duplicateIds_save hd hr c]
        unfold Delivery.finish
        split_ifs <;> rfl
      · intro m c hsaved
        have hmem : (r.memory.processed cfg d h).duplicateCatchers =
            (r.memory.opening cfg d).duplicateCatchers := by
          rw [processed_eq]
        apply hcaught _ hmem
        simp only [Replica.log,hl,savedIds_savedLog] at hsaved
        split_ifs at hsaved with hc
        · rcases List.mem_cons.mp hsaved with he | hold
          · exact Or.inl ⟨he,hc⟩
          · exact Or.inr hold
        · exact Or.inr hsaved

end

/-- A message that the catcher lets through was not saved before. -/
theorem not_saved_of_not_duplicate {r : Replica β} (hr : Settled free r) {m : MessageId}
    {c : ClientId} (h : r.memory.isDuplicate m c = false) : m ∉ savedIds c r.log := by
  intro hm
  have hc := hr.caught m c hm
  unfold Memory.isDuplicate DuplicateCatcher.isDuplicate at h
  rw [if_pos hc] at h
  cases h

/-- An EOF appends SENT records, which the invariants do not see. -/
theorem EofTouched.savedIds {c : ClientId} {r t : Replica β} (h : EofTouched c r t) (d : ClientId) :
    LogGrammar.savedIds d t.log = LogGrammar.savedIds d r.log := by
  obtain ⟨k,hk⟩ := h.files
  unfold Replica.log
  rw [hk]
  exact savedIds_replicate k _ d _

theorem open_replicate {m : MessageId} {c : ClientId} {ids : Option (MessageId × ClientId)}
    {l : List Line} (k : ℕ) : Open m c (List.replicate k (.sent ids) ++ l) ↔ Open m c l := by
  induction k with
  | zero => rfl
  | succ k ih =>
      rw [← ih]
      refine ⟨fun h => ?_,fun h => h.sent ids⟩
      cases h with
      | sent _ h => exact h

theorem Unfinished.eof {c : ClientId} {r t : Replica β}
    (h : Unfinished True r.files r.history.acked) (ht : EofTouched c r t) :
    Unfinished True t.files t.history.acked := by
  have hids := ht.savedIds
  obtain ⟨k,hk⟩ := ht.files
  have hopen : ∀ m c, Open m c t.log ↔ Open m c r.log := by
    intro m c
    unfold Replica.log
    rw [hk]
    exact open_replicate k
  have hat : ∀ c ids, AtMostOpen c r.log ids → AtMostOpen c t.log ids := by
    intro c ids hids'
    unfold AtMostOpen
    simp only [hids,hopen]
    exact hids'
  refine ⟨?_,fun c => (hids c).symm ▸ h.distinct c,fun m c ho => ?_,fun c => hat c _ ?_,
    fun c => hat c _ ?_,fun m c ha => ?_⟩
  · rw [hk]
    exact grammar_replicate h.grammar k _
  · rw [hids]
    exact h.opened m c ((hopen m c).mp ho)
  · rw [hk]
    exact h.connection c
  · rw [hk]
    exact h.duplicates c
  · rw [ht.acked] at ha
    rw [hids]
    exact h.acked m c ha

theorem Settled.eof {c : ClientId} {r t : Replica β} (h : Settled True r) (ht : EofTouched c r t) :
    Settled True t := by
  obtain ⟨k,hk⟩ := ht.files
  refine ⟨h.unfinished.eof ht,fun d => ?_,fun d => ?_,fun m d hm => ?_⟩
  · rw [ht.savedIds,hk]
    exact h.connection d
  · rw [ht.savedIds,hk]
    exact h.duplicates d
  · rw [ht.savedIds] at hm
    unfold Memory.duplicateCatcher
    rw [ht.duplicateCatchers]
    exact h.caught m d hm

theorem settled_fresh (free : Prop) (cfg : Config) : Settled free (fresh cfg : Replica β) := by
  refine ⟨⟨.empty,fun _ => List.nodup_nil,fun _ _ h => absurd h not_open_nil,
    fun _ => Or.inl rfl,fun _ => Or.inl rfl,fun _ _ h => ?_⟩,fun _ => rfl,fun _ => rfl,fun _ _ h => ?_⟩
  · cases h
  · cases h

theorem once_survives (hs : cfg.hasStatefullProcessor = true)
    (hd : cfg.useDuplicateCatcher = true) :
    (process (β := β) cfg sameId).Survives DataOnly (Settled False)
      fun r => Unfinished False r.files r.history.acked where
  init := settled_fresh False cfg
  kept := fun _ h => h.unfinished
  complete := by
    intro e r t program hr hg hb
    cases e with
    | eof t hasMessages => cases hg
    | data d h =>
        obtain ⟨rfl,⟨-,rfl⟩ | ⟨hdup,rfl⟩⟩ := begin_data cfg sameId hb
        · exact ⟨hr.unfinished,hr.connection,hr.duplicates,hr.caught⟩
        · exact settled_complete hs hd sameId hr (not_saved_of_not_duplicate hr (hdup hd))
  through := by
    intro e r t program hr hg hb
    cases e with
    | eof t hasMessages => cases hg
    | data d h =>
        obtain ⟨rfl,⟨-,rfl⟩ | ⟨hdup,rfl⟩⟩ := begin_data cfg sameId hb
        · exact Process.throughout_cons hr.unfinished (Process.throughout_nil hr.unfinished)
        · have hm := not_saved_of_not_duplicate hr (hdup hd)
          exact (callback_throughout cfg sameId d h r).mono fun t ht =>
            unfinished_interrupted hs hd hr hm ht.files
  recovered := by
    intro k t hk _ ht
    obtain ⟨u,hu,hset,_⟩ := settled_recover sameId_self hd hk (keepsSaved_sameId hk)
    have he : some u = some t := hu.symm.trans ht
    cases he
    exact hset

/-- Whenever the replica is between two messages, the three records of every
client agree, each id once, and hold every acknowledged id. A crash at any
boundary leaves a log that a restart reads to such a replica, whose catcher
knows exactly the saved ids. -/
theorem exactly_once (hs : cfg.hasStatefullProcessor = true) (hd : cfg.useDuplicateCatcher = true)
    {k : Interruptible.Config (Replica β) (Action β)}
    (h : (process cfg sameId).Run DataOnly k) :
    (k.pending = [] → ∀ c, Persisted k.state c) ∧
    ∃ k', (process cfg sameId).step k .crash = some k' ∧ ∀ c, Persisted k'.state c ∧
      ∀ m, m ∈ (k'.state.memory.duplicateCatcher c).messagesId ↔ m ∈ savedIds c k'.state.log := by
  constructor
  · intro hi c
    exact (h.idle (once_survives hs hd) hi).persisted c
  · have hkept := h.kept (once_survives hs hd)
    obtain ⟨t,ht,hset,hcatch⟩ :=
      settled_recover sameId_self hd hkept (keepsSaved_sameId hkept)
    refine ⟨.idle t,?_,fun c => ⟨hset.persisted c,hcatch c⟩⟩
    exact congrArg (Option.map Interruptible.Config.idle) ht

/-- A grouper: stateful, and behind a load balancer. -/
def grouper : Config where
  replicaId := 1
  replicasCount := 1
  hasStatefullProcessor := true
  useDuplicateCatcher := true

/-- Message 7 is stored but killed before its save, delivered again and finished;
a third delivery is discarded, and message 8 is killed after its save. -/
def regrouped : Interruptible.Config (Replica ℕ) (Action ℕ) :=
  ((process grouper sameId).replay (fun _ e => dataOnly e) (.idle (fresh grouper))
    (.begin (.data ⟨0,7,1,50,false,false⟩ (.done 0 false)) :: List.replicate 4 .tick ++ [.crash] ++
      .begin (.data ⟨0,7,1,50,true,false⟩ (.done 0 false)) :: List.replicate 9 .tick ++
      .begin (.data ⟨0,7,1,50,true,false⟩ (.done 0 false)) :: .tick ::
      .begin (.data ⟨1,8,1,60,false,false⟩ (.raised 1)) :: List.replicate 8 .tick)).get (by decide)

theorem exactly_once_regrouped :
    (regrouped.pending = [] → ∀ c, Persisted regrouped.state c) ∧
    ∃ k', (process grouper sameId).step regrouped .crash = some k' ∧ ∀ c,
      Persisted k'.state c ∧ ∀ m, m ∈ (k'.state.memory.duplicateCatcher c).messagesId ↔
        m ∈ savedIds c k'.state.log :=
  exactly_once rfl rfl (Process.run_replay (fun _ _ h => h) _)

end FlightsOptimizer.Receiver
