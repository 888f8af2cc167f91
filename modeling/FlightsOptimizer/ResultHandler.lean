import Mathlib.Data.Finset.Card
import Mathlib.Data.List.Induction
import FlightsOptimizer.Dict
import FlightsOptimizer.Protocol

/-!
# When the client has all results

`ResultHandler` counts the distinct results of each query, keeps the number that
the end of the query announces, and stops when four queries are complete. The
completion test looks every announced query up among those that sent a result.
-/
namespace FlightsOptimizer

structure ResultHandler where
  running : Bool
  workersQueue : List Message
  resultsReceived : Dict (Word 1) (Finset (Word 8))
  eofsReceived : Dict (Word 1) (Word 8)

namespace ResultHandler
open Message

def queryNumber : ℕ := 4

def start : ResultHandler := ⟨true,[],.empty,.empty⟩

/-- An unseen message id is remembered. -/
def isDuplicate (tagId : Word 1) (messageId : Word 8) (h : ResultHandler) : Bool × ResultHandler :=
  let received := h.resultsReceived.getD tagId ∅
  let h := {h with resultsReceived := h.resultsReceived.set tagId (insert messageId received)}
  (decide (messageId ∈ received),h)

/-- A query that announced its results and sent none has no entry to look up,
which raises. -/
def countFinished (received : Dict (Word 1) (Finset (Word 8))) :
    List (Word 1 × Word 8) → Option ℕ
  | [] => some 0
  | (tagId,messagesSent) :: eofs => do
      let ids ← received.get? tagId
      let finished ← countFinished received eofs
      some (if ids.card = messagesSent then finished+1 else finished)

def checkIfAllResultsReceived (h : ResultHandler) : Option ResultHandler :=
  if h.eofsReceived.entries.length < queryNumber then some h
  else do
    let finished ← countFinished h.resultsReceived h.eofsReceived.entries
    some (if finished = queryNumber then {h with running := false} else h)

/-- What a message changes before the completion test; a message of another class
has no `tag_id`. -/
def record (message : Message) (h : ResultHandler) : Option ResultHandler :=
  match message with
  | .resultEof tagId messagesSent =>
      some {h with eofsReceived := h.eofsReceived.set tagId messagesSent}
  | .result tagId messageId _ =>
      let answer := h.isDuplicate tagId messageId
      some (if answer.1 then answer.2
        else {answer.2 with workersQueue := answer.2.workersQueue ++ [message]})
  | _ => none

/-- The loop of `receive_results` over the messages that arrive while it runs. -/
def receiveResults : List Message → ResultHandler → Option ResultHandler
  | [], h => some h
  | message :: messages, h =>
      if h.running then do
        let h ← record message h
        let h ← checkIfAllResultsReceived h
        receiveResults messages h
      else some h

def resultId (tagId : Word 1) : Message → Option (Word 8)
  | .result t messageId _ => if t = tagId then some messageId else none
  | _ => none

def eofTag : Message → Option (Word 1)
  | .resultEof tagId _ => some tagId
  | _ => none

/-- The distinct result ids of a query. -/
def ids (tagId : Word 1) (messages : List Message) : Finset (Word 8) :=
  (messages.filterMap (resultId tagId)).toFinset

/-- The queries whose end has arrived. -/
def eofTags (messages : List Message) : Finset (Word 1) := (messages.filterMap eofTag).toFinset

variable (tags : Finset (Word 1)) (announced : Word 1 → Word 8)

/-- Results and ends of four queries. An end carries the number of distinct
result ids of its query, some of which may still be to come. -/
structure Results (messages : List Message) : Prop where
  four : tags.card = queryNumber
  results : ∀ message ∈ messages, (∃ t ∈ tags, ∃ i text, message = .result t i text) ∨
    ∃ t ∈ tags, message = .resultEof t (announced t)
  bounded : ∀ t ∈ tags, (ids t messages).card ≤ announced t

/-- Every end has arrived and every announced result. -/
def Complete (messages : List Message) : Prop :=
  tags ⊆ eofTags messages ∧ ∀ t ∈ tags, (ids t messages).card = announced t

/-- The workers got each result once. -/
def HandedOnce (messages : List Message) (h : ResultHandler) : Prop :=
  ∀ t i, h.workersQueue.countP (fun message => resultId t message == some i) =
    if i ∈ ids t messages then 1 else 0

/-- After any number of messages the loop has raised nothing, has handed out each
result once, and has stopped exactly if everything is complete. -/
def Exact (messages : List Message) : Prop :=
  ∀ p, p <+: messages → ∃ h, receiveResults p start = some h ∧
    (h.running = false ↔ Complete tags announced p) ∧ HandedOnce p h

/-- When the last of the ends has arrived, no query is without results. -/
def Present (messages : List Message) : Prop :=
  tags ⊆ eofTags messages → ∀ t ∈ tags, (ids t messages).Nonempty

variable {tags announced} {p q messages : List Message} {h h' : ResultHandler} {message : Message}

theorem mem_ids {t : Word 1} {i : Word 8} :
    i ∈ ids t p ↔ ∃ message ∈ p, resultId t message = some i := by
  rw [ids,List.mem_toFinset,List.mem_filterMap]

theorem mem_eofTags {t : Word 1} : t ∈ eofTags p ↔ ∃ message ∈ p, eofTag message = some t := by
  rw [eofTags,List.mem_toFinset,List.mem_filterMap]

theorem mem_ids_snoc {t : Word 1} {i : Word 8} :
    i ∈ ids t (p ++ [message]) ↔ i ∈ ids t p ∨ resultId t message = some i := by
  simp only [mem_ids,List.mem_append,List.mem_singleton,or_and_right,exists_or,exists_eq_left]

theorem mem_eofTags_snoc {t : Word 1} :
    t ∈ eofTags (p ++ [message]) ↔ t ∈ eofTags p ∨ eofTag message = some t := by
  simp only [mem_eofTags,List.mem_append,List.mem_singleton,or_and_right,exists_or,exists_eq_left]

theorem ids_mono (t : Word 1) (h : p <+: q) : ids t p ⊆ ids t q := by
  intro i hi
  obtain ⟨message,hm,hi⟩ := mem_ids.mp hi
  exact mem_ids.mpr ⟨message,h.subset hm,hi⟩

theorem eofTags_mono (h : p <+: q) : eofTags p ⊆ eofTags q := by
  intro t ht
  obtain ⟨message,hm,ht⟩ := mem_eofTags.mp ht
  exact mem_eofTags.mpr ⟨message,h.subset hm,ht⟩

/-- The handler while it runs: both dictionaries say what has arrived. -/
structure Tracks (announced : Word 1 → Word 8) (p : List Message) (h : ResultHandler) : Prop where
  results : ∀ t, h.resultsReceived.get? t = if ids t p = ∅ then none else some (ids t p)
  eofs : ∀ t, h.eofsReceived.get? t = if t ∈ eofTags p then some (announced t) else none
  once : HandedOnce p h

theorem tracks_start : Tracks announced [] start where
  results := fun _ => rfl
  eofs := fun _ => rfl
  once := fun _ _ => rfl

theorem Tracks.getD (h' : Tracks announced p h) (t : Word 1) :
    h.resultsReceived.getD t ∅ = ids t p := by
  unfold Dict.getD
  rw [h'.results]
  split_ifs with he
  · exact he.symm
  · rfl

theorem Tracks.eof (ht : Tracks announced p h) (t : Word 1) :
    ∃ h', record (.resultEof t (announced t)) h = some h' ∧ h'.running = h.running ∧
      Tracks announced (p ++ [.resultEof t (announced t)]) h' := by
  have hids : ∀ u, ids u (p ++ [.resultEof t (announced t)]) = ids u p := by
    intro u
    ext i
    rw [mem_ids_snoc]
    simp [resultId]
  refine ⟨_,rfl,rfl,?_,?_,?_⟩
  · intro u
    rw [hids]
    exact ht.results u
  · intro u
    rw [Dict.get?_set,ht.eofs]
    by_cases hu : t = u
    · subst hu
      simp [mem_eofTags_snoc,eofTag]
    · simp [mem_eofTags_snoc,eofTag,hu]
  · intro u i
    rw [hids]
    exact ht.once u i

theorem Tracks.result (ht : Tracks announced p h) (t : Word 1) (i : Word 8) (text : String) :
    ∃ h', record (.result t i text) h = some h' ∧ h'.running = h.running ∧
      Tracks announced (p ++ [.result t i text]) h' := by
  have hids : ∀ u, ids u (p ++ [.result t i text]) = if t = u then insert i (ids u p) else ids u p := by
    intro u
    ext j
    rw [mem_ids_snoc]
    by_cases hu : t = u
    · simp [resultId,hu,or_comm,eq_comm]
    · simp [resultId,hu]
  have heofs : ∀ u, u ∈ eofTags (p ++ [.result t i text]) ↔ u ∈ eofTags p := by
    intro u
    rw [mem_eofTags_snoc]
    simp [eofTag]
  have hresults : ∀ u, (h.resultsReceived.set t (insert i (ids t p))).get? u =
      if ids u (p ++ [.result t i text]) = ∅ then none
      else some (ids u (p ++ [.result t i text])) := by
    intro u
    rw [Dict.get?_set,hids,ht.results]
    by_cases hu : t = u
    · subst hu
      simp
    · simp [hu]
  by_cases hi : i ∈ ids t p
  · refine ⟨{h with resultsReceived := h.resultsReceived.set t (insert i (ids t p))},?_,rfl,
      hresults,?_,?_⟩
    · simp only [record,isDuplicate,ht.getD,hi,decide_true,if_true]
    · intro u
      simp only [ht.eofs,heofs]
    · intro u j
      rw [hids]
      have honce := ht.once u j
      by_cases hu : t = u
      · subst hu
        rw [if_pos rfl,Finset.insert_eq_of_mem hi]
        exact honce
      · rw [if_neg hu]
        exact honce
  · refine ⟨{h with
      resultsReceived := h.resultsReceived.set t (insert i (ids t p))
      workersQueue := h.workersQueue ++ [.result t i text]},?_,rfl,hresults,?_,?_⟩
    · simp only [record,isDuplicate,ht.getD,hi,decide_false,Bool.false_eq_true,if_false]
    · intro u
      simp only [ht.eofs,heofs]
    · intro u j
      have honce := ht.once u j
      rw [hids,List.countP_append,honce,List.countP_singleton]
      by_cases hu : t = u
      · subst hu
        by_cases hj : i = j
        · subst hj
          simp [hi,resultId]
        · simp [resultId,hj,Ne.symm hj]
      · simp [resultId,hu]

theorem countFinished_none {received : Dict (Word 1) (Finset (Word 8))}
    {eofs : List (Word 1 × Word 8)} (h : ∃ e ∈ eofs, received.get? e.1 = none) :
    countFinished received eofs = none := by
  induction eofs with
  | nil => simp at h
  | cons e eofs ih =>
      obtain ⟨t,n⟩ := e
      unfold countFinished
      cases hr : received.get? t with
      | none => rfl
      | some found =>
          obtain ⟨e,he,hn⟩ := h
          rcases List.mem_cons.mp he with rfl | he
          · rw [hr] at hn
            cases hn
          · simp only [ih ⟨e,he,hn⟩,Option.bind_eq_bind,Option.bind_some,Option.bind_none]

theorem countFinished_some {received : Dict (Word 1) (Finset (Word 8))} {f : Word 1 → Finset (Word 8)}
    {eofs : List (Word 1 × Word 8)} (h : ∀ e ∈ eofs, received.get? e.1 = some (f e.1)) :
    countFinished received eofs = some (eofs.countP fun e => (f e.1).card = e.2) := by
  induction eofs with
  | nil => rfl
  | cons e eofs ih =>
      obtain ⟨t,n⟩ := e
      have ht : received.get? t = some (f t) := h (t,n) List.mem_cons_self
      have heofs := ih fun e he => h e (List.mem_cons_of_mem _ he)
      simp only [countFinished,ht,heofs,Option.bind_eq_bind,Option.bind_some,List.countP_cons]
      by_cases hc : (f t).card = n <;> simp [hc]

theorem Tracks.mem_entries (ht : Tracks announced p h) {e : Word 1 × Word 8} :
    e ∈ h.eofsReceived.entries ↔ e.1 ∈ eofTags p ∧ e.2 = announced e.1 := by
  rw [← Dict.get?_eq_some_iff,ht.eofs]
  split_ifs with he
  · simp [he,eq_comm]
  · simp [he]

theorem Tracks.length_entries (ht : Tracks announced p h) :
    h.eofsReceived.entries.length = (eofTags p).card := by
  have hkeys : h.eofsReceived.keys.toFinset = eofTags p := by
    ext t
    rw [List.mem_toFinset,Dict.mem_keys_iff,ht.eofs]
    split_ifs with he <;> simp [he]
  have hcard : h.eofsReceived.keys.toFinset.card = h.eofsReceived.keys.length :=
    List.toFinset_card_of_nodup h.eofsReceived.distinct
  rw [← hkeys,hcard]
  exact (List.length_map _).symm

theorem check_waiting (ht : Tracks announced p h) (hfour : tags.card = queryNumber)
    (hsub : eofTags p ⊆ tags) (hn : ¬ tags ⊆ eofTags p) :
    checkIfAllResultsReceived h = some h := by
  have hlt : (eofTags p).card < tags.card := Finset.card_lt_card ⟨hsub,hn⟩
  unfold checkIfAllResultsReceived
  rw [if_pos (by rw [ht.length_entries]; omega)]

theorem check_missing (ht : Tracks announced p h) (hfour : tags.card = queryNumber)
    (hall : tags ⊆ eofTags p) {t : Word 1} (hm : t ∈ tags) (he : ids t p = ∅) :
    checkIfAllResultsReceived h = none := by
  have hle := Finset.card_le_card hall
  have hentry : (t,announced t) ∈ h.eofsReceived.entries := ht.mem_entries.mpr ⟨hall hm,rfl⟩
  have hnone : h.resultsReceived.get? t = none := by rw [ht.results,if_pos he]
  unfold checkIfAllResultsReceived
  rw [if_neg (by rw [ht.length_entries]; omega),countFinished_none ⟨_,hentry,hnone⟩]
  rfl

theorem check_counting (ht : Tracks announced p h) (hfour : tags.card = queryNumber)
    (hsub : eofTags p ⊆ tags) (hall : tags ⊆ eofTags p) (hne : ∀ t ∈ tags, (ids t p).Nonempty) :
    checkIfAllResultsReceived h = some
      (if ∀ t ∈ tags, (ids t p).card = announced t then {h with running := false} else h) := by
  have heq : eofTags p = tags := Finset.Subset.antisymm hsub hall
  have hlen : h.eofsReceived.entries.length = queryNumber := by rw [ht.length_entries,heq,hfour]
  have hget : ∀ e ∈ h.eofsReceived.entries, h.resultsReceived.get? e.1 = some (ids e.1 p) := by
    intro e he
    have hmem := hsub (ht.mem_entries.mp he).1
    rw [ht.results,if_neg (hne e.1 hmem).ne_empty]
  have hfinished : h.eofsReceived.entries.countP (fun e => (ids e.1 p).card = e.2) = queryNumber ↔
      ∀ t ∈ tags, (ids t p).card = announced t := by
    rw [← hlen,List.countP_eq_length]
    constructor
    · intro hf t hm
      simpa using hf (t,announced t) (ht.mem_entries.mpr ⟨hall hm,rfl⟩)
    · intro hf e he
      obtain ⟨hmem,hn⟩ := ht.mem_entries.mp he
      rw [hn]
      exact decide_eq_true (hf e.1 (hsub hmem))
  unfold checkIfAllResultsReceived
  rw [if_neg (by omega),countFinished_some (f := fun t => ids t p) hget,Option.bind_eq_bind,
    Option.bind_some]
  simp only [hfinished]

theorem receiveResults_append (p q : List Message) (h : ResultHandler) :
    receiveResults (p ++ q) h = (receiveResults p h).bind (receiveResults q) := by
  induction p generalizing h with
  | nil => rfl
  | cons m p ih =>
      by_cases hr : h.running
      · simp only [List.cons_append,receiveResults,hr,if_true,Option.bind_eq_bind]
        cases record m h with
        | none => rfl
        | some h₁ =>
            cases hc : checkIfAllResultsReceived h₁ with
            | none => simp only [Option.bind_some,hc,Option.bind_none]
            | some h₂ => simp only [Option.bind_some,hc,ih]
      · have hstop : receiveResults q h = some h := by
          cases q with
          | nil => rfl
          | cons m q => exact if_neg hr
        simp only [List.cons_append,receiveResults,hr,Bool.false_eq_true,if_false,Option.bind_some,
          hstop]

theorem Results.eofTags_subset (hm : Results tags announced messages) (hp : p <+: messages) :
    eofTags p ⊆ tags := by
  intro t ht
  obtain ⟨message,hmem,he⟩ := mem_eofTags.mp ht
  rcases hm.results message (hp.subset hmem) with ⟨u,hu,i,text,rfl⟩ | ⟨u,hu,rfl⟩
  · cases he
  · cases he
    exact hu

/-- A complete query gets no new result. -/
theorem Results.ids_complete (hm : Results tags announced messages) (hp : p <+: q)
    (hq : q <+: messages) (hc : Complete tags announced p) (t : Word 1) : ids t q = ids t p := by
  by_cases ht : t ∈ tags
  · have hle := Finset.card_le_card (ids_mono t hq)
    have hb := hm.bounded t ht
    have hcard := hc.2 t ht
    exact (Finset.eq_of_subset_of_card_le (ids_mono t hp) (by omega)).symm
  · have hempty : ids t q = ∅ := by
      apply Finset.eq_empty_of_forall_notMem
      intro i hi
      obtain ⟨message,hmem,hr⟩ := mem_ids.mp hi
      rcases hm.results message (hq.subset hmem) with ⟨u,hu,j,text,rfl⟩ | ⟨u,hu,rfl⟩
      · simp only [resultId,Option.ite_none_right_eq_some] at hr
        exact ht (hr.1 ▸ hu)
      · cases hr
    have hsub := ids_mono t hp
    rw [hempty] at hsub ⊢
    exact (Finset.subset_empty.mp hsub).symm

/-- What holds after a prefix on which nothing was raised. -/
structure Reached (tags : Finset (Word 1)) (announced : Word 1 → Word 8) (p : List Message)
    (h : ResultHandler) : Prop where
  tracks : h.running = true → Tracks announced p h
  stopped : h.running = false ↔ Complete tags announced p
  once : HandedOnce p h
  present : Present tags p

theorem Results.record (hm : Results tags announced messages) (hmem : message ∈ messages)
    (ht : Tracks announced p h) : ∃ h', record message h = some h' ∧ h'.running = h.running ∧
      Tracks announced (p ++ [message]) h' := by
  rcases hm.results message hmem with ⟨t,_,i,text,rfl⟩ | ⟨t,_,rfl⟩
  · exact ht.result t i text
  · exact ht.eof t

/-- A stopped handler stays as it is, and no result is left for it. -/
theorem Reached.stay (hm : Results tags announced messages) (hp : p ++ [message] <+: messages)
    (hr : Reached tags announced p h) (hstop : h.running = false) :
    Reached tags announced (p ++ [message]) h := by
  have hpre : p <+: p ++ [message] := List.prefix_append p [message]
  have hc : Complete tags announced p := hr.stopped.mp hstop
  have hids := fun t => hm.ids_complete hpre hp hc t
  refine ⟨?_,?_,?_,?_⟩
  · intro h
    rw [hstop] at h
    cases h
  · apply iff_of_true hstop
    exact ⟨hc.1.trans (eofTags_mono hpre),fun t ht => by rw [hids]; exact hc.2 t ht⟩
  · intro t i
    rw [hids]
    exact hr.once t i
  · intro _ t ht
    exact (hr.present hc.1 t ht).mono (ids_mono t hpre)

/-- One message on a running handler. It raises exactly when it brings the last
end while some query is without results. -/
theorem Reached.running (hm : Results tags announced messages) (hp : p ++ [message] <+: messages)
    (hr : Reached tags announced p h) (hrun : h.running = true) :
    (receiveResults [message] h = none ∧ ¬ Present tags (p ++ [message])) ∨
      ∃ h', receiveResults [message] h = some h' ∧
        Reached tags announced (p ++ [message]) h' := by
  have hmem : message ∈ messages := hp.subset (by simp)
  obtain ⟨h₁,hrecord,hrun₁,ht⟩ := hm.record hmem (hr.tracks hrun)
  have hsub := hm.eofTags_subset hp
  have hcalls : receiveResults [message] h =
      (checkIfAllResultsReceived h₁).bind fun h' => some h' := by
    simp only [receiveResults,hrun,if_true,hrecord,Option.bind_eq_bind,Option.bind_some]
  rw [hcalls]
  rw [hrun] at hrun₁
  by_cases hall : tags ⊆ eofTags (p ++ [message])
  · by_cases hne : ∀ t ∈ tags, (ids t (p ++ [message])).Nonempty
    · right
      rw [check_counting ht hm.four hsub hall hne]
      refine ⟨_,rfl,?_⟩
      by_cases hc : ∀ t ∈ tags, (ids t (p ++ [message])).card = announced t
      · rw [if_pos hc]
        exact ⟨nofun,iff_of_true rfl ⟨hall,hc⟩,ht.once,fun _ => hne⟩
      · rw [if_neg hc]
        have hnc : ¬ Complete tags announced (p ++ [message]) := fun h => hc h.2
        exact ⟨fun _ => ht,iff_of_false (by simp [hrun₁]) hnc,ht.once,fun _ => hne⟩
    · left
      have hpresent : ¬ Present tags (p ++ [message]) := fun h => hne (h hall)
      push Not at hne
      obtain ⟨t,hmt,he⟩ := hne
      rw [check_missing ht hm.four hall hmt he]
      exact ⟨rfl,hpresent⟩
  · right
    rw [check_waiting ht hm.four hsub hall]
    refine ⟨_,rfl,fun _ => ht,?_,ht.once,fun h => absurd h hall⟩
    exact iff_of_false (by simp [hrun₁]) fun h => hall h.1

theorem Reached.start (hm : Results tags announced messages) :
    Reached tags announced [] ResultHandler.start := by
  have hpos : 0 < tags.card := by
    rw [hm.four]
    decide
  obtain ⟨t,ht⟩ := Finset.card_pos.mp hpos
  have hn : ¬ tags ⊆ eofTags [] := fun h => absurd (h ht) (by simp [eofTags])
  exact ⟨fun _ => tracks_start,iff_of_false nofun fun h => hn h.1,fun _ _ => rfl,
    fun h => absurd h hn⟩

/-- Over any prefix the handler raises, or ends in a state that is reached. The
induction appends one message. -/
theorem reached (hm : Results tags announced messages) (hp : p <+: messages) :
    (receiveResults p ResultHandler.start = none ∧ ∃ q, q <+: p ∧ ¬ Present tags q) ∨
      ∃ h, receiveResults p ResultHandler.start = some h ∧ Reached tags announced p h := by
  induction p using List.reverseRecOn with
  | nil => exact Or.inr ⟨_,rfl,.start hm⟩
  | append_singleton p message ih =>
      have hpre : p <+: p ++ [message] := List.prefix_append p [message]
      rw [receiveResults_append]
      rcases ih (hpre.trans hp) with ⟨hnone,q,hq,hpresent⟩ | ⟨h,hsome,hr⟩
      · rw [hnone]
        exact Or.inl ⟨rfl,q,hq.trans hpre,hpresent⟩
      · rw [hsome,Option.bind_some]
        cases hrun : h.running with
        | false =>
            have hstay : receiveResults [message] h = some h := if_neg (by simp [hrun])
            exact Or.inr ⟨h,hstay,hr.stay hm hp hrun⟩
        | true =>
            rcases hr.running hm hp hrun with ⟨hnone,hpresent⟩ | hsome
            · exact Or.inl ⟨hnone,_,List.prefix_rfl,hpresent⟩
            · exact Or.inr hsome

/-- The handler is exact on every prefix if and only if, whenever the last of the
ends has arrived, each query has sent a result. -/
theorem results_complete (tags : Finset (Word 1)) (announced : Word 1 → Word 8)
    (messages : List Message) (hm : Results tags announced messages) :
    Exact tags announced messages ↔ ∀ p, p <+: messages → Present tags p := by
  constructor
  · intro hexact p hp
    obtain ⟨h,hsome,-⟩ := hexact p hp
    rcases reached hm hp with ⟨hnone,-⟩ | ⟨h',hsome',hr⟩
    · rw [hnone] at hsome
      cases hsome
    · exact hr.present
  · intro hpresent p hp
    rcases reached hm hp with ⟨-,q,hq,hn⟩ | ⟨h,hsome,hr⟩
    · exact absurd (hpresent q (hq.trans hp)) hn
    · exact ⟨h,hsome,hr.stopped,hr.once⟩

def fourResults : List Message :=
  [.result 1 7 "a",.result 2 7 "b",.result 3 7 "c",.result 4 7 "d"]

def fourEnds : List Message := [.resultEof 1 1,.resultEof 2 1,.resultEof 3 1,.resultEof 4 1]

theorem results_complete_fourEnds :
    Exact {1,2,3,4} (fun _ => 1) (fourResults ++ fourEnds) := by
  apply (results_complete {1,2,3,4} (fun _ => 1) (fourResults ++ fourEnds) ?_).mpr
  · intro p hp hall t ht
    rcases List.prefix_or_prefix_of_prefix hp (List.prefix_append fourResults fourEnds) with h | h
    · exact absurd (eofTags_mono h (hall ht)) (by simp [eofTags,eofTag,fourResults])
    · apply Finset.Nonempty.mono (ids_mono t h)
      have hseven : ∀ t ∈ ({1,2,3,4} : Finset (Word 1)), 7 ∈ ids t fourResults := by decide +kernel
      exact ⟨7,hseven t ht⟩
  · refine ⟨by decide,?_,by decide +kernel⟩
    intro message hm
    simp only [fourResults,fourEnds,List.cons_append,List.nil_append,List.mem_cons,
      List.not_mem_nil,or_false] at hm
    rcases hm with rfl | rfl | rfl | rfl | rfl | rfl | rfl | rfl <;> simp

/-- The last query has no results, and announces so. -/
def noneAnnounced (t : Word 1) : Word 8 := if t = 4 then 0 else 1

def threeResults : List Message := [.result 1 7 "a",.result 2 7 "b",.result 3 7 "c",
  .resultEof 1 1,.resultEof 2 1,.resultEof 3 1,.resultEof 4 0]

/-- A query without results raises as soon as all four ends have arrived. -/
theorem threeResults_raises : Results {1,2,3,4} noneAnnounced threeResults ∧
    receiveResults threeResults start = none ∧ ¬ Exact {1,2,3,4} noneAnnounced threeResults := by
  have hraise : receiveResults threeResults start = none := by decide +kernel
  refine ⟨⟨by decide,?_,by decide +kernel⟩,hraise,?_⟩
  · intro message hm
    simp only [threeResults,List.mem_cons,List.not_mem_nil,or_false] at hm
    rcases hm with rfl | rfl | rfl | rfl | rfl | rfl | rfl <;> simp [noneAnnounced]
  · intro h
    obtain ⟨_,hsome,-⟩ := h _ List.prefix_rfl
    rw [hraise] at hsome
    cases hsome

end ResultHandler
end FlightsOptimizer
