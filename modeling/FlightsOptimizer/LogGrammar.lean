import Mathlib.Data.List.Infix
import Mathlib.Algebra.Order.Group.Nat
import FlightsOptimizer.Logger

/-!
# What a reachable communication log looks like, and what the readers answer on it

Every operation of the logger is atomic, so a log is built line group by line
group: a START, a SENT, the three lines of a save on top of its own START, or a
COMMIT on top of its own save. `Grammar` states this; its parameter says whether
a SENT may also stand outside a START..COMMIT window, as the one that an EOF
leaves does.

On such a log the readers of `Logger` have simple answers. `restore` returns the
state under a COMMIT or a SAVE DONE when one of them is the last line, and the
state under the last COMMIT otherwise; `search_processed` returns one entry per
SAVE DONE record.
-/
namespace FlightsOptimizer.LogGrammar
open Logger

/-- The three lines of `save_communication` on top of a log. -/
def saved (m : MessageId) (c : ClientId) (s : State) (l : List Line) : List Line :=
  .saveDone m c :: .state s :: .saveBegin m c :: l

/-- The log ends in START m / c and records of sending only. -/
inductive Open (m : MessageId) (c : ClientId) : List Line → Prop
  | start (l : List Line) : Open m c (.start m c :: l)
  | sent (ids : Option (MessageId × ClientId)) {l : List Line} :
      Open m c l → Open m c (.sent ids :: l)

inductive Grammar (free : Prop) : List Line → Prop
  | empty : Grammar free []
  | start (m : MessageId) (c : ClientId) {l : List Line} :
      Grammar free l → Grammar free (.start m c :: l)
  | sent (ids : Option (MessageId × ClientId)) {l : List Line} :
      Grammar free l → (free ∨ ∃ m c, Open m c l) → Grammar free (.sent ids :: l)
  | save (m : MessageId) (c : ClientId) (s : State) {l : List Line} :
      Grammar free l → Open m c l → Grammar free (saved m c s l)
  | commit (m : MessageId) (c : ClientId) (s : State) {l : List Line} :
      Grammar free (saved m c s l) → Grammar free (.commit m c :: saved m c s l)

variable {free : Prop} {m : MessageId} {c : ClientId} {s : State} {l : List Line}

@[simp] theorem skipTo_nil (t : LoggerToken) : skipTo t [] = [] := rfl

theorem skipTo_cons (t : LoggerToken) (x : Line) (l : List Line) :
    skipTo t (x :: l) = if x.startsWith t then x :: l else skipTo t l := by
  unfold skipTo
  rw [List.dropWhile_cons]
  cases x.startsWith t <;> rfl

theorem skipTo_suffix (t : LoggerToken) (l : List Line) : skipTo t l <:+ l :=
  List.dropWhile_suffix _

theorem Grammar.of_save (h : Grammar free (saved m c s l)) : Grammar free l ∧ Open m c l := by
  cases h with
  | save _ _ _ hl ho => exact ⟨hl,ho⟩

/-- Nothing but SENT records lies between the end of an open log and its START. -/
theorem Open.start_above {xs ys : List Line} {x : Line} (h : Open m c (xs ++ x :: ys))
    (hx : x.startsWith .start = false ∧ x.startsWith .sent = false) :
    ∃ y ∈ xs, y.startsWith .start = true := by
  induction xs with
  | nil =>
      cases h with
      | start => simp [Line.startsWith,Line.token] at hx
      | sent => simp [Line.startsWith,Line.token] at hx
  | cons y xs ih =>
      cases h with
      | start => exact ⟨_,List.mem_cons_self,rfl⟩
      | sent _ ho =>
          obtain ⟨z,hz,hs⟩ := ih ho
          exact ⟨z,List.mem_cons_of_mem _ hz,hs⟩

theorem Open.skipTo_start (h : Open m c l) : ∃ t, skipTo .start l = .start m c :: t := by
  induction h with
  | start l => exact ⟨l,rfl⟩
  | sent ids _ ih => exact ih

/-- A log is open for one message at most. -/
theorem Open.unique (h : Open m c l) {m' : MessageId} {c' : ClientId} (h' : Open m' c' l) :
    m = m' ∧ c = c' := by
  obtain ⟨t,ht⟩ := h.skipTo_start
  obtain ⟨t',ht'⟩ := h'.skipTo_start
  rw [ht] at ht'
  cases ht'
  exact ⟨rfl,rfl⟩

theorem not_open_nil : ¬Open m c [] := by
  intro h
  cases h

theorem not_open_saved {m' : MessageId} {c' : ClientId} : ¬Open m' c' (saved m c s l) := by
  intro h
  cases h

theorem not_open_commit {m' : MessageId} {c' : ClientId} : ¬Open m' c' (.commit m c :: l) := by
  intro h
  cases h

/-- Below a COMMIT lies the save of the same message. -/
theorem Grammar.of_commit (h : Grammar free l) {rest : List Line}
    (hs : .commit m c :: rest <:+ l) : ∃ s t, rest = saved m c s t ∧ Grammar free rest := by
  induction h with
  | empty => simp at hs
  | start m' c' _ ih =>
      rcases List.suffix_cons_iff.mp hs with he | hs
      · cases he
      · exact ih hs
  | sent ids _ _ ih =>
      rcases List.suffix_cons_iff.mp hs with he | hs
      · cases he
      · exact ih hs
  | save m' c' s' _ _ ih =>
      rcases List.suffix_cons_iff.mp hs with he | hs
      · cases he
      · rcases List.suffix_cons_iff.mp hs with he | hs
        · cases he
        · rcases List.suffix_cons_iff.mp hs with he | hs
          · cases he
          · exact ih hs
  | commit m' c' s' hg ih =>
      rcases List.suffix_cons_iff.mp hs with he | hs
      · cases he
        exact ⟨s',_,rfl,hg⟩
      · exact ih hs

/-- The walk below a START meets either no COMMIT at all or one on its save. -/
theorem Grammar.skipTo_commit (h : Grammar free l) :
    skipTo .commit l = [] ∨ ∃ m c s t, skipTo .commit l = .commit m c :: saved m c s t ∧
      Grammar free (saved m c s t) := by
  induction h with
  | empty => exact Or.inl rfl
  | start _ _ _ ih => exact ih
  | sent _ _ _ ih => exact ih
  | save _ _ _ _ _ ih => exact ih
  | commit m c s h => exact Or.inr ⟨m,c,s,_,rfl,h⟩

theorem Grammar.skipTo_start (h : Grammar free l) :
    skipTo .start l = [] ∨ ∃ m c t, skipTo .start l = .start m c :: t ∧ Grammar free t := by
  induction h with
  | empty => exact Or.inl rfl
  | start m c h => exact Or.inr ⟨m,c,_,rfl,h⟩
  | sent _ _ _ ih => exact ih
  | save _ _ _ _ _ ih => exact ih
  | commit _ _ _ _ ih => exact ih

/-- The state under the last COMMIT of a log. -/
def committedState (l : List Line) : Option State :=
  match skipTo .saveDone (skipTo .commit l) with
  | _ :: .state s :: _ => some s
  | _ => none

theorem committedState_of_nil (h : skipTo .commit l = []) : committedState l = none := by
  simp [committedState,h]

theorem committedState_of_commit {t : List Line} (h : skipTo .commit l = .commit m c :: saved m c s t) :
    committedState l = some s := by
  simp [committedState,h,saved,skipTo_cons,Line.startsWith,Line.token]

theorem getLastMessage_saved (r : RestoreType) (h : Open m c l) :
    getLastMessage r (saved m c s l) = .found ⟨r,m,c,some s⟩ := by
  obtain ⟨t,ht⟩ := h.skipTo_start
  have hd : skipTo .saveDone (saved m c s l) = saved m c s l := rfl
  have hb : skipTo .start (.saveBegin m c :: l) = .start m c :: t := ht
  unfold getLastMessage
  rw [hd]
  simp only [saved,hb]

theorem restore_commit (h : Open m c l) :
    restoreCommunication (.commit m c :: saved m c s l) = .found ⟨.commit,m,c,some s⟩ :=
  getLastMessage_saved .commit h

theorem restore_saveDone (h : Open m c l) :
    restoreCommunication (saved m c s l) = .found ⟨.saveDone,m,c,some s⟩ :=
  getLastMessage_saved .saveDone h

/-- Below a START the walk always ends in the state of the last COMMIT. -/
theorem handleSent_eq (h : Grammar free l) {t : List Line}
    (ht : skipTo .start l = .start m c :: t) :
    handleSent l = .found ⟨.sent,m,c,committedState t⟩ := by
  have hg : Grammar free t := by
    rcases h.skipTo_start with h₀ | ⟨_,_,_,h₁,hg⟩
    · rw [ht] at h₀
      cases h₀
    · rw [ht] at h₁
      cases h₁
      exact hg
  unfold handleSent
  rw [ht]
  rcases hg.skipTo_commit with h₀ | ⟨m',c',s',t',h₁,_⟩
  · simp [h₀,committedState]
  · rw [committedState_of_commit h₁]
    simp [h₁,saved,skipTo_cons,Line.startsWith,Line.token]

theorem Open.restore (h : Grammar free l) (ho : Open m c l) {t : List Line}
    (ht : skipTo .start l = .start m c :: t) :
    restoreCommunication l = .found ⟨.sent,m,c,committedState t⟩ := by
  rw [← handleSent_eq h ht]
  cases ho <;> rfl

/-- The message that did not finish is that of the last START. -/
theorem Grammar.skipTo_of_restore (h : Grammar free l) {st : Option State}
    (hr : restoreCommunication l = .found ⟨.sent,m,c,st⟩) :
    ∃ t, skipTo .start l = .start m c :: t := by
  have hsent : handleSent l = .found ⟨.sent,m,c,st⟩ →
      ∃ t, skipTo .start l = .start m c :: t := by
    intro hr
    rcases h.skipTo_start with h₀ | ⟨m',c',t,ht,-⟩
    · unfold handleSent at hr
      rw [h₀] at hr
      cases hr
    · rw [handleSent_eq h ht] at hr
      cases hr
      exact ⟨t,ht⟩
  cases h with
  | empty => cases hr
  | start _ _ _ => exact hsent hr
  | sent _ _ _ => exact hsent hr
  | save m' c' s _ ho =>
      rw [restore_saveDone ho] at hr
      cases hr
  | commit m' c' s hg =>
      rw [restore_commit hg.of_save.2] at hr
      cases hr

/-- Without stray SENT records a log ends inside a message, or restores without
naming one that did not finish. -/
theorem Grammar.open_or_closed (h : Grammar False l) : (∃ m c, Open m c l) ∨
    (∀ m c, ¬Open m c l) ∧ ∀ m c s, restoreCommunication l ≠ .found ⟨.sent,m,c,s⟩ := by
  cases h with
  | empty => exact Or.inr ⟨fun _ _ => not_open_nil,fun _ _ _ he => by cases he⟩
  | start m c _ => exact Or.inl ⟨m,c,.start _⟩
  | sent ids _ hfree =>
      obtain ⟨m,c,ho⟩ := hfree.resolve_left id
      exact Or.inl ⟨m,c,.sent ids ho⟩
  | save m c s _ ho =>
      refine Or.inr ⟨fun _ _ => not_open_saved,?_⟩
      intro _ _ _ he
      rw [restore_saveDone ho] at he
      cases he
  | commit m c s hg =>
      refine Or.inr ⟨fun _ _ => not_open_commit,?_⟩
      intro _ _ _ he
      rw [restore_commit hg.of_save.2] at he
      cases he

/-- Nothing that a reachable log holds stops a restart. -/
theorem Grammar.restore_cases (h : Grammar free l) :
    restoreCommunication l = .nothing ∨
      ∃ r m c st, restoreCommunication l = .found ⟨r,m,c,st⟩ ∧
        ∀ s, st = some s → ∃ m c t, saved m c s t <:+ l := by
  have hsent : handleSent l = .nothing ∨
      ∃ r m c st, handleSent l = .found ⟨r,m,c,st⟩ ∧
        ∀ s, st = some s → ∃ m c t, saved m c s t <:+ l := by
    rcases h.skipTo_start with h₀ | ⟨m,c,t,ht,hg⟩
    · left
      simp [handleSent,h₀]
    · right
      refine ⟨.sent,m,c,committedState t,handleSent_eq h ht,?_⟩
      intro s hs
      have hsub : t <:+ l := (List.suffix_cons _ _).trans (ht ▸ skipTo_suffix .start l)
      rcases hg.skipTo_commit with h₀ | ⟨m',c',s',t',h₁,_⟩
      · rw [committedState_of_nil h₀] at hs
        cases hs
      · rw [committedState_of_commit h₁,Option.some.injEq] at hs
        subst hs
        have hsuf : .commit m' c' :: saved m' c' s' t' <:+ t := h₁ ▸ skipTo_suffix .commit t
        exact ⟨m',c',t',(List.suffix_cons _ _).trans (hsuf.trans hsub)⟩
  cases h with
  | empty => exact Or.inl rfl
  | start _ _ _ => exact hsent
  | sent _ _ _ => exact hsent
  | save m c s _ ho =>
      refine Or.inr ⟨_,m,c,_,restore_saveDone ho,?_⟩
      rintro _ ⟨⟩
      exact ⟨m,c,_,List.suffix_rfl⟩
  | commit m c s hg =>
      refine Or.inr ⟨_,m,c,_,restore_commit hg.of_save.2,?_⟩
      rintro _ ⟨⟩
      exact ⟨m,c,_,List.suffix_cons _ _⟩

/-- Every saved state stands in relation `Q` to the log up to its SAVE DONE. -/
def Saved (Q : State → List Line → Prop) (l : List Line) : Prop :=
  ∀ m c s t, saved m c s t <:+ l → Q s (saved m c s t)

theorem saved_nil (Q : State → List Line → Prop) : Saved Q [] := by
  intro m c s t h
  simp [saved] at h

theorem Saved.cons {Q : State → List Line → Prop} (h : Saved Q l) {x : Line}
    (hx : x.startsWith .saveDone = false) : Saved Q (x :: l) := by
  intro m c s t ht
  rcases List.suffix_cons_iff.mp ht with he | hs
  · cases he
    simp [Line.startsWith,Line.token] at hx
  · exact h m c s t hs

theorem Saved.save {Q : State → List Line → Prop} (h : Saved Q l) (hs : Q s (saved m c s l)) :
    Saved Q (saved m c s l) := by
  have hb : Saved Q (.state s :: .saveBegin m c :: l) := (h.cons rfl).cons rfl
  intro m' c' s' t ht
  rcases List.suffix_cons_iff.mp ht with he | hs'
  · cases he
    exact hs
  · exact hb m' c' s' t hs'

theorem Saved.of_suffix {Q : State → List Line → Prop} (h : Saved Q l) {t : List Line}
    (ht : t <:+ l) : Saved Q t :=
  fun m c s r hr => h m c s r (hr.trans ht)

theorem Saved.mono {Q Q' : State → List Line → Prop} (hq : ∀ s t, Q s t → Q' s t)
    (h : Saved Q l) : Saved Q' l :=
  fun m c s t ht => hq _ _ (h m c s t ht)

/-- The ids of a client with a SAVE DONE record, newest first. -/
def savedIds (c : ClientId) (l : List Line) : List MessageId :=
  l.filterMap fun
    | .saveDone m d => if d = c then some m else none
    | _ => none

@[simp] theorem savedIds_saved (m : MessageId) (c : ClientId) (s : State) (l : List Line)
    (d : ClientId) :
    savedIds d (saved m c s l) = if c = d then m :: savedIds d l else savedIds d l := by
  unfold savedIds saved
  split_ifs with h <;> simp [h]

theorem savedIds_cons {x : Line} (hx : x.startsWith .saveDone = false) (d : ClientId)
    (l : List Line) : savedIds d (x :: l) = savedIds d l := by
  cases x <;> first | rfl | simp [Line.startsWith,Line.token] at hx

theorem savedIds_replicate (k : ℕ) (ids : Option (MessageId × ClientId)) (d : ClientId)
    (l : List Line) : savedIds d (List.replicate k (.sent ids) ++ l) = savedIds d l := by
  induction k with
  | zero => rfl
  | succ k ih => exact ih

theorem savedIds_sublist {t : List Line} (h : t <:+ l) (d : ClientId) :
    (savedIds d t).Sublist (savedIds d l) :=
  h.sublist.filterMap _

/-- One entry per SAVE DONE record, newest first. It carries the S mark when the
line just below its SAVE BEGIN is a SENT. -/
def records : List Line → List (ClientId × ProcessedMessage)
  | [] => []
  | .saveDone m c :: rest =>
      (c,⟨m,((rest.drop 2).head?.any fun x => x.startsWith .sent)⟩) :: records rest
  | _ :: rest => records rest

theorem records_cons {x : Line} (hx : x.startsWith .saveDone = false) (l : List Line) :
    records (x :: l) = records l := by
  cases x <;> first | rfl | simp [Line.startsWith,Line.token] at hx

theorem records_saved (m : MessageId) (c : ClientId) (s : State) (l : List Line) :
    records (saved m c s l) = (c,⟨m,l.head?.any fun x => x.startsWith .sent⟩) :: records l := by
  simp [saved,records]

theorem records_replicate (k : ℕ) (ids : Option (MessageId × ClientId)) (l : List Line) :
    records (List.replicate k (.sent ids) ++ l) = records l := by
  induction k with
  | zero => rfl
  | succ k ih => exact ih

/-- The records of a client are its saved ids. -/
theorem savedIds_eq_records (c : ClientId) (l : List Line) : savedIds c l =
    (records l).filterMap fun r => if r.1 = c then some r.2.messageId else none := by
  induction l with
  | nil => rfl
  | cons x l ih =>
      cases x with
      | saveDone m d =>
          unfold savedIds at ih ⊢
          rw [records,List.filterMap_cons,List.filterMap_cons,ih]
      | _ => exact ih

/-- The inner walk stops inside the block of its own record, so it swallows none. -/
theorem search_walk (h : Open m c l) (d : ClientId) (ids : List MessageId) (s : State) :
    search d ids (some m) (.state s :: .saveBegin m c :: l) =
      ⟨m,l.head?.any fun x => x.startsWith .sent⟩ :: search d ids none l := by
  cases h <;> rfl

/-- `search_processed` is a filter of the records. -/
theorem search_eq (h : Grammar free l) (d : ClientId) (ids : List MessageId) :
    search d ids none l =
      (records l).filterMap fun r => if r.1 = d ∧ r.2.messageId ∈ ids then some r.2 else none := by
  induction h with
  | empty => rfl
  | start _ _ _ ih => exact ih
  | sent _ _ _ ih => exact ih
  | @save m c s l hl ho ih =>
      rw [records_saved,List.filterMap_cons]
      by_cases hm : c = d ∧ m ∈ ids
      · have hn : ¬(c ≠ d ∨ m ∉ ids) := by tauto
        have hw : search d ids none (saved m c s l) =
            search d ids (some m) (.state s :: .saveBegin m c :: l) := if_neg hn
        rw [hw,search_walk ho,ih,if_pos hm]
      · have hn : c ≠ d ∨ m ∉ ids := by tauto
        have hw : search d ids none (saved m c s l) = search d ids none l := if_pos hn
        rw [hw,ih,if_neg hm]
  | commit _ _ _ _ ih => exact ih

end FlightsOptimizer.LogGrammar
