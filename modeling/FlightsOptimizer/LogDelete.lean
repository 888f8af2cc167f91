import FlightsOptimizer.LogRestore

/-!
# What restore deletes

An unfinished message may have reached the connection log or the duplicate
catcher log of its client before the crash, and restore takes its line away
again. It tells the line by comparing the beginning of the last line with the
literal of the id, so it also takes away the line of a longer id that begins
with the same digits.
-/
namespace FlightsOptimizer.LogDelete
open Text LineFile LoggerText LogRestore

/-- The lines that `save_connection` has appended to a file. -/
def connectionLines (saved : List (ℤ × Json)) : List Text :=
  saved.map fun e => connectionLine e.1 e.2

/-- The lines that `save_duplicate_catcher` has appended to a file. -/
def duplicateLines (saved : List ℤ) : List Text := saved.map ofInt

/-- A client's file holds lines; without a line it may be missing. -/
def Holds (file : Option Text) (lines : List Text) : Prop := file.getD [] = unlines lines

/-- The last entry goes if it was written for the message. -/
def dropOwn {α : Type} (id : α → ℤ) (m : ℤ) (saved : List α) : List α :=
  if saved.getLast?.map id = some m then saved.dropLast else saved

/-- The literal of another id does not begin with that of the message. -/
def Apart (m i : ℤ) : Prop := i = m ∨ ¬ ofInt m <+: ofInt i

instance (m i : ℤ) : Decidable (Apart m i) := inferInstanceAs (Decidable (_ ∨ _))

/-- Restore leaves the files as if the message had written nothing, and every
other file as it was. -/
structure DeletesOwn (m c : ℤ) (f : Files) (connection : List (ℤ × Json))
    (duplicateCatcher : List ℤ) : Prop where
  connection : Holds ((restore f).2.connection.get? (ofInt c))
    (connectionLines (dropOwn Prod.fst m connection))
  duplicateCatcher : Holds ((restore f).2.duplicateCatcher.get? (ofInt c))
    (duplicateLines (dropOwn id m duplicateCatcher))
  communication : (restore f).2.communication = f.communication
  others : ∀ d, d ≠ ofInt c → (restore f).2.connection.get? d = f.connection.get? d ∧
    (restore f).2.duplicateCatcher.get? d = f.duplicateCatcher.get? d

variable {m c : ℤ} {α : Type}

theorem unlines_ne (ls : List Text) (l : Text) : unlines ls ≠ unlines (ls ++ [l]) := by
  intro h
  have hlen := congrArg List.length h
  rw [unlines_append,List.length_append] at hlen
  simp [unlines] at hlen

variable {messageId clientId : Text} {files : Dict Text Text}

theorem deleteMessages_none (h : files.get? clientId = none) :
    deleteMessages messageId clientId files = files := by
  unfold deleteMessages
  rw [h]

theorem deleteMessages_nil {file : Text} (h : files.get? clientId = some file)
    (hr : readLines file = []) : deleteMessages messageId clientId files = files := by
  unfold deleteMessages
  simp only [h,hr]

theorem deleteMessages_cons {file l : Text} {ls : List Text} (h : files.get? clientId = some file)
    (hr : readLines file = l :: ls) : deleteMessages messageId clientId files =
      if Text.startsWith messageId l then files.set clientId (truncateLastLine file) else files := by
  unfold deleteMessages
  simp only [h,hr]

theorem get?_deleteMessages_ne {d : Text} (hd : d ≠ clientId) (files : Dict Text Text) :
    (deleteMessages messageId clientId files).get? d = files.get? d := by
  rcases Option.eq_none_or_eq_some (files.get? clientId) with hf | ⟨file,hf⟩
  · rw [deleteMessages_none hf]
  · cases hr : readLines file with
    | nil => rw [deleteMessages_nil hf hr]
    | cons l ls =>
        rw [deleteMessages_cons hf hr]
        split_ifs
        · exact Dict.get?_set_ne files (Ne.symm hd) _
        · rfl

/-- What the deletion leaves of a file of lines. -/
theorem deleteMessages_holds {lines : List Text} (h : Holds (files.get? clientId) lines)
    (hl : ∀ l ∈ lines, Clean l) (messageId : Text) :
    Holds ((deleteMessages messageId clientId files).get? clientId)
      (if lines.getLast?.any (Text.startsWith messageId) then lines.dropLast else lines) := by
  rcases Option.eq_none_or_eq_some (files.get? clientId) with hf | ⟨file,hf⟩
  · rw [deleteMessages_none hf]
    rw [hf] at h ⊢
    cases lines with
    | nil => exact h
    | cons l ls => exact absurd h.symm (by simp [unlines])
  · have hfile : file = unlines lines := by
      rw [hf] at h
      exact h
    have hread := readLines_unlines hl
    rw [← hfile] at hread
    rcases List.eq_nil_or_concat' lines with rfl | ⟨ls,l,rfl⟩
    · rw [deleteMessages_nil hf hread]
      exact h
    · have hls : ∀ k ∈ ls, Clean k := fun k hk => hl k (List.mem_append_left _ hk)
      rw [List.reverse_append] at hread
      rw [deleteMessages_cons hf hread,List.getLast?_concat,Option.any_some,List.dropLast_concat]
      split_ifs
      · rw [Dict.get?_set_self,hfile]
        exact truncateLastLine_unlines hls (hl l (by simp))
      · exact h

/-- The deletion acts as it should exactly when the id of the last line does not
only begin like that of the message. -/
theorem deleteMessages_iff (id : α → ℤ) (lineOf : α → Text) (hclean : ∀ e, Clean (lineOf e))
    (hstarts : ∀ e, Text.startsWith (ofInt m) (lineOf e) = true ↔ ofInt m <+: ofInt (id e))
    {saved : List α} (h : Holds (files.get? clientId) (saved.map lineOf)) :
    Holds ((deleteMessages (ofInt m) clientId files).get? clientId)
        ((dropOwn id m saved).map lineOf) ↔
      ∀ e ∈ saved.getLast?, Apart m (id e) := by
  have hlines : ∀ l ∈ saved.map lineOf, Clean l := by
    intro l hl
    obtain ⟨e,_,rfl⟩ := List.mem_map.mp hl
    exact hclean e
  have hdelete := deleteMessages_holds h hlines (ofInt m)
  rcases List.eq_nil_or_concat' saved with rfl | ⟨ss,e,rfl⟩
  · exact iff_of_true hdelete fun e he => by cases he
  · rw [List.map_append,List.map_singleton,List.getLast?_concat,List.dropLast_concat,
      Option.any_some] at hdelete
    unfold dropOwn
    rw [List.getLast?_concat,List.dropLast_concat,Option.map_some]
    by_cases hprefix : ofInt m <+: ofInt (id e)
    · rw [if_pos ((hstarts e).mpr hprefix)] at hdelete
      by_cases hown : id e = m
      · rw [if_pos (congrArg some hown)]
        exact iff_of_true hdelete fun d hd => Or.inl (by cases hd; exact hown)
      · rw [if_neg fun hsome => hown (Option.some.inj hsome)]
        refine iff_of_false ?_ ?_
        · intro hkept
          rw [List.map_append,List.map_singleton] at hkept
          exact unlines_ne _ _ (hdelete.symm.trans hkept)
        · intro hapart
          rcases hapart e rfl with ho | hn
          · exact hown ho
          · exact hn hprefix
    · have hown : id e ≠ m := by
        rintro rfl
        exact hprefix List.prefix_rfl
      rw [if_neg fun hs => hprefix ((hstarts e).mp hs)] at hdelete
      rw [if_neg fun hsome => hown (Option.some.inj hsome),List.map_append,List.map_singleton]
      exact iff_of_true hdelete fun d hd => Or.inr (by cases hd; exact hprefix)

theorem startsWith_ofInt (m i : ℤ) :
    Text.startsWith (ofInt m) (ofInt i) = true ↔ ofInt m <+: ofInt i := by
  unfold Text.startsWith
  exact List.isPrefixOf_iff_prefix

/-- A line of the connection log goes on with a slash, which is in no literal. -/
theorem startsWith_connectionLine (m i : ℤ) (messages : Json) :
    Text.startsWith (ofInt m) (connectionLine i messages) = true ↔ ofInt m <+: ofInt i := by
  unfold Text.startsWith connectionLine
  rw [List.isPrefixOf_iff_prefix]
  constructor
  · intro h
    rcases Nat.lt_or_ge (ofInt i).length (ofInt m).length with hlt | hle
    · have hlong : ofInt i ++ ['/'] <+: ofInt m := by
        refine List.prefix_of_prefix_length_le ?_ h (by rw [List.length_append]; exact hlt)
        exact (List.prefix_append_right_inj _).mpr ⟨messages.dumps,rfl⟩
      have hmem : '/' ∈ ofInt m := hlong.subset (by simp)
      exact absurd hmem (not_mem_ofInt (by decide) rfl m)
    · exact List.prefix_of_prefix_length_le h (List.prefix_append _ _) hle
  · intro h
    exact h.trans (List.prefix_append _ _)

theorem clean_ofInt (z : ℤ) : Clean (ofInt z) :=
  ⟨ofInt_ne_nil z,printable_clean (Json.printable_ofInt z)⟩

theorem clean_connectionLine (m : ℤ) (messages : Json) : Clean (connectionLine m messages) := by
  refine ⟨?_,printable_clean ?_⟩
  · intro h
    simp [connectionLine] at h
  · unfold connectionLine
    rw [Json.printable_append,Json.printable_cons]
    exact ⟨Json.printable_ofInt m,by decide,Json.printable_dumps messages⟩

/-- The log ends inside the message: its START, and a SENT for each message sent. -/
def unfinishedLog (calls : List Call) (m c : ℤ) (k : ℕ) : Text :=
  communicationLog (calls ++ (opened m c k).reverse)

theorem restore_sent {f : Files} {messageId clientId : Text} {state : Option Json}
    (h : restoreCommunication (readLines f.communication) =
      .found .sent messageId clientId state) :
    (restore f).2 = deleteDuplicateCatcherMessages messageId clientId
      (deleteConnectionMessages messageId clientId f) := by
  unfold restore
  simp only [h]

/-- Restarting inside a message deletes from the two files of its client. -/
theorem restore_unfinished (f : Files) (calls : List Call) (m c : ℤ) (k : ℕ) :
    (restore (withLog (unfinishedLog calls m c k) f)).2 =
      deleteDuplicateCatcherMessages (ofInt m) (ofInt c)
        (deleteConnectionMessages (ofInt m) (ofInt c)
          (withLog (unfinishedLog calls m c k) f)) := by
  have hread : readLines (unfinishedLog calls m c k) =
      bottomUp (opened m c k ++ calls.reverse) := by
    unfold unfinishedLog
    rw [readLines_calls,List.reverse_append,List.reverse_reverse]
  have hwalk := restoreCommunication_opened m c k calls.reverse
  rw [← hread] at hwalk
  exact restore_sent hwalk

/-- Restore deletes what the unfinished message wrote and nothing else exactly
when, in both files, the last line is not of another id that begins with the
literal of the message's. -/
theorem deletes_own (f : Files) (calls : List Call) (m c : ℤ) (k : ℕ)
    (connection : List (ℤ × Json)) (duplicateCatcher : List ℤ)
    (hc : Holds (f.connection.get? (ofInt c)) (connectionLines connection))
    (hd : Holds (f.duplicateCatcher.get? (ofInt c)) (duplicateLines duplicateCatcher)) :
    DeletesOwn m c (withLog (unfinishedLog calls m c k) f) connection duplicateCatcher ↔
      (∀ e ∈ connection.getLast?, Apart m e.1) ∧ ∀ i ∈ duplicateCatcher.getLast?, Apart m i := by
  have hrestore := restore_unfinished f calls m c k
  have hconnection := deleteMessages_iff Prod.fst (fun e => connectionLine e.1 e.2)
    (fun e => clean_connectionLine e.1 e.2) (fun e => startsWith_connectionLine m e.1 e.2) hc
  have hduplicates := deleteMessages_iff id ofInt clean_ofInt (startsWith_ofInt m) hd
  refine Iff.trans ?_ (and_congr hconnection hduplicates)
  constructor
  · intro h
    have hleft := h.connection
    have hright := h.duplicateCatcher
    rw [hrestore] at hleft hright
    exact ⟨hleft,hright⟩
  · rintro ⟨hleft,hright⟩
    refine ⟨?_,?_,?_,?_⟩
    · rw [hrestore]
      exact hleft
    · rw [hrestore]
      exact hright
    · rw [hrestore]
      rfl
    · intro d hne
      rw [hrestore]
      exact ⟨get?_deleteMessages_ne hne f.connection,get?_deleteMessages_ne hne f.duplicateCatcher⟩

/-- The client 5 has one batch, of the message 12. -/
def batchTwelve : Files := saveDuplicateCatcher 12 5 (saveConnection 12 5 (.arr []) noFiles)

/-- The message 3 is unfinished. -/
theorem deletes_own_three : DeletesOwn 3 5 (withLog (unfinishedLog [] 3 5 0) batchTwelve)
    [(12,.arr [])] [12] :=
  (deletes_own batchTwelve [] 3 5 0 [(12,.arr [])] [12] rfl rfl).mpr (by decide)

/-- The message 1 is unfinished, and the batch of the message 12 goes. -/
theorem deletes_twelve : ¬ DeletesOwn 1 5 (withLog (unfinishedLog [] 1 5 0) batchTwelve)
    [(12,.arr [])] [12] := by
  intro h
  have hholds : Holds (batchTwelve.connection.get? (ofInt 5)) (connectionLines [(12,.arr [])]) := rfl
  have hconnection := deleteMessages_iff Prod.fst (fun e => connectionLine e.1 e.2)
    (fun e => clean_connectionLine e.1 e.2) (fun e => startsWith_connectionLine 1 e.1 e.2) hholds
  have hkept := h.connection
  rw [restore_unfinished] at hkept
  exact absurd (hconnection.mp hkept _ rfl) (by decide)

end FlightsOptimizer.LogDelete
