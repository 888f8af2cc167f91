import FlightsOptimizer.LogDelete
import FlightsOptimizer.LogSearch
import FlightsOptimizer.Recovery

/-!
# The log of ids and the log of text

Replicas are modelled with a log of ids, and the files hold text. Every operation
appends the text of what it records; `restore` and `search_processed` answer on
the text what they answer on the ids, and `restore` deletes the same lines. So
along every run of a replica, crashes among its steps, the files hold the text of
the log and a restart starts from what they say.
-/
namespace FlightsOptimizer.LogRefinement
open Text LineFile LoggerText
open Logger (ClientId MessageId Line)

variable {β : Type}

theorem ofNat_injective : Function.Injective Int.ofNat := fun _ _ h => Int.ofNat.inj h

/-- Ids as integers. -/
def integers {α γ : Type} (f : α → γ) (d : Dict ℕ α) : Dict ℤ γ := d.rekey ofNat_injective f

def integerIds (ids : List ℕ) : List ℤ := ids.map Int.ofNat

def textState (s : Logger.State) : State where
  messagesReceived := integers Int.ofNat s.messagesReceived
  possibleDuplicates := integers integerIds s.possibleDuplicates
  messagesSent := s.messagesSent.map (integers id)

section
variable {α γ : Type} (f : α → γ) (d : Dict ℕ α)

theorem get?_integers (k : ℕ) : (integers f d).get? k = (d.get? k).map f :=
  Dict.get?_rekey ofNat_injective f d k

theorem mapValues_integers {δ : Type} (h : γ → δ) :
    (integers f d).mapValues h = integers (fun a => h (f a)) d :=
  Dict.ext List.map_map

theorem integers_set (k : ℕ) (v : α) : integers f (d.set k v) = (integers f d).set k (f v) :=
  Dict.rekey_set ofNat_injective f d k v

end

def lineText : Line → Text
  | .start messageId clientId => record .start messageId clientId
  | .sent ids => sentLine (ids.map fun i => ((i.1 : ℤ),(i.2 : ℤ)))
  | .saveBegin messageId clientId => record .saveBegin messageId clientId
  | .state s => (textState s).json.dumps
  | .saveDone messageId clientId => record .saveDone messageId clientId
  | .commit messageId clientId => record .commit messageId clientId

theorem startsWith_lineText (l : Line) (t : Logger.LoggerToken) :
    startsWith (lineText l) t = l.startsWith t := by
  cases l with
  | state s => exact startsWith_json (textState s) t
  | sent ids =>
      refine (startsWith_sentLine _ t).trans ?_
      cases t <;> rfl
  | _ =>
      refine (startsWith_record _ t _ _).trans ?_
      cases t <;> rfl

theorem ids_lineText (m c : ℕ) : ids .start (lineText (.start m c)) = some (ofInt m,ofInt c) :=
  ids_record .start m c

theorem clean_lineText (l : Line) : Clean (lineText l) := by
  cases l with
  | state s => exact clean_dumps (textState s).json
  | sent ids =>
      cases ids with
      | none => exact clean_line .sent (by decide) (by decide)
      | some i => exact clean_record .sent i.1 i.2
  | _ => exact clean_record _ _ _

/-- No marker is JSON. -/
theorem loads_lineText (l : Line) : Json.loads (lineText l) =
    match l with
    | .state s => some (textState s).json
    | _ => none := by
  cases l with
  | state s => exact Json.loads_dumps (textState s).json
  | sent ids => cases ids <;> rfl
  | _ => rfl

theorem skipTo_lineText (t : Logger.LoggerToken) (ls : List Line) :
    skipTo t (ls.map lineText) = (Logger.skipTo t ls).map lineText := by
  unfold skipTo Logger.skipTo
  rw [List.dropWhile_map]
  congr 2
  funext l
  exact congrArg not (startsWith_lineText l t)

/-- The walk to a START ends at one, or at the top of the file. -/
theorem skipTo_start (ls : List Line) : Logger.skipTo .start ls = [] ∨
    ∃ m c rest, Logger.skipTo .start ls = .start m c :: rest := by
  induction ls with
  | nil => exact Or.inl rfl
  | cons l ls ih =>
      cases l with
      | start m c => exact Or.inr ⟨m,c,ls,rfl⟩
      | _ => exact ih

/-- The answer of the log of ids, its ids written by `f`. -/
def answer {ι : Type} (f : ℕ → ι) : Logger.Restoration → Restoration ι
  | .nothing => .nothing
  | .raises => .raises
  | .found ⟨restoreType,messageId,clientId,state⟩ =>
      .found restoreType (f messageId) (f clientId) (state.map fun s => (textState s).json)

/-- `str` of an id. -/
def idText (n : ℕ) : Text := ofInt n

theorem parse_answer (r : Logger.Restoration) : (answer idText r).parse = answer Int.ofNat r := by
  cases r with
  | nothing => rfl
  | raises => rfl
  | found r => exact parse_found r.restoreType r.messageId r.clientId _

theorem getLastMessage_lineText (r : Logger.RestoreType) (ls : List Line) :
    getLastMessage r (ls.map lineText) = answer idText (Logger.getLastMessage r ls) := by
  unfold getLastMessage Logger.getLastMessage
  rw [skipTo_lineText]
  rcases Logger.skipTo .saveDone ls with _ | ⟨l,_ | ⟨state,rest⟩⟩
  · rfl
  · rfl
  · simp only [List.map_cons]
    rw [skipTo_lineText]
    rcases skipTo_start rest with hs | ⟨m,c,below,hs⟩
    · rw [hs]
      rfl
    · rw [hs,List.map_cons]
      simp only [ids_lineText,loads_lineText]
      cases state <;> rfl

theorem handleSent_lineText (ls : List Line) :
    handleSent (ls.map lineText) = answer idText (Logger.handleSent ls) := by
  unfold handleSent Logger.handleSent
  rw [skipTo_lineText]
  rcases skipTo_start ls with hs | ⟨m,c,rest,hs⟩
  · rw [hs]
    rfl
  · rw [hs,List.map_cons]
    simp only [ids_lineText]
    unfold committedLine savedLine
    rw [skipTo_lineText,skipTo_lineText]
    rcases Logger.skipTo .saveDone (Logger.skipTo .commit rest) with _ | ⟨l,_ | ⟨state,below⟩⟩
    · rfl
    · rfl
    · simp only [List.map_cons,loads_lineText]
      cases state <;> rfl

theorem restoreCommunication_lineText (ls : List Line) :
    restoreCommunication (ls.map lineText) = answer idText (Logger.restoreCommunication ls) := by
  cases ls with
  | nil => rfl
  | cons l ls =>
      unfold restoreCommunication
      simp only [List.map_cons,startsWith_lineText]
      cases l with
      | commit m c => exact getLastMessage_lineText .commit (.commit m c :: ls)
      | saveDone m c => exact getLastMessage_lineText .saveDone (.saveDone m c :: ls)
      | saveBegin m c => exact handleSent_lineText (.saveBegin m c :: ls)
      | sent ids => exact handleSent_lineText (.sent ids :: ls)
      | start m c => exact handleSent_lineText (.start m c :: ls)
      | state s => rfl

/-- Each client's file holds the text of its entries. -/
def FilesOf {α : Type} (entryText : α → Text) (d : Dict ClientId (List α))
    (files : Dict Text Text) : Prop :=
  ∀ c : ClientId, files.get? (idText c) =
    (d.get? c).map fun entries => unlines (entries.reverse.map entryText)

section
variable {α : Type} {entryText : α → Text} {d : Dict ClientId (List α)} {files : Dict Text Text}

theorem idText_inj {c e : ClientId} : idText c = idText e ↔ c = e :=
  ofInt_injective.eq_iff.trans Int.natCast_inj

theorem FilesOf.appendLine (h : FilesOf entryText d files) (c : ClientId) (entry : α) :
    FilesOf entryText (Logger.appendLine c entry d)
      (LoggerText.appendLine c (entryText entry) files) := by
  have happend : LoggerText.appendLine c (entryText entry) files =
      files.set (idText c) (files.getD (idText c) [] ++ unlines [entryText entry]) := rfl
  intro e
  rw [happend]
  unfold Logger.appendLine Dict.getD
  rw [Dict.get?_set,Dict.get?_set,h c]
  simp only [idText_inj]
  split_ifs with he
  · cases d.get? c with
    | none => rfl
    | some entries =>
        simp only [Option.map_some,Option.getD_some,List.reverse_cons,List.map_append]
        rw [unlines_append]
        rfl
  · exact h e

/-- The same last line goes, or none. -/
theorem FilesOf.deleteLastLine (h : FilesOf entryText d files) (hclean : ∀ e, Clean (entryText e))
    {id : α → MessageId} (m c : ℕ)
    (hstarts : ∀ e, Text.startsWith (idText m) (entryText e) = Logger.startsWithId (id e) m) :
    FilesOf entryText (Logger.deleteLastLine Logger.startsWithId id m c d)
      (deleteMessages (idText m) (idText c) files) := by
  have hfile := h c
  unfold Logger.deleteLastLine
  rcases hentries : d.get? c with _ | _ | ⟨entry,rest⟩
  · rw [hentries] at hfile
    rw [LogDelete.deleteMessages_none hfile]
    exact h
  · rw [hentries] at hfile
    rw [LogDelete.deleteMessages_nil hfile rfl]
    exact h
  · rw [hentries] at hfile
    have hlines : ∀ l ∈ (entry :: rest).reverse.map entryText, Clean l := by
      intro l hl
      obtain ⟨e,-,rfl⟩ := List.mem_map.mp hl
      exact hclean e
    have hread := readLines_unlines hlines
    rw [List.map_reverse,List.reverse_reverse,← List.map_reverse] at hread
    rw [LogDelete.deleteMessages_cons hfile hread,hstarts]
    simp only
    split_ifs
    · intro e
      rw [Dict.get?_set,Dict.get?_set]
      simp only [idText_inj]
      split_ifs with he
      · have hrest : ∀ l ∈ rest.reverse.map entryText, Clean l := fun l hl =>
          hlines l (by simpa using Or.inl (by simpa using hl))
        rw [Option.map_some,List.reverse_cons,List.map_append]
        exact congrArg some (truncateLastLine_unlines hrest (hclean entry))
      · exact h e
    · exact h

end

variable (json : β → Json)

/-- A line of the connection log. -/
def connectionText (e : MessageId × β) : Text := connectionLine e.1 (json e.2)

/-- The files hold the text of the log. -/
structure Refines (f : Logger.Files β) (g : Files) : Prop where
  communication : g.communication = unlines (f.communication.reverse.map lineText)
  connection : FilesOf (connectionText json) f.connection g.connection
  duplicateCatcher : FilesOf idText f.duplicateCatcher g.duplicateCatcher

/-- An operation appends its lines to the communication log. -/
def perform (call : Call) (g : Files) : Files :=
  {g with communication := g.communication ++ unlines call.lines}

variable {json} {f : Logger.Files β} {g : Files} (m c : ℕ)

theorem Refines.append (h : Refines json f g) (ls : List Line) :
    Refines json {f with communication := ls ++ f.communication}
      {g with communication := g.communication ++ unlines (ls.reverse.map lineText)} := by
  refine ⟨?_,h.connection,h.duplicateCatcher⟩
  rw [List.reverse_append,List.map_append,unlines_append,← h.communication]

theorem Refines.start (h : Refines json f g) :
    Refines json (Logger.start m c f) (perform (.start m c) g) :=
  h.append [.start m c]

theorem Refines.sent (h : Refines json f g) (ids : Option (MessageId × ClientId)) :
    Refines json (Logger.sent ids f)
      (perform (.sent (ids.map fun i => ((i.1 : ℤ),(i.2 : ℤ)))) g) :=
  h.append [.sent ids]

theorem Refines.saveCommunication (h : Refines json f g) (s : Logger.State) :
    Refines json (Logger.saveCommunication m c s f)
      (perform (.saveCommunication m c (textState s)) g) :=
  h.append [.saveDone m c,.state s,.saveBegin m c]

theorem Refines.commit (h : Refines json f g) :
    Refines json (Logger.commit m c f) (perform (.commit m c) g) :=
  h.append [.commit m c]

theorem Refines.saveConnection (h : Refines json f g) (messages : β) :
    Refines json (Logger.saveConnection m c messages f)
      (LoggerText.saveConnection m c (json messages) g) :=
  ⟨h.communication,h.connection.appendLine c (m,messages),h.duplicateCatcher⟩

theorem Refines.saveDuplicateCatcher (h : Refines json f g) :
    Refines json (Logger.saveDuplicateCatcher m c f) (LoggerText.saveDuplicateCatcher m c g) :=
  ⟨h.communication,h.connection,h.duplicateCatcher.appendLine c m⟩

theorem Refines.readLines (h : Refines json f g) :
    readLines g.communication = f.communication.map lineText := by
  have hlines : ∀ l ∈ f.communication.reverse.map lineText, Clean l := by
    intro l hl
    obtain ⟨x,-,rfl⟩ := List.mem_map.mp hl
    exact clean_lineText x
  rw [h.communication,readLines_unlines hlines,← List.map_reverse,List.reverse_reverse]

theorem startsWith_idText (m i : ℕ) :
    Text.startsWith (idText m) (idText i) = Logger.startsWithId i m := rfl

theorem startsWith_connectionText (m : ℕ) (e : MessageId × β) :
    Text.startsWith (idText m) (connectionText json e) = Logger.startsWithId e.1 m :=
  Bool.eq_iff_iff.mpr ((LogDelete.startsWith_connectionLine m e.1 (json e.2)).trans
    (LogDelete.startsWith_ofInt m e.1).symm)

/-- The unfinished message is taken out of the same files. -/
theorem Refines.delete (h : Refines json f g) :
    Refines json
      (Logger.deleteDuplicateCatcherMessages Logger.startsWithId m c
        (Logger.deleteConnectionMessages Logger.startsWithId m c f))
      (deleteDuplicateCatcherMessages (idText m) (idText c)
        (deleteConnectionMessages (idText m) (idText c) g)) := by
  refine ⟨h.communication,?_,?_⟩
  · exact h.connection.deleteLastLine (fun e => LogDelete.clean_connectionLine e.1 (json e.2)) m c
      (startsWith_connectionText m)
  · exact h.duplicateCatcher.deleteLastLine (fun i => LogDelete.clean_ofInt i) m c
      (startsWith_idText m)

/-- `Logger.restore` on the text of a log. -/
theorem Refines.restore (h : Refines json f g) :
    (LoggerText.restore g).1 = answer Int.ofNat (Logger.restore Logger.startsWithId f).1 ∧
      Refines json (Logger.restore Logger.startsWithId f).2 (LoggerText.restore g).2 := by
  have hwalk : restoreCommunication (LoggerText.readLines g.communication) =
      answer idText (Logger.restoreCommunication f.communication) := by
    rw [h.readLines,restoreCommunication_lineText]
  unfold LoggerText.restore Logger.restore
  simp only [hwalk]
  rcases Logger.restoreCommunication f.communication with _ | ⟨_ | _ | _,m,c,state⟩ | _
  · exact ⟨rfl,h⟩
  · exact ⟨parse_answer (.found ⟨.commit,m,c,state⟩),h⟩
  · exact ⟨parse_answer (.found ⟨.saveDone,m,c,state⟩),h⟩
  · exact ⟨parse_answer (.found ⟨.sent,m,c,state⟩),h.delete m c⟩
  · exact ⟨rfl,h⟩

def textRestoreState (s : Logger.RestoreState) : RestoreState where
  messagesReceived := integers (fun n : ℕ => .int n) s.messagesReceived
  messagesSent := integers .int s.messagesSent
  possibleDuplicates := integers (fun ids => idsJson (integerIds ids)) s.possibleDuplicates

theorem restoreState_text (state : Option Logger.State) :
    restoreState (state.map fun s => (textState s).json) =
      some (textRestoreState (Logger.RestoreState.ofState state)) := by
  cases state with
  | none => rfl
  | some s =>
      refine (restoreState_json (textState s)).trans (congrArg some ?_)
      obtain ⟨received,sent,duplicates⟩ := s
      unfold RestoreState.of textState textRestoreState Logger.RestoreState.ofState
      simp only [mapValues_integers]
      cases sent with
      | none => rfl
      | some d =>
          simp only [Option.map_some,Option.getD_some,mapValues_integers]
          rfl

theorem addDuplicate_text (m c : ℕ) (s : Logger.RestoreState) :
    addDuplicate m c (textRestoreState s) = some (textRestoreState {s with
      possibleDuplicates :=
        s.possibleDuplicates.set c (s.possibleDuplicates.getD c [] ++ [m])}) := by
  have hget : (textRestoreState s).possibleDuplicates.getD (c : ℤ) (.arr []) =
      idsJson (integerIds (s.possibleDuplicates.getD c [])) := by
    unfold textRestoreState Dict.getD
    rw [get?_integers]
    cases s.possibleDuplicates.get? c <;> rfl
  unfold addDuplicate
  rw [hget]
  unfold idsJson
  simp only
  unfold textRestoreState
  rw [integers_set]
  simp [idsJson,integerIds]

/-- `Restorer.restore` on the text of a log. -/
theorem restored_answer (r : Logger.Restoration) :
    (answer Int.ofNat r).restored = r.restored.map textRestoreState := by
  rcases r with _ | ⟨_ | _ | _,m,c,state⟩ | _
  · rfl
  · exact restoreState_text state
  · refine (congrArg (fun s => s.bind (addDuplicate m c)) (restoreState_text state)).trans ?_
    exact addDuplicate_text m c _
  · refine (congrArg (fun s => s.bind (addDuplicate m c)) (restoreState_text state)).trans ?_
    exact addDuplicate_text m c _
  · rfl

def textMark (p : Logger.ProcessedMessage) : ProcessedMessage := ⟨p.messageId,p.sent⟩

/-- The outer scan at a SAVE DONE. -/
theorem search_saveDone (i d c : ℤ) (ids : List ℤ) (ls : List Text) :
    search c ids none (record .saveDone i d :: ls) =
      if d ≠ c ∨ i ∉ ids then search c ids none ls else search c ids (some (ofInt i)) ls := by
  rw [search,startsWith_record,ids_record]
  simp only [toInt?_ofInt]
  rfl

theorem search_lineText (c : ClientId) (ids : List MessageId) (m : Option MessageId)
    (ls : List Line) :
    search c (integerIds ids) (m.map idText) (ls.map lineText) =
      some ((Logger.search c ids m ls).map fun p => LogSearch.mark (textMark p)) := by
  induction ls generalizing m with
  | nil => cases m <;> rfl
  | cons l ls ih =>
      rw [List.map_cons]
      cases m with
      | none =>
          have hother : l.startsWith .saveDone = false → search c (integerIds ids) none
              (lineText l :: ls.map lineText) =
                some ((Logger.search c ids none ls).map fun p => LogSearch.mark (textMark p)) := by
            intro hl
            exact (LogSearch.search_other ((startsWith_lineText l _).trans hl) _).trans (ih none)
          cases l with
          | saveDone i d =>
              refine (search_saveDone i d c (integerIds ids) _).trans ?_
              have hmem : (i : ℤ) ∈ integerIds ids ↔ i ∈ ids :=
                List.mem_map_of_injective ofNat_injective
              have hne : (d : ℤ) ≠ c ↔ d ≠ c := Int.natCast_inj.not
              simp only [hmem,hne,Logger.search]
              split_ifs
              · exact ih none
              · exact ih (some i)
          | _ => exact hother rfl
      | some m =>
          have hother : l.startsWith .sent = false → l.startsWith .start = false →
              search c (integerIds ids) (some (idText m)) (lineText l :: ls.map lineText) =
                some ((Logger.search c ids (some m) ls).map fun p =>
                  LogSearch.mark (textMark p)) := by
            intro hsent hstart
            exact (LogSearch.search_walk_other ((startsWith_lineText l _).trans hsent)
              ((startsWith_lineText l _).trans hstart) _).trans (ih (some m))
          cases l with
          | sent i =>
              rw [Option.map_some,search,startsWith_lineText]
              exact congrArg (Option.map ((idText m ++ ['S']) :: ·)) (ih none)
          | start i d =>
              rw [Option.map_some,search,startsWith_lineText,startsWith_lineText]
              refine (congrArg (Option.map (idText m :: ·)) (ih none)).trans ?_
              simp [Logger.search,LogSearch.mark,textMark,idText]
          | _ => exact hother rfl rfl

/-- `search_processed` on the text of a log, its entries read back. -/
theorem Refines.search (h : Refines json f g) (c : ClientId) (ids : List MessageId) :
    searchForDuplicateMessages c (integerIds ids) g =
      some ((Logger.searchProcessed c ids f).map textMark) := by
  have hsearch : searchProcessed c (integerIds ids) g =
      some (((Logger.searchProcessed c ids f).map textMark).map LogSearch.mark) := by
    unfold searchProcessed
    rw [h.readLines,List.map_map]
    exact search_lineText c ids none f.communication
  unfold searchForDuplicateMessages
  rw [hsearch]
  exact mapM_map_eq_some LogSearch.fromStr_mark _

/-- What a restart reads from the text of a log. -/
theorem Refines.restored (h : Refines json f g) : (LoggerText.restore g).1.restored =
    (Logger.restore Logger.startsWithId f).1.restored.map textRestoreState := by
  rw [h.restore.1,restored_answer]

open Receiver (Replica Action Work)
open Interruptible (Process Event)

variable (json) in
/-- What an action writes. -/
def write (r : Replica β) : Action β → Files → Files
  | .newMessageReceived m c => perform (.start m c)
  | .messageSent ids => perform (.sent (ids.map fun i => ((i.1 : ℤ),(i.2 : ℤ))))
  | .saveConnection m c messages => LoggerText.saveConnection m c (json messages)
  | .saveDuplicateCatcher m c => LoggerText.saveDuplicateCatcher m c
  | .saveCommunication m c => perform (.saveCommunication m c (textState r.memory.currentState))
  | .commitMessage m c => perform (.commit m c)
  | _ => id

theorem Refines.write {r : Replica β} (h : Refines json r.files g) (a : Action β) :
    Refines json (Receiver.exec a r).files (write json r a g) := by
  cases a with
  | newMessageReceived m c => exact h.start m c
  | messageSent ids => exact h.sent ids
  | saveConnection m c messages => exact h.saveConnection m c messages
  | saveDuplicateCatcher m c => exact h.saveDuplicateCatcher m c
  | saveCommunication m c => exact h.saveCommunication m c r.memory.currentState
  | commitMessage m c => exact h.commit m c
  | _ => exact h

variable (cfg : Eof.Config)

variable (json) in
/-- A replica and the text of its files. An action writes to the files, and a
restart restores them. -/
inductive Beside : Interruptible.Config (Replica β) (Action β) → Files → Prop
  | init : Beside (.idle (Receiver.fresh cfg)) LogRestore.noFiles
  | begin {k k' : Interruptible.Config (Replica β) (Action β)} {g : Files} {w : Work β} :
      Beside k g → (Receiver.process cfg Logger.startsWithId).step k (.begin w) = some k' →
        Beside k' g
  | tick {r : Replica β} {a : Action β} {rest : List (Action β)} {g : Files} :
      Beside ⟨r,a :: rest⟩ g → Beside ⟨Receiver.exec a r,rest⟩ (write json r a g)
  | crash {k k' : Interruptible.Config (Replica β) (Action β)} {g : Files} :
      Beside k g → (Receiver.process cfg Logger.startsWithId).step k .crash = some k' →
        Beside k' (LoggerText.restore g).2

variable {cfg} {k : Interruptible.Config (Replica β) (Action β)}

/-- The files hold the text of the log all along. -/
theorem Beside.refines (h : Beside json cfg k g) : Refines json k.state.files g := by
  induction h with
  | init =>
      refine ⟨rfl,?_,?_⟩
      · exact fun c => rfl
      · exact fun c => rfl
  | begin _ hs ih =>
      rcases Receiver.state_of_step hs with ⟨d,h,-,hk⟩ | ⟨t,b,-,hk⟩ | ⟨a,-,he,-⟩ | ⟨he,-⟩
      · rw [hk]
        exact ih
      · rw [hk]
        exact ih
      · cases he
      · cases he
  | tick _ ih => exact ih.write _
  | crash _ hs ih =>
      have hrecover := (Process.crash_of_step hs).1
      obtain ⟨s,-,hk⟩ := Option.map_eq_some_iff.mp hrecover
      rw [← hk]
      exact ih.restore.2

/-- Each run has its files. -/
theorem exists_beside
    {guard : Interruptible.Config (Replica β) (Action β) → Event (Work β) → Prop}
    (h : (Receiver.process cfg Logger.startsWithId).Run guard k) : ∃ g, Beside json cfg k g := by
  induction h with
  | init => exact ⟨_,.init⟩
  | @step k k' e _ _ hs ih =>
      obtain ⟨g,hg⟩ := ih
      cases e with
      | begin w => exact ⟨g,.begin hg hs⟩
      | tick =>
          obtain ⟨a,rest,hp,rfl⟩ := Process.tick_of_step hs
          obtain ⟨r,pending⟩ := k
          cases hp
          exact ⟨_,.tick hg⟩
      | crash => exact ⟨_,.crash hg hs⟩

/-- A restart comes up exactly when the text can be read, with what it says. -/
theorem Beside.recover (h : Beside json cfg k g) :
    ((LoggerText.restore g).1.restored.isSome = true ↔
        (Receiver.recover cfg Logger.startsWithId k.state).isSome = true) ∧
      ∀ t, Receiver.recover cfg Logger.startsWithId k.state = some t → ∃ s,
        (LoggerText.restore g).1.restored = some (textRestoreState s) ∧
          t.memory = Receiver.Memory.restored cfg s t.files := by
  rw [h.refines.restored,Option.isSome_map]
  unfold Receiver.recover
  constructor
  · rw [Option.isSome_map]
  · intro t ht
    obtain ⟨s,hs,rfl⟩ := Option.map_eq_some_iff.mp ht
    exact ⟨s,by rw [hs]; rfl,rfl⟩

end FlightsOptimizer.LogRefinement
