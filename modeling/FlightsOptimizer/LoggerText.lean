import FlightsOptimizer.Json
import FlightsOptimizer.LineFile
import FlightsOptimizer.Logger

/-!
# The durability log as text

The files of `commons/logger.py` to the letter: what each operation appends, and
the readers, which split lines, parse numbers and load JSON. Ids are integers
here. A reader that raises ends in `raises` or in none; a StopIteration is part
of its control flow and is modelled by the end of the list.
-/
namespace FlightsOptimizer.LoggerText
open Text LineFile
open Logger (LoggerToken RestoreType)

/-- The dictionary that `LogStorer` collects and `save_communication` dumps. -/
structure State where
  messagesReceived : Dict ℤ ℤ
  possibleDuplicates : Dict ℤ (List ℤ)
  messagesSent : Option (Dict ℤ ℤ)

def State.empty : State := ⟨.empty,.empty,none⟩

/-- An integer key is dumped as its decimal literal. -/
def dictJson {α : Type} (f : α → Json) (d : Dict ℤ α) : Json :=
  .obj (d.entries.map fun p => (ofInt p.1,f p.2))

def idsJson (ids : List ℤ) : Json := .arr (ids.map .int)

def State.json (s : State) : Json :=
  .obj ([("messages_received".toList,dictJson .int s.messagesReceived),
    ("possible_duplicates".toList,dictJson idsJson s.possibleDuplicates)] ++
    s.messagesSent.toList.map fun d => ("messages_sent".toList,dictJson .int d))

def token : LoggerToken → Text
  | .start => "START".toList
  | .sent => "SENT".toList
  | .saveBegin => "SAVE BEGIN".toList
  | .saveDone => "SAVE DONE".toList
  | .commit => "COMMIT".toList

def line (t : LoggerToken) (messageId clientId : Text) : Text :=
  token t ++ ' ' :: messageId ++ " / ".toList ++ clientId

def record (t : LoggerToken) (messageId clientId : ℤ) : Text :=
  line t (ofInt messageId) (ofInt clientId)

/-- The ids of the last message received, which a SENT line is written with. -/
def sentLine : Option (ℤ × ℤ) → Text
  | none => line .sent "None".toList "None".toList
  | some (messageId,clientId) => record .sent messageId clientId

/-- A call of one of the operations on the communication log. -/
inductive Call
  | start (messageId clientId : ℤ)
  | sent (ids : Option (ℤ × ℤ))
  | saveCommunication (messageId clientId : ℤ) (message : State)
  | commit (messageId clientId : ℤ)

/-- The lines that it appends, under one lock. -/
def Call.lines : Call → List Text
  | .start messageId clientId => [record .start messageId clientId]
  | .sent ids => [sentLine ids]
  | .saveCommunication messageId clientId message =>
      [record .saveBegin messageId clientId,message.json.dumps,record .saveDone messageId clientId]
  | .commit messageId clientId => [record .commit messageId clientId]

def communicationLines (calls : List Call) : List Text := calls.flatMap Call.lines

def communicationLog (calls : List Call) : Text := unlines (communicationLines calls)

def startsWith (l : Text) (t : LoggerToken) : Bool := Text.startsWith (token t) l

/-- `while not line.startswith(t): line = next(lines)`. -/
def skipTo (t : LoggerToken) (lines : List Text) : List Text :=
  lines.dropWhile fun l => !startsWith l t

/-- `line.split(token)[1].split(" / ")`, both parts stripped. -/
def ids (t : LoggerToken) (l : Text) : Option (Text × Text) :=
  match (split (token t) l)[1]? with
  | none => none
  | some s =>
      match split " / ".toList s with
      | [messageId,clientId] => some (strip messageId,strip clientId)
      | _ => none

/-- What `Logger.restore` answers, with its ids as text or parsed. -/
inductive Restoration (ι : Type)
  | nothing
  | found (restoreType : RestoreType) (messageId clientId : ι) (state : Option Json)
  | raises

/-- The lines are those of the file from the bottom to the top. -/
def getLastMessage (restoreType : RestoreType) (lines : List Text) : Restoration Text :=
  match skipTo .saveDone lines with
  | _ :: state :: rest =>
      match skipTo .start rest with
      | [] => .nothing
      | l :: _ =>
          match ids .start l,Json.loads state with
          | some (messageId,clientId),some state =>
              .found restoreType messageId clientId (some state)
          | _,_ => .raises
  | _ => .nothing

/-- The line below the next SAVE DONE. -/
def savedLine (lines : List Text) : Option Text :=
  match skipTo .saveDone lines with
  | _ :: state :: _ => some state
  | _ => none

/-- The line below the SAVE DONE of the last COMMITed message. -/
def committedLine (lines : List Text) : Option Text := savedLine (skipTo .commit lines)

def handleSent (lines : List Text) : Restoration Text :=
  match skipTo .start lines with
  | [] => .nothing
  | l :: rest =>
      match ids .start l with
      | none => .raises
      | some (messageId,clientId) =>
          match committedLine rest with
          | none => .found .sent messageId clientId none
          | some state =>
              match Json.loads state with
              | none => .raises
              | some state => .found .sent messageId clientId (some state)

/-- The dispatch of `Logger.restore` on the last line. -/
def restoreCommunication (lines : List Text) : Restoration Text :=
  match lines with
  | [] => .nothing
  | l :: _ =>
      if startsWith l .commit then getLastMessage .commit lines
      else if startsWith l .saveDone then getLastMessage .saveDone lines
      else if startsWith l .saveBegin || startsWith l .sent || startsWith l .start then
        handleSent lines
      else .nothing

/-- `int(message_id.strip()), int(client_id.strip())`. -/
def Restoration.parse : Restoration Text → Restoration ℤ
  | .nothing => .nothing
  | .raises => .raises
  | .found restoreType messageId clientId state =>
      match toInt? messageId,toInt? clientId with
      | some messageId,some clientId => .found restoreType messageId clientId state
      | _,_ => .raises

/-- The files of one suffix. A client's own two stand under the text of its id,
which their names begin with. -/
structure Files where
  communication : Text
  connection : Dict Text Text
  duplicateCatcher : Dict Text Text

def chunkSize : ℕ := 1024

def readLines (file : Text) : List Text := readBottomToTop chunkSize file

/-- Opening a client's file in append mode, and one line. -/
def appendLine (clientId : ℤ) (l : Text) (files : Dict Text Text) : Dict Text Text :=
  files.set (ofInt clientId) (files.getD (ofInt clientId) [] ++ unlines [l])

def connectionLine (messageId : ℤ) (messages : Json) : Text :=
  ofInt messageId ++ '/' :: messages.dumps

def saveConnection (messageId clientId : ℤ) (messages : Json) (f : Files) : Files :=
  {f with connection := appendLine clientId (connectionLine messageId messages) f.connection}

def saveDuplicateCatcher (messageId clientId : ℤ) (f : Files) : Files :=
  {f with duplicateCatcher := appendLine clientId (ofInt messageId) f.duplicateCatcher}

/-- `delete_connection_messages` and `delete_duplicate_catcher_messages`, which
differ in the file only. A missing or an empty file is left alone. -/
def deleteMessages (messageId clientId : Text) (files : Dict Text Text) : Dict Text Text :=
  match files.get? clientId with
  | none => files
  | some file =>
      match readLines file with
      | [] => files
      | lineToSearch :: _ =>
          if Text.startsWith messageId lineToSearch then
            files.set clientId (truncateLastLine file)
          else files

def deleteConnectionMessages (messageId clientId : Text) (f : Files) : Files :=
  {f with connection := deleteMessages messageId clientId f.connection}

def deleteDuplicateCatcherMessages (messageId clientId : Text) (f : Files) : Files :=
  {f with duplicateCatcher := deleteMessages messageId clientId f.duplicateCatcher}

/-- `Logger.restore`. Only the SENT branch deletes, after it has loaded the state. -/
def restore (f : Files) : Restoration ℤ × Files :=
  let walk := restoreCommunication (readLines f.communication)
  match walk with
  | .found .sent messageId clientId _ =>
      (walk.parse,deleteDuplicateCatcherMessages messageId clientId
        (deleteConnectionMessages messageId clientId f))
  | _ => (walk.parse,f)

/-- What a restarted replica starts from: values as they were loaded. -/
structure RestoreState where
  messagesReceived : Dict ℤ Json
  messagesSent : Dict ℤ Json
  possibleDuplicates : Dict ℤ Json

/-- The dictionary of a list of pairs. -/
def dict {κ α : Type} [DecidableEq κ] (ps : List (κ × α)) : Dict κ α :=
  ps.foldl (fun d p => d.set p.1 p.2) .empty

def asDict : Json → Option (Dict Text Json)
  | .obj members => some (dict members)
  | _ => none

/-- `{int(k): v for k, v in d.items()}`. -/
def intKeys (d : Dict Text Json) : Option (Dict ℤ Json) :=
  (d.entries.mapM fun p => (toInt? p.1).map fun k => (k,p.2)).map dict

/-- A missing entry of the state stands for an empty dictionary. -/
def entry (name : String) (state : Dict Text Json) : Option (Dict ℤ Json) :=
  match state.get? name.toList with
  | none => some .empty
  | some v => (asDict v).bind intKeys

/-- `if not state`. -/
def isFalsy : Json → Bool
  | .null | .bool false | .arr [] | .obj [] => true
  | .int z => z = 0
  | .str s => s = []
  | _ => false

def restoreState (state : Option Json) : Option RestoreState :=
  match state with
  | none => some ⟨.empty,.empty,.empty⟩
  | some v =>
      if isFalsy v then some ⟨.empty,.empty,.empty⟩
      else do
        let state ← asDict v
        let messagesReceived ← entry "messages_received" state
        let messagesSent ← entry "messages_sent" state
        let possibleDuplicates ← entry "possible_duplicates" state
        some ⟨messagesReceived,messagesSent,possibleDuplicates⟩

/-- `possible_duplicates.get(client_id, []) + [message_id]`. -/
def addDuplicate (messageId clientId : ℤ) (s : RestoreState) : Option RestoreState :=
  match s.possibleDuplicates.getD clientId (.arr []) with
  | .arr ids => some {s with
      possibleDuplicates := s.possibleDuplicates.set clientId (.arr (ids ++ [.int messageId]))}
  | _ => none

/-- `Restorer.restore`, on the answer of the logger. -/
def Restoration.restored : Restoration ℤ → Option RestoreState
  | .raises => none
  | .nothing => restoreState none
  | .found .commit _ _ state => restoreState state
  | .found _ messageId clientId state =>
      (restoreState state).bind (addDuplicate messageId clientId)

/-- `search_processed`: the outer scan and the inner walk share one generator.
The first argument is the id whose START or SENT the inner walk looks for. -/
def search (clientId : ℤ) (idsToSearch : List ℤ) :
    Option Text → List Text → Option (List Text)
  | _,[] => some []
  | none,l :: rest =>
      if startsWith l .saveDone then
        match ids .saveDone l with
        | none => none
        | some (messageId,messageClientId) =>
            match toInt? messageClientId,toInt? messageId with
            | some c,some m =>
                if c ≠ clientId ∨ m ∉ idsToSearch then search clientId idsToSearch none rest
                else search clientId idsToSearch (some messageId) rest
            | some c,none => if c ≠ clientId then search clientId idsToSearch none rest else none
            | none,_ => none
      else search clientId idsToSearch none rest
  | some messageId,l :: rest =>
      if startsWith l .sent then
        (search clientId idsToSearch none rest).map ((messageId ++ ['S']) :: ·)
      else if startsWith l .start then
        (search clientId idsToSearch none rest).map (messageId :: ·)
      else search clientId idsToSearch (some messageId) rest

def searchProcessed (clientId : ℤ) (idsToSearch : List ℤ) (f : Files) : Option (List Text) :=
  search clientId idsToSearch none (readLines f.communication)

structure ProcessedMessage where
  messageId : ℤ
  sent : Bool
  deriving DecidableEq

/-- `ProcessedMessage.from_str`. -/
def fromStr (messageStr : Text) : Option ProcessedMessage := do
  let first ← (split ['S'] messageStr).head?
  let messageId ← toInt? first
  some ⟨messageId,decide ('S' ∈ messageStr)⟩

def searchForDuplicateMessages (clientId : ℤ) (idsToSearch : List ℤ) (f : Files) :
    Option (List ProcessedMessage) := do
  let messages ← searchProcessed clientId idsToSearch f
  messages.mapM fromStr

def obtainAllConnectionMessages (clientId : ℤ) (f : Files) : Option (List Json) :=
  match f.connection.get? (ofInt clientId) with
  | none => some []
  | some file => (readLines file).mapM fun l =>
      match splitMax ['/'] 1 l with
      | [_,message] => Json.loads (strip message)
      | _ => none

variable {t t' : LoggerToken} {m c : ℤ} {lines : List Text} {l : Text}

theorem startsWith_line (t t' : LoggerToken) (messageId clientId : Text) :
    startsWith (line t messageId clientId) t' = decide (t = t') := by
  cases t <;> cases t' <;> rfl

theorem startsWith_record (t t' : LoggerToken) (m c : ℤ) :
    startsWith (record t m c) t' = decide (t = t') := startsWith_line t t' _ _

theorem startsWith_sentLine (i : Option (ℤ × ℤ)) (t : LoggerToken) :
    startsWith (sentLine i) t = decide (.sent = t) := by
  cases i <;> exact startsWith_line .sent t _ _

/-- A JSON line begins with a brace. -/
theorem startsWith_json (s : State) (t : LoggerToken) : startsWith s.json.dumps t = false := by
  cases t <;> rfl

theorem skipTo_cons (l : Text) (lines : List Text) (t : LoggerToken) :
    skipTo t (l :: lines) = if startsWith l t then l :: lines else skipTo t lines := by
  unfold skipTo
  rw [List.dropWhile_cons]
  cases startsWith l t <;> rfl

/-- The ids of a line, whatever its token: the token begins with a capital and
the separator holds a slash, and neither is in a literal. -/
theorem ids_record (t : LoggerToken) (m c : ℤ) : ids t (record t m c) = some (ofInt m,ofInt c) := by
  have hslash : ∀ z, '/' ∉ ofInt z := not_mem_ofInt (by decide) rfl
  have hsep : " / ".toList = [' '] ++ '/' :: [' '] := rfl
  have hbody : split " / ".toList (' ' :: ofInt m ++ " / ".toList ++ ofInt c) =
      [' ' :: ofInt m,ofInt c] := by
    rw [hsep]
    refine split_two (by decide) (clean_of_not_mem ?_ (by decide)) ?_
    · simpa using hslash m
    · exact splitFirst_not_mem (x := '/') (by decide) (hslash c)
  obtain ⟨x,w,hw,hx⟩ : ∃ x w, token t = x :: w ∧ (x = 'S' ∨ x = 'C') := by
    cases t
    · exact ⟨_,_,rfl,Or.inl rfl⟩
    · exact ⟨_,_,rfl,Or.inl rfl⟩
    · exact ⟨_,_,rfl,Or.inl rfl⟩
    · exact ⟨_,_,rfl,Or.inl rfl⟩
    · exact ⟨_,_,rfl,Or.inr rfl⟩
  have hcapital : x ∉ ' ' :: ofInt m ++ " / ".toList ++ ofInt c := by
    have hint : ∀ z, x ∉ ofInt z := by
      rcases hx with rfl | rfl <;> exact not_mem_ofInt (by decide) rfl
    have hspace : x ≠ ' ' ∧ x ∉ [' '] ++ '/' :: [' '] := by
      rcases hx with rfl | rfl <;> decide
    rw [hsep,List.mem_append,List.mem_append,List.mem_cons]
    rintro (((h | h) | h) | h)
    · exact hspace.1 h
    · exact hint m h
    · exact hspace.2 h
    · exact hint c h
  have hline : split (token t) (record t m c) =
      [[],' ' :: ofInt m ++ " / ".toList ++ ofInt c] := by
    have hrecord : record t m c = [] ++ token t ++ (' ' :: ofInt m ++ " / ".toList ++ ofInt c) := by
      simp [record,line]
    rw [hrecord]
    refine split_two ?_ (Framing.clean_nil _) (splitFirst_not_mem (x := x) ?_ hcapital)
    · rw [hw]
      exact List.cons_ne_nil _ _
    · rw [hw]
      exact List.mem_cons_self
  unfold ids
  rw [hline]
  change (match split " / ".toList (' ' :: ofInt m ++ " / ".toList ++ ofInt c) with
    | [messageId,clientId] => some (strip messageId,strip clientId)
    | _ => none) = _
  rw [hbody]
  simp only [strip_space_ofInt,strip_ofInt]

theorem parse_found (r : RestoreType) (m c : ℤ) (state : Option Json) :
    (Restoration.found r (ofInt m) (ofInt c) state).parse = .found r m c state := by
  unfold Restoration.parse
  simp only [toInt?_ofInt]

theorem printable_clean {s : Text} (hs : Json.Printable s) : ∀ c ∈ s, isLineBreak c = false := by
  intro c hc
  have hp := hs c hc
  by_contra hb
  simp only [isLineBreak,Bool.not_eq_false,Bool.or_eq_true,decide_eq_true_eq,List.mem_cons,
    List.not_mem_nil,or_false] at hb
  rcases hb with (rfl | rfl) | hb
  · exact absurd hp (by decide)
  · exact absurd hp (by decide)
  · omega

theorem clean_line (t : LoggerToken) {messageId clientId : Text} (hm : Json.Printable messageId)
    (hc : Json.Printable clientId) : Clean (line t messageId clientId) := by
  have ht : Json.Printable (token t) ∧ token t ≠ [] := by cases t <;> decide
  refine ⟨?_,printable_clean ?_⟩
  · intro h
    simp [line] at h
  · unfold line
    rw [Json.printable_append,Json.printable_append,Json.printable_append,Json.printable_cons]
    exact ⟨⟨⟨ht.1,by decide,hm⟩,by decide⟩,hc⟩

theorem clean_record (t : LoggerToken) (m c : ℤ) : Clean (record t m c) :=
  clean_line t (Json.printable_ofInt m) (Json.printable_ofInt c)

theorem clean_dumps (v : Json) : Clean v.dumps := by
  refine ⟨?_,printable_clean (Json.printable_dumps v)⟩
  intro h
  have hpos := Json.length_dumps_pos v
  rw [h] at hpos
  cases hpos

theorem Call.clean (call : Call) : ∀ l ∈ call.lines, Clean l := by
  cases call with
  | start m c => exact List.forall_mem_singleton.mpr (clean_record .start m c)
  | sent i =>
      refine List.forall_mem_singleton.mpr ?_
      cases i with
      | none => exact clean_line .sent (by decide) (by decide)
      | some i => exact clean_record .sent i.1 i.2
  | saveCommunication m c s =>
      intro l hl
      simp only [Call.lines,List.mem_cons,List.not_mem_nil,or_false] at hl
      rcases hl with rfl | rfl | rfl
      · exact clean_record .saveBegin m c
      · exact clean_dumps s.json
      · exact clean_record .saveDone m c
  | commit m c => exact List.forall_mem_singleton.mpr (clean_record .commit m c)

theorem readLines_unlines {ls : List Text} (h : ∀ l ∈ ls, Clean l) :
    readLines (unlines ls) = ls.reverse :=
  readBottomToTop_unlines (by decide) h

/-- The readers see the lines of the calls from the last to the first. -/
theorem readLines_communicationLog (calls : List Call) :
    readLines (communicationLog calls) = (communicationLines calls).reverse := by
  refine readLines_unlines fun l hl => ?_
  obtain ⟨call,_,hl⟩ := List.mem_flatMap.mp hl
  exact call.clean l hl

theorem mapM_map {α γ δ : Type} {f : α → γ} {g : γ → Option δ} {value : α → δ}
    (h : ∀ a, g (f a) = some (value a)) (as : List α) : (as.map f).mapM g = some (as.map value) := by
  induction as with
  | nil => rfl
  | cons a as ih =>
      rw [List.map_cons,List.mapM_cons,h,ih]
      rfl

theorem mapM_map_eq_some {α γ : Type} {f : α → γ} {g : γ → Option α} (h : ∀ a, g (f a) = some a)
    (as : List α) : (as.map f).mapM g = some as := by
  have hmap := mapM_map h as
  rwa [List.map_id'] at hmap

theorem upsert_new {κ α : Type} [DecidableEq κ] {k : κ} {ps : List (κ × α)}
    (h : k ∉ ps.map Prod.fst) (v : α) : Dict.upsert k v ps = ps ++ [(k,v)] := by
  induction ps with
  | nil => rfl
  | cons p ps ih =>
      rw [List.map_cons,List.mem_cons,not_or] at h
      rw [Dict.upsert,if_neg (Ne.symm h.1),ih h.2]
      rfl

/-- Pairs with distinct keys are a dictionary as they stand. -/
theorem dict_entries {κ α : Type} [DecidableEq κ] {ps : List (κ × α)}
    (h : (ps.map Prod.fst).Nodup) : (dict ps).entries = ps := by
  induction ps using List.reverseRecOn with
  | nil => rfl
  | append_singleton ps p ih =>
      rw [List.map_append,List.nodup_append] at h
      have hnew : p.1 ∉ ps.map Prod.fst := fun hp => h.2.2 p.1 hp p.1 (by simp) rfl
      unfold dict at ih ⊢
      rw [List.foldl_append]
      change Dict.upsert p.1 p.2 (ps.foldl (fun d p => d.set p.1 p.2) Dict.empty).entries = _
      rw [ih h.1,upsert_new hnew]

theorem dict_self {κ α : Type} [DecidableEq κ] (d : Dict κ α) : dict d.entries = d :=
  Dict.ext (dict_entries d.distinct)

/-- Integer keys survive. -/
theorem intKeys_dictJson {α : Type} (f : α → Json) (d : Dict ℤ α) :
    (asDict (dictJson f d)).bind intKeys = some (d.mapValues f) := by
  have hkeys : ((d.entries.map fun p => (ofInt p.1,f p.2)).map Prod.fst).Nodup := by
    have hmap := d.distinct.map ofInt_injective
    rwa [List.map_map] at hmap ⊢
  have hread : (d.entries.map fun p => (ofInt p.1,f p.2)).mapM
      (fun p : Text × Json => (toInt? p.1).map fun k => (k,p.2)) =
        some (d.entries.map fun p => (p.1,f p.2)) := by
    apply mapM_map
    intro p
    rw [toInt?_ofInt]
    rfl
  unfold asDict dictJson
  change intKeys (dict _) = _
  unfold intKeys
  rw [dict_entries hkeys,hread]
  exact congrArg some (Dict.ext (dict_entries (d.mapValues f).distinct))

/-- What a replica starts from when it remembers a state. -/
def RestoreState.of (s : State) : RestoreState where
  messagesReceived := s.messagesReceived.mapValues .int
  messagesSent := (s.messagesSent.getD .empty).mapValues .int
  possibleDuplicates := s.possibleDuplicates.mapValues idsJson

theorem entry_some {state : Dict Text Json} {name : String} {v : Json}
    (h : state.get? name.toList = some v) : entry name state = (asDict v).bind intKeys := by
  unfold entry
  rw [h]

/-- A saved state is restored as it was. -/
theorem restoreState_json (s : State) :
    restoreState (some s.json) = some (RestoreState.of s) := by
  obtain ⟨received,duplicates,sent⟩ := s
  have hreceived := intKeys_dictJson Json.int received
  have hduplicates := intKeys_dictJson idsJson duplicates
  cases sent with
  | none =>
      change ((entry "messages_received" (dict _)).bind fun r => (entry "messages_sent" (dict _)).bind
        fun t => (entry "possible_duplicates" (dict _)).bind fun d => some _) = _
      have hnone : ∀ state : Dict Text Json, state.get? "messages_sent".toList = none →
          entry "messages_sent" state = some .empty := by
        intro state h
        unfold entry
        rw [h]
      rw [entry_some (v := dictJson .int received) (by rfl),hreceived,hnone _ (by rfl),
        entry_some (v := dictJson idsJson duplicates) (by rfl),hduplicates]
      rfl
  | some d =>
      have hsent := intKeys_dictJson Json.int d
      change ((entry "messages_received" (dict _)).bind fun r => (entry "messages_sent" (dict _)).bind
        fun t => (entry "possible_duplicates" (dict _)).bind fun d => some _) = _
      rw [entry_some (v := dictJson .int received) (by rfl),hreceived,
        entry_some (v := dictJson .int d) (by rfl),hsent,
        entry_some (v := dictJson idsJson duplicates) (by rfl),hduplicates]
      rfl

end FlightsOptimizer.LoggerText
