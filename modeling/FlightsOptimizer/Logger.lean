import Mathlib.Data.Finset.Insert
import FlightsOptimizer.Dict

/-!
# The durability log

The files that `commons/logger.py` writes for one suffix, its operations on
them, and the two readers: `restore`, which decides from the tail of the
communication log what a restarted replica remembers, and `search_processed`,
which the EOF aggregation counts duplicates with.

A file is kept bottom line first, the order in which
`read_file_bottom_to_top_generator` yields it, so that `next(lines)` takes the
head of the list and an append is a `cons`. A line is one constructor per marker
plus one for the JSON line that `save_communication` writes between its markers.
Message and client ids are natural numbers; only a SENT line may carry `None`,
because `send_all` logs whatever ids the storer last saw.
-/
namespace FlightsOptimizer.Logger

abbrev ClientId := ℕ
abbrev MessageId := ℕ

/-- The dictionary that `LogStorer` collects and `save_communication` dumps.
`messages_sent` is stored only by a receiver that has a sender. -/
structure State where
  messagesReceived : Dict ClientId ℕ
  messagesSent : Option (Dict ClientId ℤ)
  possibleDuplicates : Dict ClientId (List MessageId)
  deriving DecidableEq

def State.received (c : ClientId) (s : State) : ℕ := s.messagesReceived.getD c 0

def State.sent (c : ClientId) (s : State) : ℤ := (s.messagesSent.getD .empty).getD c 0

def State.duplicates (c : ClientId) (s : State) : List MessageId :=
  s.possibleDuplicates.getD c []

inductive LoggerToken where
  | start | sent | saveBegin | saveDone | commit
  deriving DecidableEq, Repr

inductive Line where
  | start (messageId : MessageId) (clientId : ClientId)
  | sent (ids : Option (MessageId × ClientId))
  | saveBegin (messageId : MessageId) (clientId : ClientId)
  | state (s : State)
  | saveDone (messageId : MessageId) (clientId : ClientId)
  | commit (messageId : MessageId) (clientId : ClientId)
  deriving DecidableEq

/-- The marker a line begins with. A JSON line begins with a brace, so with none. -/
def Line.token : Line → Option LoggerToken
  | .start _ _ => some .start
  | .sent _ => some .sent
  | .saveBegin _ _ => some .saveBegin
  | .state _ => none
  | .saveDone _ _ => some .saveDone
  | .commit _ _ => some .commit

def Line.startsWith (l : Line) (t : LoggerToken) : Bool := l.token == some t

/-- `connection` and `duplicateCatcher` map a client to its own file of that
kind; a client without an entry has no such file. -/
structure Files (β : Type) where
  communication : List Line
  connection : Dict ClientId (List (MessageId × β))
  duplicateCatcher : Dict ClientId (List MessageId)
  deriving DecidableEq

variable {β : Type}

def Files.empty : Files β := ⟨[],.empty,.empty⟩

def start (messageId : MessageId) (clientId : ClientId) (f : Files β) : Files β :=
  {f with communication := .start messageId clientId :: f.communication}

def sent (ids : Option (MessageId × ClientId)) (f : Files β) : Files β :=
  {f with communication := .sent ids :: f.communication}

def saveCommunication (messageId : MessageId) (clientId : ClientId) (message : State)
    (f : Files β) : Files β :=
  {f with communication := .saveDone messageId clientId :: .state message ::
    .saveBegin messageId clientId :: f.communication}

/-- Opening a client's file in append mode, and one line. -/
def appendLine {γ : Type} (clientId : ClientId) (line : γ) (file : Dict ClientId (List γ)) :
    Dict ClientId (List γ) :=
  file.set clientId (line :: file.getD clientId [])

def saveConnection (messageId : MessageId) (clientId : ClientId) (messages : β)
    (f : Files β) : Files β :=
  {f with connection := appendLine clientId (messageId,messages) f.connection}

def saveDuplicateCatcher (messageId : MessageId) (clientId : ClientId) (f : Files β) : Files β :=
  {f with duplicateCatcher := appendLine clientId messageId f.duplicateCatcher}

def commit (messageId : MessageId) (clientId : ClientId) (f : Files β) : Files β :=
  {f with communication := .commit messageId clientId :: f.communication}

inductive RestoreType where
  | commit | saveDone | sent
  deriving DecidableEq, Repr

structure Restored where
  restoreType : RestoreType
  messageId : MessageId
  clientId : ClientId
  state : Option State
  deriving DecidableEq

/-- `nothing` is the answer `(None, None, None, None)`, also after a caught
StopIteration; `raises` is a `json.loads` that met a line which is no JSON. -/
inductive Restoration where
  | nothing
  | found (r : Restored)
  | raises
  deriving DecidableEq

/-- `while not line.startswith(t): line = next(lines)`. -/
def skipTo (t : LoggerToken) (lines : List Line) : List Line :=
  lines.dropWhile fun l => !l.startsWith t

def getLastMessage (restoreType : RestoreType) (lines : List Line) : Restoration :=
  match skipTo .saveDone lines with
  | _ :: state :: rest =>
      match skipTo .start rest with
      | .start messageId clientId :: _ =>
          match state with
          | .state s => .found ⟨restoreType,messageId,clientId,some s⟩
          | _ => .raises
      | _ => .nothing
  | _ => .nothing

/-- The search for the last COMMIT begins below the START of this message and
may run off the top of the file, which leaves the state empty. -/
def handleSent (lines : List Line) : Restoration :=
  match skipTo .start lines with
  | .start messageId clientId :: rest =>
      match skipTo .saveDone (skipTo .commit rest) with
      | _ :: .state s :: _ => .found ⟨.sent,messageId,clientId,some s⟩
      | _ :: _ :: _ => .raises
      | _ => .found ⟨.sent,messageId,clientId,none⟩
  | _ => .nothing

/-- The dispatch of `Logger.restore` on the very last line. -/
def restoreCommunication (lines : List Line) : Restoration :=
  match lines with
  | [] => .nothing
  | .commit _ _ :: _ => getLastMessage .commit lines
  | .saveDone _ _ :: _ => getLastMessage .saveDone lines
  | .saveBegin _ _ :: _ | .sent _ :: _ | .start _ _ :: _ => handleSent lines
  | .state _ :: _ => .nothing

/-- `line_to_search.startswith(str(message_id))`: the line begins with its own
id in decimal, and what follows the id there is no digit. -/
def startsWithId (lineId messageId : MessageId) : Bool :=
  (Nat.toDigits 10 messageId).isPrefixOf (Nat.toDigits 10 lineId)

/-- Truncates the last line of a client's file if it belongs to the message. The
test is a parameter: the code's own is `startsWithId`, and equality of ids is the
one that it stands for. A missing or an empty file is left alone. -/
def deleteLastLine {γ : Type} (belongs : MessageId → MessageId → Bool) (lineId : γ → MessageId)
    (messageId : MessageId) (clientId : ClientId) (file : Dict ClientId (List γ)) :
    Dict ClientId (List γ) :=
  match file.get? clientId with
  | some (line :: rest) =>
      if belongs (lineId line) messageId then file.set clientId rest else file
  | _ => file

def deleteConnectionMessages (belongs : MessageId → MessageId → Bool) (messageId : MessageId)
    (clientId : ClientId) (f : Files β) : Files β :=
  {f with connection := deleteLastLine belongs Prod.fst messageId clientId f.connection}

def deleteDuplicateCatcherMessages (belongs : MessageId → MessageId → Bool)
    (messageId : MessageId) (clientId : ClientId) (f : Files β) : Files β :=
  {f with duplicateCatcher := deleteLastLine belongs id messageId clientId f.duplicateCatcher}

/-- Only the SENT branch deletes, and only after the state has been parsed. -/
def restore (belongs : MessageId → MessageId → Bool) (f : Files β) : Restoration × Files β :=
  match restoreCommunication f.communication with
  | .found ⟨.sent,messageId,clientId,state⟩ =>
      (.found ⟨.sent,messageId,clientId,state⟩,
        deleteDuplicateCatcherMessages belongs messageId clientId
          (deleteConnectionMessages belongs messageId clientId f))
  | r => (r,f)

/-- An id found by `search_processed`, with its S mark. -/
structure ProcessedMessage where
  messageId : MessageId
  sent : Bool
  deriving DecidableEq, Repr

/-- The outer scan and the inner walk of `search_processed` share one generator.
The first argument is the id whose START or SENT the inner walk looks for; an
inner walk that runs off the file appends nothing. -/
def search (clientId : ClientId) (ids : List MessageId) :
    Option MessageId → List Line → List ProcessedMessage
  | _, [] => []
  | none, .saveDone m c :: rest =>
      if c ≠ clientId ∨ m ∉ ids then search clientId ids none rest
      else search clientId ids (some m) rest
  | none, _ :: rest => search clientId ids none rest
  | some m, .sent _ :: rest => ⟨m,true⟩ :: search clientId ids none rest
  | some m, .start _ _ :: rest => ⟨m,false⟩ :: search clientId ids none rest
  | some m, _ :: rest => search clientId ids (some m) rest

def searchProcessed (clientId : ClientId) (ids : List MessageId) (f : Files β) :
    List ProcessedMessage :=
  search clientId ids none f.communication

/-- What the constructors of the receiver and of the sender copy. -/
structure RestoreState where
  messagesReceived : Dict ClientId ℕ
  messagesSent : Dict ClientId ℤ
  possibleDuplicates : Dict ClientId (List MessageId)

/-- An empty answer of the logger stands for three empty dictionaries, and so
does a missing key. -/
def RestoreState.ofState : Option State → RestoreState
  | none => ⟨.empty,.empty,.empty⟩
  | some s => ⟨s.messagesReceived,s.messagesSent.getD .empty,s.possibleDuplicates⟩

/-- `Restorer.restore`: a message that did not finish is a possible duplicate. -/
def Restoration.restored : Restoration → Option RestoreState
  | .raises => none
  | .nothing => some (.ofState none)
  | .found ⟨.commit,_,_,state⟩ => some (.ofState state)
  | .found ⟨_,messageId,clientId,state⟩ =>
      let s := RestoreState.ofState state
      some {s with possibleDuplicates :=
        s.possibleDuplicates.set clientId (s.possibleDuplicates.getD clientId [] ++ [messageId])}

/-- `DuplicateCatcher`: the ids seen so far. -/
structure DuplicateCatcher where
  messagesId : Finset MessageId
  deriving DecidableEq

def DuplicateCatcher.empty : DuplicateCatcher := ⟨∅⟩

def DuplicateCatcher.isDuplicate (messageId : MessageId) (d : DuplicateCatcher) :
    Bool × DuplicateCatcher :=
  if messageId ∈ d.messagesId then (true,d) else (false,⟨insert messageId d.messagesId⟩)

/-- The loop of `restore_duplicate_catchers` over one client's file. -/
def DuplicateCatcher.ofMessages (ids : List MessageId) : DuplicateCatcher :=
  ids.foldl (fun d m => (d.isDuplicate m).2) .empty

end FlightsOptimizer.Logger
