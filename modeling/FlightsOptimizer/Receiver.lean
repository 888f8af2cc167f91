import FlightsOptimizer.Interruptible
import FlightsOptimizer.LogGrammar
import FlightsOptimizer.Eof

/-!
# One replica: the receiver callback, the storer and the restart

A replica is its files, its memory, and a history that the outside keeps of it:
what was delivered and acknowledged, which EOF rounds it completed and what it
sent downstream. `callback` is laid out as the list of its steps in source
order, one action for each Logger operation and for each change of the memory in
between, so that a crash may fall between any two of them. Memory does not
outlive a crash; files and history do.

What the processor does with a batch is a parameter of the event, `Handling`:
the number of `send_all` calls and how `input_callback` returned. In the same
way an EOF event says whether `finish_processing` had anything to send. An id or
a counter that does not fit its field raises in `to_bytes`; that exception leaves
the callback, so it is a crash before the publication.
-/
namespace FlightsOptimizer.Receiver
open Logger LogGrammar Eof Interruptible

/-- One delivery of a broker message. `tag` numbers the broker message;
`isResult` tells PROTOCOL_RESULT from PROTOCOL. -/
structure Delivery (β : Type) where
  tag : ℕ
  messageId : MessageId
  clientId : ClientId
  payload : β
  redelivered : Bool
  isResult : Bool := false
  deriving DecidableEq

/-- `Connection.process`: NOT_READY returns before anything is sent; an
exception is caught by `handle_protocol`, after some of the sends. `sendEof` is
the SEND_EOF answer of a processor. -/
inductive Handling where
  | notReady
  | done (sends : ℕ) (sendEof : Bool)
  | raised (sends : ℕ)
  deriving DecidableEq, Repr

def Handling.ready : Handling → Bool
  | .notReady => false
  | _ => true

def Handling.sends : Handling → ℕ
  | .notReady => 0
  | .done k _ => k
  | .raised k => k

/-- The sender's own copies of its two dictionaries. -/
structure Sender where
  messagesSent : Dict ClientId ℤ
  possibleDuplicates : Dict ClientId (List MessageId)
  deriving DecidableEq

structure Memory where
  messagesReceived : Dict ClientId ℕ
  possibleDuplicates : Dict ClientId (List MessageId)
  duplicateCatchers : Dict ClientId DuplicateCatcher
  sender : Option Sender
  currentIds : Option (MessageId × ClientId)
  deriving DecidableEq

/-- An EOF that went downstream, or to the client. -/
inductive SentEof where
  | eof (t : EofMessage)
  | result (clientId : ClientId) (tagId : ℕ) (messagesSent : ℤ)
  deriving DecidableEq, Repr

/-- What the outside has seen of this replica, newest first. -/
structure History (β : Type) where
  delivered : List (Delivery β)
  acked : List (MessageId × ClientId)
  completed : List (ClientId × ℤ)
  eofCallbacks : List ClientId
  eofsSent : List SentEof
  deriving DecidableEq

def History.empty {β : Type} : History β := ⟨[],[],[],[],[]⟩

structure Replica (β : Type) where
  files : Files β
  memory : Memory
  history : History β

variable {β : Type}

def Memory.received (c : ClientId) (mem : Memory) : ℕ := mem.messagesReceived.getD c 0

/-- `get_client_messages_sent`, or 0 without a sender. -/
def Memory.sent (c : ClientId) (mem : Memory) : ℤ :=
  match mem.sender with
  | none => 0
  | some s => s.messagesSent.getD c 0

def Memory.duplicates (c : ClientId) (mem : Memory) : List MessageId :=
  mem.possibleDuplicates.getD c []

def Memory.newMessageReceived (m : MessageId) (c : ClientId) (mem : Memory) : Memory :=
  {mem with currentIds := some (m,c)}

def Memory.addPossibleDuplicate (m : MessageId) (c : ClientId) (mem : Memory) : Memory :=
  {mem with possibleDuplicates := mem.possibleDuplicates.set c (mem.duplicates c ++ [m])}

/-- The increment of `messages_sent` that follows each `send`. -/
def Sender.send (c : ClientId) (s : Sender) : Sender :=
  {s with messagesSent := s.messagesSent.set c (s.messagesSent.getD c 0 + 1)}

def Memory.send (c : ClientId) (mem : Memory) : Memory :=
  {mem with sender := mem.sender.map (Sender.send c)}

def Memory.countReceived (c : ClientId) (mem : Memory) : Memory :=
  {mem with messagesReceived := mem.messagesReceived.set c (mem.received c + 1)}

def Memory.duplicateCatcher (c : ClientId) (mem : Memory) : DuplicateCatcher :=
  mem.duplicateCatchers.getD c .empty

/-- The answer of `check_duplicate`. -/
def Memory.isDuplicate (m : MessageId) (c : ClientId) (mem : Memory) : Bool :=
  ((mem.duplicateCatcher c).isDuplicate m).1

/-- What `check_duplicate` leaves in memory. -/
def Memory.checkDuplicate (m : MessageId) (c : ClientId) (mem : Memory) : Memory :=
  {mem with duplicateCatchers :=
    mem.duplicateCatchers.set c ((mem.duplicateCatcher c).isDuplicate m).2}

/-- The two assignments of the equality branch of `handle_eof_aggregation`. -/
def Sender.synchronise (c : ClientId) (n : ℤ) (duplicates : List MessageId) (s : Sender) : Sender :=
  ⟨s.messagesSent.set c n,s.possibleDuplicates.set c duplicates⟩

def Memory.synchronise (c : ClientId) (n : ℤ) (duplicates : List MessageId) (mem : Memory) :
    Memory :=
  {mem with sender := mem.sender.map (Sender.synchronise c n duplicates)}

/-- The state that the storer has collected when `finish_storing_message` runs. -/
def Memory.currentState (mem : Memory) : State :=
  ⟨mem.messagesReceived,mem.sender.map Sender.messagesSent,mem.possibleDuplicates⟩

/-- The constructors of receiver and sender after a restart. -/
def Memory.restored (cfg : Config) (s : RestoreState) (f : Files β) : Memory where
  messagesReceived := s.messagesReceived
  possibleDuplicates := s.possibleDuplicates
  duplicateCatchers :=
    if cfg.useDuplicateCatcher then f.duplicateCatcher.mapValues DuplicateCatcher.ofMessages
    else .empty
  sender := if cfg.hasSender then some ⟨s.messagesSent,s.possibleDuplicates⟩ else none
  currentIds := none

inductive Action (β : Type) where
  | checkDuplicate (m : MessageId) (c : ClientId)
  | newMessageReceived (m : MessageId) (c : ClientId)
  | addPossibleDuplicate (m : MessageId) (c : ClientId)
  | send (c : ClientId)
  | messageSent (ids : Option (MessageId × ClientId))
  | countReceived (c : ClientId)
  | saveConnection (m : MessageId) (c : ClientId) (messages : β)
  | saveDuplicateCatcher (m : MessageId) (c : ClientId)
  | saveCommunication (m : MessageId) (c : ClientId)
  | basicAck (m : MessageId) (c : ClientId)
  | basicNack
  | commitMessage (m : MessageId) (c : ClientId)
  | updateDiscoveryEof (t : EofDiscovery)
  | updateAggregationEof (t : EofAggregation)
  | synchronise (c : ClientId) (n : ℤ) (duplicates : List MessageId)
  | eofCallback (c : ClientId)
  | sendEof (c : ClientId) (messagesSent : Option ℕ)
  | sendSpecialResultEof (c : ClientId) (tagId : ℕ)
  | requeueEof (destination : Option ReplicaId) (t : Token)
  | ackEof
  | nackEof
  deriving DecidableEq

/-- `send_eof`: an announced value of zero counts as none. -/
def Memory.eofMessage (c : ClientId) (messagesSent : Option ℕ) (mem : Memory) :
    Option EofMessage :=
  mem.sender.map fun s =>
    let n : ℤ := match messagesSent with
      | none | some 0 => s.messagesSent.getD c 0
      | some n => n
    ⟨c,n,s.possibleDuplicates.getD c []⟩

def History.sendEof (e : Option SentEof) (h : History β) : History β :=
  {h with eofsSent := e.toList ++ h.eofsSent}

/-- Tokens are the broker's business: a replica keeps nothing of them. -/
def exec (a : Action β) (r : Replica β) : Replica β :=
  match a with
  | .checkDuplicate m c => {r with memory := r.memory.checkDuplicate m c}
  | .newMessageReceived m c =>
      {r with files := Logger.start m c r.files, memory := r.memory.newMessageReceived m c}
  | .addPossibleDuplicate m c => {r with memory := r.memory.addPossibleDuplicate m c}
  | .send c => {r with memory := r.memory.send c}
  | .messageSent ids => {r with files := Logger.sent ids r.files}
  | .countReceived c => {r with memory := r.memory.countReceived c}
  | .saveConnection m c p => {r with files := Logger.saveConnection m c p r.files}
  | .saveDuplicateCatcher m c => {r with files := Logger.saveDuplicateCatcher m c r.files}
  | .saveCommunication m c =>
      {r with files := Logger.saveCommunication m c r.memory.currentState r.files}
  | .basicAck m c => {r with history := {r.history with acked := (m,c) :: r.history.acked}}
  | .commitMessage m c => {r with files := Logger.commit m c r.files}
  | .synchronise c n ds =>
      {r with
        memory := r.memory.synchronise c n ds
        history := {r.history with completed := (c,n) :: r.history.completed}}
  | .eofCallback c =>
      {r with history := {r.history with eofCallbacks := c :: r.history.eofCallbacks}}
  | .sendEof c n =>
      {r with history := r.history.sendEof ((r.memory.eofMessage c n).map .eof)}
  | .sendSpecialResultEof c tag =>
      {r with history :=
        r.history.sendEof (r.memory.sender.map fun _ => .result c tag (r.memory.sent c))}
  | .updateDiscoveryEof _ | .updateAggregationEof _ | .requeueEof _ _ => r
  | .basicNack | .ackEof | .nackEof => r

/-- `CommunicationSender.send_all`. -/
def sendAll (c : ClientId) (ids : Option (MessageId × ClientId)) : List (Action β) :=
  [.send c,.messageSent ids]

/-- After its sends `Connection.process` logs one SENT more, then sends the EOF
that the processor asked for. -/
def connectionProcess (cfg : Config) (m : MessageId) (c : ClientId) (h : Handling) :
    List (Action β) :=
  (List.replicate h.sends (sendAll c (some (m,c)))).flatten ++
    match h with
    | .done (_ + 1) sendEof =>
        .messageSent (some (m,c)) ::
          if sendEof then [.sendEof c cfg.sendEofDefaultSentValue] else []
    | _ => []

def finishStoringMessage (cfg : Config) (d : Delivery β) : List (Action β) :=
  (if cfg.hasStatefullProcessor then [.saveConnection d.messageId d.clientId d.payload] else []) ++
  (if cfg.useDuplicateCatcher then [.saveDuplicateCatcher d.messageId d.clientId] else []) ++
  [.saveCommunication d.messageId d.clientId]

/-- The branch of `callback` for a data message that is no known duplicate. -/
def callback (cfg : Config) (d : Delivery β) (h : Handling) : List (Action β) :=
  (if cfg.useDuplicateCatcher then [.checkDuplicate d.messageId d.clientId] else []) ++
  ([.newMessageReceived d.messageId d.clientId] ++
  ((if d.redelivered then [.addPossibleDuplicate d.messageId d.clientId] else []) ++
  (connectionProcess cfg d.messageId d.clientId h ++
    if h.ready then
      [.countReceived d.clientId] ++ (finishStoringMessage cfg d ++
      ([.basicAck d.messageId d.clientId] ++
      if d.isResult then [] else [.commitMessage d.messageId d.clientId]))
    else [.basicNack])))

inductive AckType where
  | ack | nack
  deriving DecidableEq, Repr

/-- The EOF that `Connection.handle_eof` sends. -/
def sendResultEof (cfg : Config) (c : ClientId) : Action β :=
  match cfg.resultTagId with
  | none | some 0 => .sendEof c none
  | some tag => .sendSpecialResultEof c tag

/-- `Connection.handle_eof`. A topic drops what `finish_processing` returned, and
asks nobody whether to send the EOF. -/
def connectionHandleEof (cfg : Config) (c : ClientId) (ids : Option (MessageId × ClientId))
    (hasMessages : Bool) : List (Action β) :=
  .eofCallback c ::
    if cfg.isTopic then [sendResultEof cfg c]
    else (if hasMessages then sendAll c ids else []) ++
      if cfg.sendEof then [sendResultEof cfg c] else []

def handleEofFinish (cfg : Config) (r : Replica β) (hasMessages : Bool) (t : EofFinish) :
    List (Action β) × AckType :=
  if cfg.replicaId ∈ t.replicaIdSeen then ([],.nack)
  else
    let new := updateFinishEof cfg t
    ((if new.replicaIdSeen.length < cfg.replicasCount then
        [.requeueEof (destination cfg) (.finish new)] else []) ++
      if cfg.routingKey then
        connectionHandleEof cfg t.clientId r.memory.currentIds hasMessages else [],.ack)

def handleEofAggregation (cfg : Config) (r : Replica β) (hasMessages : Bool)
    (t : EofAggregation) : List (Action β) × AckType :=
  if cfg.replicaId ∈ t.replicaIdSeen then ([],.nack)
  else
    let new := updateAggregationEof cfg r.files t
    if new.replicaIdSeen.length < cfg.replicasCount then
      ([.updateAggregationEof new,.requeueEof (destination cfg) (.aggregation new)],.ack)
    else if new.realMessagesReceived cfg = new.originalMessagesSent then
      let finish := handleEofFinish cfg r hasMessages ⟨t.clientId,[]⟩
      ([.updateAggregationEof new,
          .synchronise t.clientId (new.realMessagesSent cfg) new.searched] ++
        ((if cfg.routingKey then []
          else connectionHandleEof cfg t.clientId r.memory.currentIds hasMessages) ++ finish.1),
        finish.2)
    else
      ([.updateAggregationEof new,.requeueEof (destination cfg) (.eof t.toEof)],.ack)

def handleEofDiscovery (cfg : Config) (r : Replica β) (hasMessages : Bool) (t : EofDiscovery) :
    List (Action β) × AckType :=
  if cfg.replicaId ∈ t.replicaIdSeen then ([],.nack)
  else
    let new := Eof.updateDiscoveryEof cfg (r.memory.received t.clientId) (r.memory.sent t.clientId)
      (r.memory.duplicates t.clientId) t
    if new.replicaIdSeen.length < cfg.replicasCount then
      ([.updateDiscoveryEof new,.requeueEof (destination cfg) (.discovery new)],.ack)
    else
      let aggregation := handleEofAggregation cfg r hasMessages new.toAggregation
      (.updateDiscoveryEof new :: aggregation.1,aggregation.2)

def handleEof (cfg : Config) (r : Replica β) (hasMessages : Bool) :
    Token → List (Action β) × AckType
  | .eof t => handleEofDiscovery cfg r hasMessages t.toDiscovery
  | .discovery t => handleEofDiscovery cfg r hasMessages t
  | .aggregation t => handleEofAggregation cfg r hasMessages t
  | .finish t => handleEofFinish cfg r hasMessages t

/-- The EOF branches of `callback`. -/
def callbackEof (cfg : Config) (r : Replica β) (hasMessages : Bool) (t : Token) :
    List (Action β) :=
  let handled := handleEof cfg r hasMessages t
  handled.1 ++ [match handled.2 with
    | .ack => .ackEof
    | .nack => .nackEof]

/-- What an idle replica takes from its input queue. -/
inductive Work (β : Type) where
  | data (d : Delivery β) (h : Handling)
  | eof (t : Token) (hasMessages : Bool)
  deriving DecidableEq

def deliver (d : Delivery β) (r : Replica β) : Replica β :=
  {r with history := {r.history with delivered := d :: r.history.delivered}}

def begin (cfg : Config) : Work β → Replica β → Option (Replica β × List (Action β))
  | .data d h, r =>
      if cfg.useDuplicateCatcher && r.memory.isDuplicate d.messageId d.clientId then
        some (deliver d r,[.basicNack])
      else some (deliver d r,callback cfg d h)
  | .eof t hasMessages, r => some (r,callbackEof cfg r hasMessages t)

/-- A restart that cannot parse the log never comes up. -/
def recover (cfg : Config) (belongs : MessageId → MessageId → Bool) (r : Replica β) :
    Option (Replica β) :=
  let a := Logger.restore belongs r.files
  a.1.restored.map fun s => ⟨a.2,.restored cfg s a.2,r.history⟩

def fresh (cfg : Config) : Replica β :=
  ⟨.empty,.restored cfg (.ofState none) (.empty : Files β),.empty⟩

def process (cfg : Config) (belongs : MessageId → MessageId → Bool) :
    Process (Replica β) (Work β) (Action β) :=
  ⟨fresh cfg,begin cfg,exec,recover cfg belongs⟩

end FlightsOptimizer.Receiver
