import Mathlib.Algebra.GroupWithZero.Nat
import Mathlib.Order.Interval.Finset.Nat
import FlightsOptimizer.Logger

/-!
# EOF tokens

The four messages that carry an end of file from replica to replica, what one
replica adds to each of them, and the arithmetic of `count_duplicates`. A token
carries the whole state of its round, so this file has no state of its own: the
counters and the log that a replica reads are arguments.

`messages_received` only grows, so it is a natural number. `messages_sent` is an
integer, because the equality branch assigns it a difference.
-/
namespace FlightsOptimizer.Eof
open Logger

abbrev ReplicaId := ℕ

structure EofMessage where
  clientId : ClientId
  messagesSent : ℤ
  possibleDuplicates : List MessageId
  deriving DecidableEq, Repr

structure EofDiscovery where
  clientId : ClientId
  originalMessagesSent : ℤ
  originalPossibleDuplicates : List MessageId
  messagesReceived : ℕ
  messagesSent : ℤ
  possibleDuplicates : List MessageId
  replicaIdSeen : List ReplicaId
  deriving DecidableEq, Repr

structure EofAggregation where
  clientId : ClientId
  originalMessagesSent : ℤ
  originalPossibleDuplicates : List MessageId
  messagesReceived : ℕ
  messagesSent : ℤ
  possibleDuplicates : List MessageId
  replicaIdSeen : List ReplicaId
  possibleDuplicatesProcessedBy : List ProcessedMessage
  deriving DecidableEq, Repr

structure EofFinish where
  clientId : ClientId
  replicaIdSeen : List ReplicaId
  deriving DecidableEq, Repr

inductive Token where
  | eof (t : EofMessage)
  | discovery (t : EofDiscovery)
  | aggregation (t : EofAggregation)
  | finish (t : EofFinish)
  deriving DecidableEq, Repr

def Token.clientId : Token → ClientId
  | .eof t => t.clientId
  | .discovery t => t.clientId
  | .aggregation t => t.clientId
  | .finish t => t.clientId

def Token.isFinish : Token → Bool
  | .finish _ => true
  | _ => false

/-- An EOF has visited nobody yet. -/
def Token.replicaIdSeen : Token → List ReplicaId
  | .eof _ => []
  | .discovery t => t.replicaIdSeen
  | .aggregation t => t.replicaIdSeen
  | .finish t => t.replicaIdSeen

/-- The options of receiver and connection that the handlers read. `routingKey`
says whether `routing_key` is non-empty. -/
structure Config where
  replicaId : ReplicaId
  replicasCount : ℕ
  routingKey : Bool := false
  useDuplicateCatcher : Bool := false
  loadBalancerSendMultiply : Option ℕ := none
  hasStatefullProcessor : Bool := false
  hasSender : Bool := true
  isTopic : Bool := false
  sendEof : Bool := true
  resultTagId : Option ℕ := none
  sendEofDefaultSentValue : Option ℕ := none
  deriving DecidableEq, Repr

/-- The replicas of a stage differ in their number only. -/
def Config.forReplica (cfg : Config) (r : ReplicaId) : Config := {cfg with replicaId := r}

/-- They are numbered from 1. -/
def Config.replicas (cfg : Config) : Finset ReplicaId := Finset.Icc 1 cfg.replicasCount

/-- `handle_eof` turns an EOF into a discovery that nobody has seen. -/
def EofMessage.toDiscovery (t : EofMessage) : EofDiscovery :=
  ⟨t.clientId,t.messagesSent,t.possibleDuplicates,0,0,[],[]⟩

/-- A finished discovery becomes an aggregation that nobody has seen. -/
def EofDiscovery.toAggregation (t : EofDiscovery) : EofAggregation :=
  ⟨t.clientId,t.originalMessagesSent,t.originalPossibleDuplicates,t.messagesReceived,
    t.messagesSent,t.possibleDuplicates,[],[]⟩

/-- The discovery that `callback` hands an EOF or a discovery on as. -/
def Token.asDiscovery : Token → Option EofDiscovery
  | .eof t => some t.toDiscovery
  | .discovery t => some t
  | _ => none

/-- The EOF that a failed round starts again with. -/
def EofAggregation.toEof (t : EofAggregation) : EofMessage :=
  ⟨t.clientId,t.originalMessagesSent,t.originalPossibleDuplicates⟩

/-- The ids that an aggregation looks for in the logs. -/
def EofAggregation.searched (t : EofAggregation) : List MessageId :=
  t.possibleDuplicates ++ t.originalPossibleDuplicates

def updateDiscoveryEof (cfg : Config) (messagesReceived : ℕ) (messagesSent : ℤ)
    (possibleDuplicates : List MessageId) (t : EofDiscovery) : EofDiscovery :=
  {t with
    messagesReceived := t.messagesReceived + messagesReceived
    messagesSent := t.messagesSent + messagesSent
    possibleDuplicates := t.possibleDuplicates ++ possibleDuplicates
    replicaIdSeen := t.replicaIdSeen ++ [cfg.replicaId]}

def updateAggregationEof {β : Type} (cfg : Config) (f : Files β) (t : EofAggregation) :
    EofAggregation :=
  {t with
    replicaIdSeen := t.replicaIdSeen ++ [cfg.replicaId]
    possibleDuplicatesProcessedBy :=
      if cfg.useDuplicateCatcher then t.possibleDuplicatesProcessedBy
      else t.possibleDuplicatesProcessedBy ++ searchProcessed t.clientId t.searched f}

def updateFinishEof (cfg : Config) (t : EofFinish) : EofFinish :=
  {t with replicaIdSeen := t.replicaIdSeen ++ [cfg.replicaId]}

/-- The dictionary that the first loop of `count_duplicates` builds. -/
def duplicatesCounter (processedBy : List ProcessedMessage) : Dict ProcessedMessage ℕ :=
  processedBy.foldl (fun d p => d.set p (d.getD p 0 + 1)) .empty

/-- The second loop takes one from every count. Its `pop` waits for a count of
zero, which the first loop never writes. -/
def countDuplicates (cfg : Config) (processedBy : List ProcessedMessage) : ℕ × ℕ :=
  let counter := (duplicatesCounter processedBy).mapValues fun count => count - 1
  let received := counter.values.sum
  let sent := ((counter.entries.filter fun p => p.1.sent).map Prod.snd).sum
  match cfg.loadBalancerSendMultiply with
  | none | some 0 => (received,sent)
  | some multiply => (received,sent * multiply)

def EofAggregation.realMessagesReceived (cfg : Config) (t : EofAggregation) : ℤ :=
  t.messagesReceived - (countDuplicates cfg t.possibleDuplicatesProcessedBy).1

def EofAggregation.realMessagesSent (cfg : Config) (t : EofAggregation) : ℤ :=
  t.messagesSent - (countDuplicates cfg t.possibleDuplicatesProcessedBy).2

/-- `get_exchange_and_routing_key`: no destination is the shared input queue, a
destination is the queue of that replica. -/
def destination (cfg : Config) : Option ReplicaId :=
  if cfg.routingKey then some (cfg.replicaId % cfg.replicasCount + 1) else none

end FlightsOptimizer.Eof
