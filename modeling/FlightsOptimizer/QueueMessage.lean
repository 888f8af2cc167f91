import FlightsOptimizer.Protocol

/-!
# The messages between the processors

A message on a queue is a type, a client and the fields of its class. Lists are
written behind their counts; an entry of the last list of an aggregation is a
mark of one byte and an id of eight, which the integer writer takes for an
integer of nine bytes because it calls `to_bytes` on whatever it is given.
-/
namespace FlightsOptimizer.Queue
open MessageBytesWriter MessageBytesReader

inductive MessageType
  | protocol
  | protocolResult
  | eof
  | eofDiscovery
  | eofAggregation
  | eofFinish
  | eofResult
  deriving DecidableEq

def MessageType.value : MessageType → ℕ
  | protocol => 0
  | protocolResult => 1
  | eof => 2
  | eofDiscovery => 3
  | eofAggregation => 4
  | eofFinish => 5
  | eofResult => 6

structure ProcessedMessage where
  messageId : Word 8
  sent : Bool
  deriving DecidableEq

namespace ProcessedMessage

/-- One byte is the mark, the others are the id. -/
def toBytes (size : ℕ) (p : ProcessedMessage) : Option Bytes := do
  let messageIdBytes ← writeInt [] p.messageId (size-1)
  some ((if p.sent then 1 else 0) :: messageIdBytes)

/-- `bytes[0] == True` holds of the byte 1 only. -/
def fromBytes (bytes : {bytes : Bytes // bytes.length = 9}) : ProcessedMessage :=
  ⟨toWord ⟨bytes.val.tail,by rw [List.length_tail,bytes.property]⟩,bytes.val.head? = some 1⟩

/-- What the entry is written as. -/
def written (p : ProcessedMessage) : Bytes :=
  (if p.sent then 1 else 0) :: intToBytes 8 p.messageId

theorem toBytes_eq (p : ProcessedMessage) : p.toBytes 9 = some p.written := by
  unfold toBytes
  rw [writeInt_word]
  rfl

theorem length_written (p : ProcessedMessage) : p.written.length = 9 := by
  unfold written
  rw [List.length_cons,intToBytes_length]

/-- The mark and the id come back. -/
theorem fromBytes_written (p : ProcessedMessage) : fromBytes ⟨p.written,p.length_written⟩ = p := by
  obtain ⟨messageId,sent⟩ := p
  have hid : toWord ⟨intToBytes 8 messageId,intToBytes_length 8 messageId⟩ = messageId := by
    apply Fin.ext
    change intFromBytes (intToBytes 8 messageId) = messageId
    rw [intFromBytes_intToBytes,Nat.mod_eq_of_lt messageId.isLt]
  unfold fromBytes written
  simp only [List.tail_cons,List.head?_cons,hid]
  cases sent <;> rfl

end ProcessedMessage

/-- `write_multiple_int` of entries that are no integers. -/
def writeMultipleProcessed (writer : Bytes) : List ProcessedMessage → Option Bytes
  | [] => some writer
  | value :: values => do
      let bytes ← value.toBytes 9
      writeMultipleProcessed (writer ++ bytes) values

/-- `read_multiple_object`. -/
def readMultipleObject {α : Type} (size : ℕ) (fromBytes : {bytes : Bytes // bytes.length = size} → α) :
    ℕ → Bytes → Option (List α × Bytes)
  | 0, reader => some ([],reader)
  | count+1, reader => do
      let (bytes,reader) ← read size reader
      let (objects,reader) ← readMultipleObject size fromBytes count reader
      some (fromBytes bytes :: objects,reader)

theorem writeMultipleProcessed_eq (writer : Bytes) (values : List ProcessedMessage) :
    writeMultipleProcessed writer values =
      some (writer ++ values.flatMap ProcessedMessage.written) := by
  induction values generalizing writer with
  | nil => simp [writeMultipleProcessed]
  | cons value values ih =>
      simp only [writeMultipleProcessed,ProcessedMessage.toBytes_eq,Option.bind_eq_bind,
        Option.bind_some,ih,List.flatMap_cons,List.append_assoc]

theorem readMultipleObject_written (values : List ProcessedMessage) (rest : Bytes) :
    readMultipleObject 9 ProcessedMessage.fromBytes values.length
      (values.flatMap ProcessedMessage.written ++ rest) = some (values,rest) := by
  induction values with
  | nil => rfl
  | cons value values ih =>
      have hread : read 9 ((value :: values).flatMap ProcessedMessage.written ++ rest) =
          some (⟨value.written,value.length_written⟩,
            values.flatMap ProcessedMessage.written ++ rest) := by
        rw [read_eq_some,List.flatMap_cons,List.append_assoc]
      rw [List.length_cons,readMultipleObject,hread]
      simp only [Option.bind_eq_bind,Option.bind_some,ih,ProcessedMessage.fromBytes_written]

/-- A count, and the integers. -/
def writeCounted (writer : Bytes) (values : List (Word 8)) : Option Bytes := do
  let writer ← writeInt writer values.length 4
  writeMultipleInt writer values

def readCounted (reader : Bytes) : Option (List (Word 8) × Bytes) := do
  let (count,reader) ← readInt 4 reader
  readMultipleInt 8 count reader

def counted (values : List (Word 8)) : Bytes :=
  intToBytes 4 values.length ++ values.flatMap fun value : Word 8 => intToBytes 8 value

theorem writeCounted_eq {values : List (Word 8)} (h : values.length < 256^4) (writer : Bytes) :
    writeCounted writer values = some (writer ++ counted values) := by
  unfold writeCounted writeInt counted
  simp only [h,if_true,Option.bind_eq_bind,Option.bind_some,writeMultipleInt_eq,List.append_assoc]

theorem readCounted_append {values : List (Word 8)} (h : values.length < 256^4) (rest : Bytes) :
    readCounted (counted values ++ rest) = some (values,rest) := by
  have hcount : readInt 4 (counted values ++ rest) = some (⟨values.length,h⟩,
      (values.flatMap fun value : Word 8 => intToBytes 8 value) ++ rest) := by
    rw [readInt_eq_some]
    exact List.append_assoc _ _ _
  have hvalues : readMultipleInt 8 values.length
      ((values.flatMap fun value : Word 8 => intToBytes 8 value) ++ rest) = some (values,rest) :=
    readMultipleInt_eq_some.mpr ⟨rfl,rfl⟩
  unfold readCounted
  simp only [hcount,Option.bind_eq_bind,Option.bind_some,hvalues]

/-- The fields that each class has beside the client. -/
inductive Body
  | protocol (messageId : Word 8) (payload : String)
  | protocolResult (tagId : Word 1) (messageId : Word 8) (payload : String)
  | eof (messagesSent : Word 8) (possibleDuplicates : List (Word 8))
  | eofDiscovery (originalMessagesSent : Word 8) (originalPossibleDuplicates : List (Word 8))
      (messagesReceived messagesSent : Word 8) (possibleDuplicates replicaIdSeen : List (Word 8))
  | eofAggregation (originalMessagesSent : Word 8) (originalPossibleDuplicates : List (Word 8))
      (messagesReceived messagesSent : Word 8) (possibleDuplicates replicaIdSeen : List (Word 8))
      (possibleDuplicatesProcessedBy : List ProcessedMessage)
  | eofFinish (replicaIdSeen : List (Word 8))
  | eofResult (tagId : Word 1) (messagesSent : Word 8)
  deriving DecidableEq

structure Message where
  clientId : Word 8
  body : Body
  deriving DecidableEq

namespace Body

def messageType : Body → MessageType
  | protocol _ _ => .protocol
  | protocolResult _ _ _ => .protocolResult
  | eof _ _ => .eof
  | eofDiscovery _ _ _ _ _ _ => .eofDiscovery
  | eofAggregation _ _ _ _ _ _ _ => .eofAggregation
  | eofFinish _ => .eofFinish
  | eofResult _ _ => .eofResult

def toBytesImpl (writer : Bytes) : Body → Option Bytes
  | protocol messageId payload => do
      let writer ← writeInt writer messageId 8
      some (writer ++ encode payload)
  | protocolResult tagId messageId payload => do
      let writer ← writeInt writer tagId 1
      let writer ← writeInt writer messageId 8
      some (writer ++ encode payload)
  | eof messagesSent possibleDuplicates => do
      let writer ← writeInt writer messagesSent 8
      writeCounted writer possibleDuplicates
  | eofDiscovery originalMessagesSent originalPossibleDuplicates messagesReceived messagesSent
      possibleDuplicates replicaIdSeen => do
      let writer ← writeInt writer originalMessagesSent 8
      let writer ← writeCounted writer originalPossibleDuplicates
      let writer ← writeInt writer messagesReceived 8
      let writer ← writeInt writer messagesSent 8
      let writer ← writeCounted writer possibleDuplicates
      writeCounted writer replicaIdSeen
  | eofAggregation originalMessagesSent originalPossibleDuplicates messagesReceived messagesSent
      possibleDuplicates replicaIdSeen possibleDuplicatesProcessedBy => do
      let writer ← writeInt writer originalMessagesSent 8
      let writer ← writeCounted writer originalPossibleDuplicates
      let writer ← writeInt writer messagesReceived 8
      let writer ← writeInt writer messagesSent 8
      let writer ← writeCounted writer possibleDuplicates
      let writer ← writeCounted writer replicaIdSeen
      let writer ← writeInt writer possibleDuplicatesProcessedBy.length 4
      writeMultipleProcessed writer possibleDuplicatesProcessedBy
  | eofFinish replicaIdSeen => writeCounted writer replicaIdSeen
  | eofResult tagId messagesSent => do
      let writer ← writeInt writer tagId 1
      writeInt writer messagesSent 8

def protocolFromBytes (reader : Bytes) : Option Body := do
  let (messageId,reader) ← readInt 8 reader
  let payload ← decode reader
  some (protocol messageId payload)

def protocolResultFromBytes (reader : Bytes) : Option Body := do
  let (tagId,reader) ← readInt 1 reader
  let (messageId,reader) ← readInt 8 reader
  let payload ← decode reader
  some (protocolResult tagId messageId payload)

def eofFromBytes (reader : Bytes) : Option Body := do
  let (messagesSent,reader) ← readInt 8 reader
  let (possibleDuplicates,_) ← readCounted reader
  some (eof messagesSent possibleDuplicates)

def eofDiscoveryFromBytes (reader : Bytes) : Option Body := do
  let (originalMessagesSent,reader) ← readInt 8 reader
  let (originalPossibleDuplicates,reader) ← readCounted reader
  let (messagesReceived,reader) ← readInt 8 reader
  let (messagesSent,reader) ← readInt 8 reader
  let (possibleDuplicates,reader) ← readCounted reader
  let (replicaIdSeen,_) ← readCounted reader
  some (eofDiscovery originalMessagesSent originalPossibleDuplicates messagesReceived messagesSent
    possibleDuplicates replicaIdSeen)

def eofAggregationFromBytes (reader : Bytes) : Option Body := do
  let (originalMessagesSent,reader) ← readInt 8 reader
  let (originalPossibleDuplicates,reader) ← readCounted reader
  let (messagesReceived,reader) ← readInt 8 reader
  let (messagesSent,reader) ← readInt 8 reader
  let (possibleDuplicates,reader) ← readCounted reader
  let (replicaIdSeen,reader) ← readCounted reader
  let (processedByCount,reader) ← readInt 4 reader
  let (processedBy,_) ←
    readMultipleObject 9 ProcessedMessage.fromBytes processedByCount reader
  some (eofAggregation originalMessagesSent originalPossibleDuplicates messagesReceived messagesSent
    possibleDuplicates replicaIdSeen processedBy)

def eofFinishFromBytes (reader : Bytes) : Option Body := do
  let (replicaIdSeen,_) ← readCounted reader
  some (eofFinish replicaIdSeen)

def eofResultFromBytes (reader : Bytes) : Option Body := do
  let (tagId,reader) ← readInt 1 reader
  let (messagesSent,_) ← readInt 8 reader
  some (eofResult tagId messagesSent)

/-- The parser that the type of a message chooses. -/
def fromBytes (type : ℕ) (reader : Bytes) : Option Body :=
  if type = MessageType.protocol.value then protocolFromBytes reader
  else if type = MessageType.protocolResult.value then protocolResultFromBytes reader
  else if type = MessageType.eof.value then eofFromBytes reader
  else if type = MessageType.eofDiscovery.value then eofDiscoveryFromBytes reader
  else if type = MessageType.eofAggregation.value then eofAggregationFromBytes reader
  else if type = MessageType.eofFinish.value then eofFinishFromBytes reader
  else if type = MessageType.eofResult.value then eofResultFromBytes reader
  else none

/-- Every list is short enough for the width of its count. -/
def CountsFit : Body → Prop
  | eof _ possibleDuplicates => possibleDuplicates.length < 256^4
  | eofDiscovery _ originalPossibleDuplicates _ _ possibleDuplicates replicaIdSeen =>
      originalPossibleDuplicates.length < 256^4 ∧ possibleDuplicates.length < 256^4 ∧
        replicaIdSeen.length < 256^4
  | eofAggregation _ originalPossibleDuplicates _ _ possibleDuplicates replicaIdSeen processedBy =>
      originalPossibleDuplicates.length < 256^4 ∧ possibleDuplicates.length < 256^4 ∧
        replicaIdSeen.length < 256^4 ∧ processedBy.length < 256^4
  | eofFinish replicaIdSeen => replicaIdSeen.length < 256^4
  | _ => True

/-- What stands behind the type and the client. -/
def fields : Body → Bytes
  | protocol messageId payload => intToBytes 8 messageId ++ encode payload
  | protocolResult tagId messageId payload =>
      intToBytes 1 tagId ++ (intToBytes 8 messageId ++ encode payload)
  | eof messagesSent possibleDuplicates => intToBytes 8 messagesSent ++ counted possibleDuplicates
  | eofDiscovery originalMessagesSent originalPossibleDuplicates messagesReceived messagesSent
      possibleDuplicates replicaIdSeen =>
      intToBytes 8 originalMessagesSent ++ (counted originalPossibleDuplicates ++
        (intToBytes 8 messagesReceived ++ (intToBytes 8 messagesSent ++
          (counted possibleDuplicates ++ counted replicaIdSeen))))
  | eofAggregation originalMessagesSent originalPossibleDuplicates messagesReceived messagesSent
      possibleDuplicates replicaIdSeen processedBy =>
      intToBytes 8 originalMessagesSent ++ (counted originalPossibleDuplicates ++
        (intToBytes 8 messagesReceived ++ (intToBytes 8 messagesSent ++
          (counted possibleDuplicates ++ (counted replicaIdSeen ++
            (intToBytes 4 processedBy.length ++
              processedBy.flatMap ProcessedMessage.written))))))
  | eofFinish replicaIdSeen => counted replicaIdSeen
  | eofResult tagId messagesSent => intToBytes 1 tagId ++ intToBytes 8 messagesSent

/-- Each class writes its fields, one behind the other. -/
theorem toBytesImpl_eq {body : Body} (h : body.CountsFit) (writer : Bytes) :
    toBytesImpl writer body = some (writer ++ body.fields) := by
  cases body with
  | eof messagesSent possibleDuplicates =>
      have hd : possibleDuplicates.length < 256^4 := h
      simp only [toBytesImpl,writeInt_word,Option.bind_eq_bind,Option.bind_some,writeCounted_eq hd,
        fields,List.append_assoc]
  | eofDiscovery _ originalPossibleDuplicates _ _ possibleDuplicates replicaIdSeen =>
      obtain ⟨ho,hd,hr⟩ := h
      simp only [toBytesImpl,writeInt_word,Option.bind_eq_bind,Option.bind_some,writeCounted_eq ho,
        writeCounted_eq hd,writeCounted_eq hr,fields,List.append_assoc]
  | eofAggregation _ originalPossibleDuplicates _ _ possibleDuplicates replicaIdSeen processedBy =>
      obtain ⟨ho,hd,hr,hp⟩ := h
      have hcount : ∀ writer : Bytes, writeInt writer processedBy.length 4 =
          some (writer ++ intToBytes 4 processedBy.length) := fun _ => if_pos hp
      simp only [toBytesImpl,writeInt_word,Option.bind_eq_bind,Option.bind_some,writeCounted_eq ho,
        writeCounted_eq hd,writeCounted_eq hr,hcount,writeMultipleProcessed_eq,fields,
        List.append_assoc]
  | eofFinish replicaIdSeen => exact writeCounted_eq h writer
  | protocol messageId payload =>
      simp only [toBytesImpl,writeInt_word,Option.bind_eq_bind,Option.bind_some,fields,
        List.append_assoc]
  | protocolResult tagId messageId payload =>
      simp only [toBytesImpl,writeInt_word,Option.bind_eq_bind,Option.bind_some,fields,
        List.append_assoc]
  | eofResult tagId messagesSent =>
      simp only [toBytesImpl,writeInt_word,Option.bind_eq_bind,Option.bind_some,fields,
        List.append_assoc]

/-- The last field of a class has nothing behind it. -/
theorem readInt_last {size : ℕ} (value : Word size) :
    readInt size (intToBytes size value) = some (value,[]) := by
  rw [readInt_eq_some,List.append_nil]

theorem readCounted_last {values : List (Word 8)} (h : values.length < 256^4) :
    readCounted (counted values) = some (values,[]) := by
  have happend := readCounted_append h []
  rwa [List.append_nil] at happend

/-- Each parser reads the fields of its class where they were written. -/
theorem fromBytes_fields {body : Body} (h : body.CountsFit) :
    fromBytes body.messageType.value body.fields = some body := by
  cases body with
  | protocol messageId payload =>
      simp [fromBytes,messageType,MessageType.value,protocolFromBytes,fields]
  | protocolResult tagId messageId payload =>
      simp [fromBytes,messageType,MessageType.value,protocolResultFromBytes,fields]
  | eof messagesSent possibleDuplicates =>
      have hd : possibleDuplicates.length < 256^4 := h
      simp [fromBytes,messageType,MessageType.value,eofFromBytes,fields,readCounted_last hd]
  | eofDiscovery _ originalPossibleDuplicates _ _ possibleDuplicates replicaIdSeen =>
      obtain ⟨ho,hd,hr⟩ := h
      simp [fromBytes,messageType,MessageType.value,eofDiscoveryFromBytes,fields,
        readCounted_append ho,readCounted_append hd,readCounted_last hr]
  | eofAggregation _ originalPossibleDuplicates _ _ possibleDuplicates replicaIdSeen processedBy =>
      obtain ⟨ho,hd,hr,hp⟩ := h
      have hcount : readInt 4 (intToBytes 4 processedBy.length ++
          processedBy.flatMap ProcessedMessage.written) =
          some (⟨processedBy.length,hp⟩,processedBy.flatMap ProcessedMessage.written) :=
        readInt_eq_some.mpr rfl
      have hobjects := readMultipleObject_written processedBy []
      rw [List.append_nil] at hobjects
      simp [fromBytes,messageType,MessageType.value,eofAggregationFromBytes,fields,
        readCounted_append ho,readCounted_append hd,readCounted_append hr,hcount,hobjects]
  | eofFinish replicaIdSeen =>
      have hr : replicaIdSeen.length < 256^4 := h
      simp [fromBytes,messageType,MessageType.value,eofFinishFromBytes,fields,readCounted_last hr]
  | eofResult tagId messagesSent =>
      simp [fromBytes,messageType,MessageType.value,eofResultFromBytes,fields,readInt_last]

end Body

namespace Message

/-- `to_bytes`. -/
def toBytes (message : Message) : Option Bytes := do
  let writer ← writeInt [] message.body.messageType.value 2
  let writer ← writeInt writer message.clientId 8
  message.body.toBytesImpl writer

/-- `Message.from_bytes`; every exception of the parsers is `none`. -/
def fromBytes (bytes : Bytes) : Option Message := do
  let (type,reader) ← readInt 2 bytes
  let (clientId,reader) ← readInt 8 reader
  let body ← Body.fromBytes type reader
  some ⟨clientId,body⟩

theorem writeInt_messageType (messageType : MessageType) :
    writeInt [] messageType.value 2 = some (intToBytes 2 messageType.value) := by
  cases messageType <;> rfl

/-- A message is written, and read as the message it was. -/
theorem fromBytes_toBytes {message : Message} (h : message.body.CountsFit) :
    ∃ bytes, message.toBytes = some bytes ∧ fromBytes bytes = some message := by
  obtain ⟨clientId,body⟩ := message
  refine ⟨intToBytes 2 body.messageType.value ++ (intToBytes 8 clientId ++ body.fields),?_,?_⟩
  · unfold toBytes
    simp only [writeInt_messageType,writeInt_word,Option.bind_eq_bind,Option.bind_some,
      Body.toBytesImpl_eq h,List.append_assoc]
  · have hlt : body.messageType.value < 256^2 := by
      cases body.messageType <;> decide
    have htype : readInt 2 (intToBytes 2 body.messageType.value ++
        (intToBytes 8 clientId ++ body.fields)) =
        some (⟨body.messageType.value,hlt⟩,intToBytes 8 clientId ++ body.fields) :=
      readInt_eq_some.mpr rfl
    unfold fromBytes
    simp only [htype,Option.bind_eq_bind,Option.bind_some,Message.readInt_append,
      Body.fromBytes_fields h]

end Message

/-- Both codecs read what they have written. -/
theorem codecs_roundTrip :
    (∀ message : Queue.Message, message.body.CountsFit →
      ∃ bytes, message.toBytes = some bytes ∧ Queue.Message.fromBytes bytes = some message) ∧
    ∀ message : FlightsOptimizer.Message, message.CountFits →
      ∃ bytes, message.toBytes = some bytes ∧
        FlightsOptimizer.Message.fromBytes bytes = some message := by
  refine ⟨fun message h => Message.fromBytes_toBytes h,?_⟩
  intro message h
  have hbytes := FlightsOptimizer.Message.toBytes_eq_some.mpr ⟨h,rfl⟩
  exact ⟨_,hbytes,FlightsOptimizer.Message.fromBytes_toBytes hbytes⟩

/-- An aggregation that has found one entry sent and one not. -/
theorem codecs_roundTrip_aggregation :
    ∃ bytes, Message.toBytes ⟨7,.eofAggregation 3 [1,2] 4 5 [2] [1,3] [⟨2,true⟩,⟨2,false⟩]⟩ =
        some bytes ∧
      Message.fromBytes bytes =
        some ⟨7,.eofAggregation 3 [1,2] 4 5 [2] [1,3] [⟨2,true⟩,⟨2,false⟩]⟩ :=
  codecs_roundTrip.1 _ ⟨by decide,by decide,by decide,by decide⟩

end FlightsOptimizer.Queue
