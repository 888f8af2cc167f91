import FlightsOptimizer.MessageUtils

/-!
# The messages between a client and the server

A message is a type byte and the fields of its class, each written after the
other. What was written is read back as the same message, and what was read as
a message starts with what that message is written as: the reader of a class
without text looks no further than its last field.
-/
namespace FlightsOptimizer

inductive MessageType
  | announce
  | protocol
  | result
  | eof
  | healthCheck
  | healthOk
  | ack
  | announceAck
  | resultAck
  | resultEof
  deriving DecidableEq

def MessageType.value : MessageType → ℕ
  | announce => 0
  | protocol => 1
  | result => 2
  | eof => 3
  | healthCheck => 4
  | healthOk => 5
  | ack => 6
  | announceAck => 7
  | resultAck => 8
  | resultEof => 9

inductive MessageProtocolType
  | flight
  | airport
  deriving DecidableEq

namespace MessageProtocolType

def value : MessageProtocolType → ℕ
  | flight => 0
  | airport => 1

/-- `MessageProtocolType(value)`, which raises for any other value. -/
def ofValue : ℕ → Option MessageProtocolType
  | 0 => some flight
  | 1 => some airport
  | _ => none

theorem ofValue_eq_some {value : ℕ} {protocolType : MessageProtocolType} :
    ofValue value = some protocolType ↔ value = protocolType.value := by
  constructor
  · intro h
    unfold ofValue at h
    split at h <;> cases h <;> rfl
  · rintro rfl
    cases protocolType <;> rfl

theorem value_le (protocolType : MessageProtocolType) : protocolType.value ≤ 1 := by
  cases protocolType <;> decide

end MessageProtocolType

/-- `text.encode("utf-8")`. -/
def encode (text : String) : Bytes := text.toUTF8.data.toList

/-- `bytes.decode("utf-8")`, which raises for anything that is not UTF-8. -/
def decode (bytes : Bytes) : Option String := String.fromUTF8? ⟨bytes.toArray⟩

theorem decode_eq_some {bytes : Bytes} {text : String} :
    decode bytes = some text ↔ bytes = encode text := by
  unfold decode String.fromUTF8?
  constructor
  · intro h
    split_ifs at h with hv
    cases h
    rfl
  · rintro rfl
    exact dif_pos text.isValidUTF8

@[simp] theorem decode_encode (text : String) : decode (encode text) = some text :=
  decode_eq_some.mpr rfl

/-- The messages, with the fields their classes have. -/
inductive Message
  | announce (clientId : Word 8)
  | clientProtocol (messageId : Word 8) (protocolType : MessageProtocolType) (content : String)
  | result (tagId : Word 1) (messageId : Word 8) (text : String)
  | eof (protocolType : MessageProtocolType) (messagesSent : Word 8)
      (possibleDuplicates : List (Word 8))
  | healthCheck
  | healthOk
  | ack (messageId : Word 8) (protocolType : MessageProtocolType)
  | announceAck
  | resultAck
  | resultEof (tagId : Word 1) (messagesSent : Word 8)
  deriving DecidableEq

namespace Message
open MessageBytesWriter MessageBytesReader

def messageType : Message → MessageType
  | announce _ => .announce
  | clientProtocol _ _ _ => .protocol
  | result _ _ _ => .result
  | eof _ _ _ => .eof
  | healthCheck => .healthCheck
  | healthOk => .healthOk
  | ack _ _ => .ack
  | announceAck => .announceAck
  | resultAck => .resultAck
  | resultEof _ _ => .resultEof

def toBytesImpl (writer : Bytes) : Message → Option Bytes
  | announce clientId => writeInt writer clientId 8
  | clientProtocol messageId protocolType content => do
      let writer ← writeInt writer messageId 8
      let writer ← writeInt writer protocolType.value 1
      some (writer ++ encode content)
  | result tagId messageId text => do
      let writer ← writeInt writer tagId 1
      let writer ← writeInt writer messageId 8
      some (writer ++ encode text)
  | eof protocolType messagesSent possibleDuplicates => do
      let writer ← writeInt writer protocolType.value 1
      let writer ← writeInt writer messagesSent 8
      let writer ← writeInt writer possibleDuplicates.length 4
      writeMultipleInt writer possibleDuplicates
  | healthCheck => some writer
  | healthOk => some writer
  | ack messageId protocolType => do
      let writer ← writeInt writer messageId 8
      writeInt writer protocolType.value 1
  | announceAck => some writer
  | resultAck => some writer
  | resultEof tagId messagesSent => do
      let writer ← writeInt writer tagId 1
      writeInt writer messagesSent 8

/-- `to_bytes`. The only thing that can fail to fit is the number of possible
duplicates, since the other integers carry their width. -/
def toBytes (message : Message) : Option Bytes := do
  let writer ← writeInt [] message.messageType.value 1
  toBytesImpl writer message

def readProtocolType (reader : Bytes) : Option (MessageProtocolType × Bytes) := do
  let (protocolTypeValue,reader) ← readInt 1 reader
  let protocolType ← MessageProtocolType.ofValue protocolTypeValue
  some (protocolType,reader)

def announceFromBytes (reader : Bytes) : Option Message := do
  let (clientId,_) ← readInt 8 reader
  some (announce clientId)

def clientProtocolFromBytes (reader : Bytes) : Option Message := do
  let (messageId,reader) ← readInt 8 reader
  let (protocolType,reader) ← readProtocolType reader
  let content ← decode reader
  some (clientProtocol messageId protocolType content)

def resultFromBytes (reader : Bytes) : Option Message := do
  let (tagId,reader) ← readInt 1 reader
  let (messageId,reader) ← readInt 8 reader
  let text ← decode reader
  some (result tagId messageId text)

def eofFromBytes (reader : Bytes) : Option Message := do
  let (protocolType,reader) ← readProtocolType reader
  let (messagesSent,reader) ← readInt 8 reader
  let (possibleDuplicatesCount,reader) ← readInt 4 reader
  let (possibleDuplicates,_) ← readMultipleInt 8 possibleDuplicatesCount reader
  some (eof protocolType messagesSent possibleDuplicates)

def ackFromBytes (reader : Bytes) : Option Message := do
  let (messageId,reader) ← readInt 8 reader
  let (protocolType,_) ← readProtocolType reader
  some (ack messageId protocolType)

def resultEofFromBytes (reader : Bytes) : Option Message := do
  let (tagId,reader) ← readInt 1 reader
  let (messagesSent,_) ← readInt 8 reader
  some (resultEof tagId messagesSent)

/-- `Message.from_bytes`; every exception of the parsers is `none`. -/
def fromBytes (bytes : Bytes) : Option Message := do
  let (type,reader) ← readInt 1 bytes
  if type = MessageType.announce.value then announceFromBytes reader
  else if type = MessageType.protocol.value then clientProtocolFromBytes reader
  else if type = MessageType.result.value then resultFromBytes reader
  else if type = MessageType.eof.value then eofFromBytes reader
  else if type = MessageType.healthCheck.value then some healthCheck
  else if type = MessageType.healthOk.value then some healthOk
  else if type = MessageType.ack.value then ackFromBytes reader
  else if type = MessageType.announceAck.value then some announceAck
  else if type = MessageType.resultAck.value then some resultAck
  else if type = MessageType.resultEof.value then resultEofFromBytes reader
  else none

/-- What stands behind the type byte. -/
def fields : Message → Bytes
  | announce clientId => intToBytes 8 clientId
  | clientProtocol messageId protocolType content =>
      intToBytes 8 messageId ++ (intToBytes 1 protocolType.value ++ encode content)
  | result tagId messageId text =>
      intToBytes 1 tagId ++ (intToBytes 8 messageId ++ encode text)
  | eof protocolType messagesSent possibleDuplicates =>
      intToBytes 1 protocolType.value ++ (intToBytes 8 messagesSent ++
        (intToBytes 4 possibleDuplicates.length ++
          possibleDuplicates.flatMap fun id : Word 8 => intToBytes 8 id))
  | ack messageId protocolType => intToBytes 8 messageId ++ intToBytes 1 protocolType.value
  | resultEof tagId messagesSent => intToBytes 1 tagId ++ intToBytes 8 messagesSent
  | healthCheck | healthOk | announceAck | resultAck => []

/-- The possible duplicates are few enough for the width of their count. -/
def CountFits : Message → Prop
  | eof _ _ possibleDuplicates => possibleDuplicates.length < 256^4
  | _ => True

theorem writeInt_protocolType (writer : Bytes) (protocolType : MessageProtocolType) :
    writeInt writer protocolType.value 1 =
      some (writer ++ intToBytes 1 protocolType.value) := by
  have h := protocolType.value_le
  exact if_pos (by omega)

theorem writeInt_messageType (writer : Bytes) (messageType : MessageType) :
    writeInt writer messageType.value 1 = some (writer ++ intToBytes 1 messageType.value) := by
  cases messageType <;> rfl

theorem toBytesImpl_eq_some {writer bytes : Bytes} {message : Message} :
    toBytesImpl writer message = some bytes ↔
      message.CountFits ∧ bytes = writer ++ message.fields := by
  cases message with
  | eof protocolType messagesSent possibleDuplicates =>
      simp only [toBytesImpl,writeInt_protocolType,writeInt_word,Option.bind_eq_bind,
        Option.bind_some,CountFits,fields]
      by_cases h : possibleDuplicates.length < 256^4
      · simp only [writeInt,h,if_true,Option.bind_some,writeMultipleInt_eq,Option.some.injEq,
          List.append_assoc,true_and,eq_comm]
      · simp only [writeInt,h,if_false,Option.bind_none,reduceCtorEq,false_and]
  | _ => simp [toBytesImpl,writeInt_protocolType,writeInt_word,CountFits,fields,eq_comm]

theorem toBytes_eq_some {bytes : Bytes} {message : Message} :
    message.toBytes = some bytes ↔
      message.CountFits ∧ bytes = intToBytes 1 message.messageType.value ++ message.fields := by
  rw [toBytes,writeInt_messageType,Option.bind_eq_bind,Option.bind_some,toBytesImpl_eq_some,
    List.nil_append]

theorem readProtocolType_eq_some {reader rest : Bytes} {protocolType : MessageProtocolType} :
    readProtocolType reader = some (protocolType,rest) ↔
      reader = intToBytes 1 protocolType.value ++ rest := by
  constructor
  · intro h
    obtain ⟨⟨value,tail⟩,hv,h⟩ := Option.bind_eq_some_iff.mp h
    obtain ⟨t,ht,h⟩ := Option.bind_eq_some_iff.mp h
    cases h
    rw [readInt_eq_some.mp hv,MessageProtocolType.ofValue_eq_some.mp ht]
  · intro h
    have hlt : protocolType.value < 256^1 := by
      have := protocolType.value_le
      omega
    have hv : readInt 1 reader = some (⟨protocolType.value,hlt⟩,rest) := readInt_eq_some.mpr h
    have ht := MessageProtocolType.ofValue_eq_some.mpr (Eq.refl protocolType.value)
    simp only [readProtocolType,hv,Option.bind_eq_bind,Option.bind_some,ht]

@[simp] theorem readInt_append {size : ℕ} (value : Word size) (rest : Bytes) :
    readInt size (intToBytes size value ++ rest) = some (value,rest) :=
  readInt_eq_some.mpr rfl

@[simp] theorem readProtocolType_append (protocolType : MessageProtocolType) (rest : Bytes) :
    readProtocolType (intToBytes 1 protocolType.value ++ rest) = some (protocolType,rest) :=
  readProtocolType_eq_some.mpr rfl

/-- Only a text reaches to the end of its message. -/
def HasText : Message → Prop
  | clientProtocol _ _ _ | result _ _ _ => True
  | _ => False

theorem fromBytes_fields {message : Message} (h : message.CountFits) (rest : Bytes)
    (hr : message.HasText → rest = []) :
    fromBytes (intToBytes 1 message.messageType.value ++ (message.fields ++ rest)) =
      some message := by
  have htype : message.messageType.value < 256^1 := by
    cases message.messageType <;> decide
  have hread : readInt 1 (intToBytes 1 message.messageType.value ++ (message.fields ++ rest)) =
      some (⟨message.messageType.value,htype⟩,message.fields ++ rest) := readInt_eq_some.mpr rfl
  unfold fromBytes
  rw [hread]
  simp only [Option.bind_eq_bind,Option.bind_some]
  cases message with
  | eof protocolType messagesSent possibleDuplicates =>
      have hcount : readInt 4 (intToBytes 4 possibleDuplicates.length ++
          ((possibleDuplicates.flatMap fun id : Word 8 => intToBytes 8 id) ++ rest)) =
          some (⟨possibleDuplicates.length,h⟩,
            (possibleDuplicates.flatMap fun id : Word 8 => intToBytes 8 id) ++ rest) :=
        readInt_eq_some.mpr rfl
      have hmany : readMultipleInt 8 possibleDuplicates.length
          ((possibleDuplicates.flatMap fun id : Word 8 => intToBytes 8 id) ++ rest) =
          some (possibleDuplicates,rest) := readMultipleInt_eq_some.mpr ⟨rfl,rfl⟩
      simp [messageType,MessageType.value,eofFromBytes,fields,List.append_assoc,hcount,hmany]
  | clientProtocol messageId protocolType content =>
      simp [messageType,MessageType.value,clientProtocolFromBytes,fields,hr trivial]
  | result tagId messageId text =>
      simp [messageType,MessageType.value,resultFromBytes,fields,hr trivial]
  | announce clientId => simp [messageType,MessageType.value,announceFromBytes,fields]
  | ack messageId protocolType => simp [messageType,MessageType.value,ackFromBytes,fields]
  | resultEof tagId messagesSent => simp [messageType,MessageType.value,resultEofFromBytes,fields]
  | _ => simp [messageType,MessageType.value]

/-- What was written is read as the message it was. -/
theorem fromBytes_toBytes {message : Message} {bytes : Bytes} (h : message.toBytes = some bytes) :
    fromBytes bytes = some message := by
  obtain ⟨hc,rfl⟩ := toBytes_eq_some.mp h
  have hf := fromBytes_fields hc [] fun _ => rfl
  rwa [List.append_nil] at hf

/-- The bytes behind the type byte start with the fields of this message. -/
def ReadFrom (type : MessageType) (reader : Bytes) (message : Message) : Prop :=
  message.messageType = type ∧ message.CountFits ∧ message.fields <+: reader

theorem announce_readFrom {reader : Bytes} {message : Message}
    (h : announceFromBytes reader = some message) : ReadFrom .announce reader message := by
  obtain ⟨⟨clientId,rest⟩,hc,h⟩ := Option.bind_eq_some_iff.mp h
  cases h
  exact ⟨rfl,trivial,rest,(readInt_eq_some.mp hc).symm⟩

theorem clientProtocol_readFrom {reader : Bytes} {message : Message}
    (h : clientProtocolFromBytes reader = some message) : ReadFrom .protocol reader message := by
  obtain ⟨⟨messageId,rest⟩,hm,h⟩ := Option.bind_eq_some_iff.mp h
  obtain ⟨⟨protocolType,rest'⟩,hp,h⟩ := Option.bind_eq_some_iff.mp h
  obtain ⟨content,hd,h⟩ := Option.bind_eq_some_iff.mp h
  cases h
  refine ⟨rfl,trivial,[],?_⟩
  rw [readInt_eq_some.mp hm,readProtocolType_eq_some.mp hp,decode_eq_some.mp hd,List.append_nil]
  rfl

theorem result_readFrom {reader : Bytes} {message : Message}
    (h : resultFromBytes reader = some message) : ReadFrom .result reader message := by
  obtain ⟨⟨tagId,rest⟩,ht,h⟩ := Option.bind_eq_some_iff.mp h
  obtain ⟨⟨messageId,rest'⟩,hm,h⟩ := Option.bind_eq_some_iff.mp h
  obtain ⟨text,hd,h⟩ := Option.bind_eq_some_iff.mp h
  cases h
  refine ⟨rfl,trivial,[],?_⟩
  rw [readInt_eq_some.mp ht,readInt_eq_some.mp hm,decode_eq_some.mp hd,List.append_nil]
  rfl

theorem eof_readFrom {reader : Bytes} {message : Message}
    (h : eofFromBytes reader = some message) : ReadFrom .eof reader message := by
  obtain ⟨⟨protocolType,rest⟩,hp,h⟩ := Option.bind_eq_some_iff.mp h
  obtain ⟨⟨messagesSent,rest'⟩,hs,h⟩ := Option.bind_eq_some_iff.mp h
  obtain ⟨⟨count,rest''⟩,hc,h⟩ := Option.bind_eq_some_iff.mp h
  obtain ⟨⟨possibleDuplicates,tail⟩,hd,h⟩ := Option.bind_eq_some_iff.mp h
  cases h
  obtain ⟨hlen,htail⟩ := readMultipleInt_eq_some.mp hd
  refine ⟨rfl,?_,tail,?_⟩
  · change possibleDuplicates.length < 256^4
    rw [hlen]
    exact count.isLt
  · rw [readProtocolType_eq_some.mp hp,readInt_eq_some.mp hs,readInt_eq_some.mp hc,htail,← hlen]
    simp only [fields,List.append_assoc]

theorem ack_readFrom {reader : Bytes} {message : Message}
    (h : ackFromBytes reader = some message) : ReadFrom .ack reader message := by
  obtain ⟨⟨messageId,rest⟩,hm,h⟩ := Option.bind_eq_some_iff.mp h
  obtain ⟨⟨protocolType,rest'⟩,hp,h⟩ := Option.bind_eq_some_iff.mp h
  cases h
  refine ⟨rfl,trivial,rest',?_⟩
  rw [readInt_eq_some.mp hm,readProtocolType_eq_some.mp hp]
  simp only [fields,List.append_assoc]

theorem resultEof_readFrom {reader : Bytes} {message : Message}
    (h : resultEofFromBytes reader = some message) : ReadFrom .resultEof reader message := by
  obtain ⟨⟨tagId,rest⟩,ht,h⟩ := Option.bind_eq_some_iff.mp h
  obtain ⟨⟨messagesSent,rest'⟩,hs,h⟩ := Option.bind_eq_some_iff.mp h
  cases h
  refine ⟨rfl,trivial,rest',?_⟩
  rw [readInt_eq_some.mp ht,readInt_eq_some.mp hs]
  simp only [fields,List.append_assoc]

/-- The message behind a type byte, one case for each class. -/
theorem fromBytes_readFrom {bytes : Bytes} {message : Message}
    (h : fromBytes bytes = some message) :
    ∃ (type : MessageType) (reader : Bytes), bytes = intToBytes 1 type.value ++ reader ∧
      ReadFrom type reader message := by
  obtain ⟨⟨type,reader⟩,ht,h⟩ := Option.bind_eq_some_iff.mp h
  have hb := readInt_eq_some.mp ht
  dsimp only at h
  rcases ite_eq_iff.mp h with ⟨h0,h⟩ | ⟨-,h⟩
  · exact ⟨.announce,reader,h0 ▸ hb,announce_readFrom h⟩
  rcases ite_eq_iff.mp h with ⟨h1,h⟩ | ⟨-,h⟩
  · exact ⟨.protocol,reader,h1 ▸ hb,clientProtocol_readFrom h⟩
  rcases ite_eq_iff.mp h with ⟨h2,h⟩ | ⟨-,h⟩
  · exact ⟨.result,reader,h2 ▸ hb,result_readFrom h⟩
  rcases ite_eq_iff.mp h with ⟨h3,h⟩ | ⟨-,h⟩
  · exact ⟨.eof,reader,h3 ▸ hb,eof_readFrom h⟩
  rcases ite_eq_iff.mp h with ⟨h4,h⟩ | ⟨-,h⟩
  · cases h
    exact ⟨.healthCheck,reader,h4 ▸ hb,rfl,trivial,List.nil_prefix⟩
  rcases ite_eq_iff.mp h with ⟨h5,h⟩ | ⟨-,h⟩
  · cases h
    exact ⟨.healthOk,reader,h5 ▸ hb,rfl,trivial,List.nil_prefix⟩
  rcases ite_eq_iff.mp h with ⟨h6,h⟩ | ⟨-,h⟩
  · exact ⟨.ack,reader,h6 ▸ hb,ack_readFrom h⟩
  rcases ite_eq_iff.mp h with ⟨h7,h⟩ | ⟨-,h⟩
  · cases h
    exact ⟨.announceAck,reader,h7 ▸ hb,rfl,trivial,List.nil_prefix⟩
  rcases ite_eq_iff.mp h with ⟨h8,h⟩ | ⟨-,h⟩
  · cases h
    exact ⟨.resultAck,reader,h8 ▸ hb,rfl,trivial,List.nil_prefix⟩
  rcases ite_eq_iff.mp h with ⟨h9,h⟩ | ⟨-,h⟩
  · exact ⟨.resultEof,reader,h9 ▸ hb,resultEof_readFrom h⟩
  · cases h

/-- What was read as a message starts with what the message is written as. -/
theorem toBytes_fromBytes {bytes : Bytes} {message : Message}
    (h : fromBytes bytes = some message) :
    ∃ written, message.toBytes = some written ∧ written <+: bytes := by
  obtain ⟨type,reader,hb,htype,hc,rest,hr⟩ := fromBytes_readFrom h
  refine ⟨_,toBytes_eq_some.mpr ⟨hc,rfl⟩,rest,?_⟩
  rw [List.append_assoc,hr,htype,hb]

end Message
end FlightsOptimizer
