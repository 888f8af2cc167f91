import FlightsOptimizer.Framing
import FlightsOptimizer.Protocol

/-!
# Messages over a socket

The sender writes a message and the delimiter behind it. The receiver collects
what the socket returns until the delimiter shows up, and takes what stands
before it as a message. How the socket cuts the stream into pieces does not
matter: a call depends only on what the receiver has not consumed yet.
-/
namespace FlightsOptimizer
open Framing

def bufferSize : ℕ := 8192

/-- Carriage return, line feed, twice. -/
def endOfMessage : Bytes := [13,10,13,10]

/-- What `recv` returns before the peer disconnects. -/
abbrev Chunk := {data : Bytes // data ≠ [] ∧ data.length ≤ bufferSize}

/-- The socket is what its next calls of `recv` return; after them it returns
no data. -/
structure CommunicationBuffer where
  sock : List Chunk
  buffer : Bytes

inductive GetMessageError
  | peerDisconnected
  | notAMessage
  deriving DecidableEq

namespace CommunicationBuffer

def parse (line : Bytes) : Except GetMessageError Message :=
  match Message.fromBytes line with
  | some message => .ok message
  | none => .error .notAMessage

/-- The loop of `get_message`. The buffer is cut before the parser can raise. -/
def receive : List Chunk → Bytes → Except GetMessageError Message × CommunicationBuffer
  | [], buffer =>
      match splitFirst endOfMessage buffer with
      | some (line,rest) => (parse line,⟨[],rest⟩)
      | none => (.error .peerDisconnected,⟨[],buffer⟩)
  | data :: sock, buffer =>
      match splitFirst endOfMessage buffer with
      | some (line,rest) => (parse line,⟨data :: sock,rest⟩)
      | none => receive sock (buffer ++ data)

def getMessage (b : CommunicationBuffer) : Except GetMessageError Message × CommunicationBuffer :=
  receive b.sock b.buffer

/-- Successive calls of `get_message`, whatever each of them returns. -/
def getMessages : ℕ → CommunicationBuffer → List (Except GetMessageError Message)
  | 0, _ => []
  | n+1, b => b.getMessage.1 :: getMessages n b.getMessage.2

def sendMessage (message : Message) : Option Bytes := do
  let bytes ← message.toBytes
  some (bytes ++ endOfMessage)

/-- What the calls of `send_message` put on the socket. The first one that
raises ends them. -/
def sendMessages : List Message → Bytes
  | [] => []
  | message :: messages =>
      match sendMessage message with
      | some data => data ++ sendMessages messages
      | none => []

/-- What is buffered and what is still to arrive. -/
def unread (b : CommunicationBuffer) : Bytes := b.buffer ++ b.sock.flatMap Subtype.val

theorem receive_some {sock : List Chunk} {buffer line rest : Bytes}
    (h : splitFirst endOfMessage (buffer ++ sock.flatMap Subtype.val) = some (line,rest)) :
    (receive sock buffer).1 = parse line ∧ (receive sock buffer).2.unread = rest := by
  induction sock generalizing buffer with
  | nil =>
      rw [List.flatMap_nil,List.append_nil] at h
      simp only [receive,h,unread,List.flatMap_nil,List.append_nil,and_self]
  | cons data sock ih =>
      cases hs : splitFirst endOfMessage buffer with
      | none =>
          rw [List.flatMap_cons,← List.append_assoc] at h
          simp only [receive,hs]
          exact ih h
      | some p =>
          rw [splitFirst_append hs] at h
          cases h
          simp only [receive,hs,unread,and_self]

theorem receive_none {sock : List Chunk} {buffer : Bytes}
    (h : splitFirst endOfMessage (buffer ++ sock.flatMap Subtype.val) = none) :
    (receive sock buffer).1 = .error .peerDisconnected ∧
      (receive sock buffer).2.unread = buffer ++ sock.flatMap Subtype.val := by
  induction sock generalizing buffer with
  | nil =>
      rw [List.flatMap_nil,List.append_nil] at h
      simp only [receive,h,unread,and_self]
  | cons data sock ih =>
      cases hs : splitFirst endOfMessage buffer with
      | none =>
          rw [List.flatMap_cons,← List.append_assoc] at h ⊢
          simp only [receive,hs]
          exact ih h
      | some p =>
          rw [splitFirst_append hs] at h
          exact (Option.some_ne_none _ h).elim

theorem getMessage_some {b : CommunicationBuffer} {line rest : Bytes}
    (h : splitFirst endOfMessage b.unread = some (line,rest)) :
    b.getMessage.1 = parse line ∧ b.getMessage.2.unread = rest := receive_some h

theorem getMessage_none {b : CommunicationBuffer}
    (h : splitFirst endOfMessage b.unread = none) :
    b.getMessage.1 = .error .peerDisconnected ∧ b.getMessage.2.unread = b.unread := receive_none h

theorem parse_toBytes {message : Message} {bytes : Bytes} (h : message.toBytes = some bytes) :
    parse bytes = .ok message := by
  simp only [parse,Message.fromBytes_toBytes h]

theorem written_of_parse {message : Message} {bytes line : Bytes}
    (h : message.toBytes = some bytes) (hp : parse line = .ok message) : bytes <+: line := by
  unfold parse at hp
  cases hf : Message.fromBytes line with
  | none =>
      rw [hf] at hp
      cases hp
  | some read =>
      rw [hf] at hp
      cases hp
      obtain ⟨written,hw,hpre⟩ := Message.toBytes_fromBytes hf
      rw [h] at hw
      cases hw
      exact hpre

/-- The calls return the messages in order and then, however often they are
repeated, that the peer has disconnected. -/
def RoundTrip (messages : List Message) (b : CommunicationBuffer) : Prop :=
  ∀ k, getMessages (messages.length+k) b =
    messages.map Except.ok ++ List.replicate k (.error .peerDisconnected)

theorem roundTrip_nil {b : CommunicationBuffer} (h : b.unread = []) : RoundTrip [] b := by
  intro k
  rw [List.length_nil,Nat.zero_add,List.map_nil,List.nil_append]
  induction k generalizing b with
  | zero => rfl
  | succ k ih =>
      have hs : splitFirst endOfMessage b.unread = none := by rw [h]; rfl
      obtain ⟨hm,hu⟩ := getMessage_none hs
      rw [getMessages,hm,ih (hu.trans h),List.replicate_succ]

theorem roundTrip_cons {message : Message} {messages : List Message} {b : CommunicationBuffer} :
    RoundTrip (message :: messages) b ↔
      b.getMessage.1 = .ok message ∧ RoundTrip messages b.getMessage.2 := by
  have hcalls : ∀ k, getMessages ((message :: messages).length+k) b =
      b.getMessage.1 :: getMessages (messages.length+k) b.getMessage.2 := by
    intro k
    rw [List.length_cons,Nat.succ_add]
    rfl
  constructor
  · intro h
    have hk : ∀ k, b.getMessage.1 = .ok message ∧
        getMessages (messages.length+k) b.getMessage.2 =
          messages.map Except.ok ++ List.replicate k (.error .peerDisconnected) := by
      intro k
      have hcons := h k
      rw [hcalls,List.map_cons,List.cons_append] at hcons
      exact List.cons.inj hcons
    exact ⟨(hk 0).1,fun k => (hk k).2⟩
  · rintro ⟨hm,h⟩ k
    rw [hcalls,hm,h k,List.map_cons,List.cons_append]

/-- The message can be written, and its end is the first delimiter behind its start. -/
def Framed (message : Message) : Prop :=
  ∃ bytes, message.toBytes = some bytes ∧ Clean endOfMessage bytes

theorem getMessage_framed {message : Message} {messages : List Message} {b : CommunicationBuffer}
    (h : b.unread = sendMessages (message :: messages)) :
    b.getMessage.1 = .ok message ↔ Framed message := by
  cases ht : message.toBytes with
  | none =>
      have hs : splitFirst endOfMessage b.unread = none := by
        simp only [h,sendMessages,sendMessage,ht,Option.bind_eq_bind,Option.bind_none]
        rfl
      constructor
      · intro hm
        rw [(getMessage_none hs).1] at hm
        cases hm
      · rintro ⟨bytes,hb,-⟩
        rw [ht] at hb
        cases hb
  | some bytes =>
      have hu : b.unread = bytes ++ endOfMessage ++ sendMessages messages := by
        simp only [h,sendMessages,sendMessage,ht,Option.bind_eq_bind,Option.bind_some]
      constructor
      · intro hm
        refine ⟨bytes,ht,?_⟩
        by_contra hc
        obtain ⟨line,rest,hs,hlt⟩ := splitFirst_unclean hc (sendMessages messages)
        rw [← hu] at hs
        rw [(getMessage_some hs).1] at hm
        have hle := (written_of_parse ht hm).length_le
        omega
      · rintro ⟨written,hw,hc⟩
        rw [ht] at hw
        cases hw
        have hs := splitFirst_clean hc (sendMessages messages)
        rw [← hu] at hs
        rw [(getMessage_some hs).1,parse_toBytes ht]

theorem unread_framed {message : Message} {messages : List Message} {b : CommunicationBuffer}
    (h : b.unread = sendMessages (message :: messages)) (hf : Framed message) :
    b.getMessage.2.unread = sendMessages messages := by
  obtain ⟨bytes,hb,hc⟩ := hf
  have hs := splitFirst_clean hc (sendMessages messages)
  have hu : b.unread = bytes ++ endOfMessage ++ sendMessages messages := by
    simp only [h,sendMessages,sendMessage,hb,Option.bind_eq_bind,Option.bind_some]
  rw [← hu] at hs
  exact (getMessage_some hs).2

/-- Messages come back as they were sent exactly when each of them is framed.
The induction is on the messages; one that is not framed is lost at once. -/
theorem roundTrip_iff_framed {messages : List Message} {b : CommunicationBuffer}
    (h : b.unread = sendMessages messages) :
    RoundTrip messages b ↔ ∀ message ∈ messages, Framed message := by
  induction messages generalizing b with
  | nil => exact iff_of_true (roundTrip_nil h) fun _ hm => (List.not_mem_nil hm).elim
  | cons message messages ih =>
      rw [roundTrip_cons,getMessage_framed h,List.forall_mem_cons]
      constructor
      · rintro ⟨hf,hr⟩
        exact ⟨hf,(ih (unread_framed h hf)).mp hr⟩
      · rintro ⟨hf,hr⟩
        exact ⟨hf,(ih (unread_framed h hf)).mpr hr⟩

end CommunicationBuffer
end FlightsOptimizer
