import FlightsOptimizer.Logger

/-!
# Results on their way to the client

The taggers publish result batches and, for each query, how many there were. The
listener passes both on under the client's routing key, and the uploader of a
client hands them to its socket. The listener's sender falls back to its own
counter when it is given no number to announce, and zero counts as none.
-/
namespace FlightsOptimizer.ResultsListener
open Logger

abbrev TagId := ℕ

/-- What the queue of the listener and the exchange behind it carry. -/
inductive Message
  | protocolResult (clientId : ClientId) (tagId : TagId) (messageId : MessageId)
      (payload : List String)
  | eofResult (clientId : ClientId) (tagId : TagId) (messagesSent : ℕ)
  deriving DecidableEq

/-- What the uploader writes to the socket of its client. -/
inductive Upload
  | result (tagId : TagId) (messageId : MessageId) (content : String)
  | resultEof (tagId : TagId) (messagesSent : ℕ)
  deriving DecidableEq

/-- The counters of a sender, and what it has published under which key. -/
structure Sender where
  messagesSent : Dict ClientId ℕ
  published : List (String × Message)

namespace Sender

def getClientMessagesSent (clientId : ClientId) (s : Sender) : ℕ := s.messagesSent.getD clientId 0

def send (message : Message) (routingKey : String) (s : Sender) : Sender :=
  {s with published := s.published ++ [(routingKey,message)]}

/-- One more message for the client, whatever its tag. -/
def sendAll (clientId : ClientId) (message : Message) (routingKey : String) (s : Sender) : Sender :=
  let s := s.send message routingKey
  {s with messagesSent := s.messagesSent.set clientId (s.messagesSent.getD clientId 0 + 1)}

/-- `messages_sent if messages_sent else self.get_client_messages_sent(client_id)`. -/
def announced (clientId : ClientId) (messagesSent : Option ℕ) (s : Sender) : ℕ :=
  match messagesSent with
  | none | some 0 => s.getClientMessagesSent clientId
  | some n => n

def sendSpecialResultEof (clientId : ClientId) (tagId : TagId) (routingKey : String)
    (messagesSent : Option ℕ) (s : Sender) : Sender :=
  s.send (.eofResult clientId tagId (s.announced clientId messagesSent)) routingKey

end Sender

/-- `output_callback` and `handle_result_eof` of the listener. -/
def handle (message : Message) (s : Sender) : Sender :=
  match message with
  | .protocolResult clientId _ _ _ => s.sendAll clientId message (toString clientId)
  | .eofResult clientId tagId messagesSent =>
      s.sendSpecialResultEof clientId tagId (toString clientId) (some messagesSent)

def listen (messages : List Message) (s : Sender) : Sender := messages.foldl (fun s m => handle m s) s

/-- `output_callback` and `handle_result_eof` of the uploader. -/
def upload : Message → Upload
  | .protocolResult _ tagId messageId payload =>
      .result tagId messageId ("\n".intercalate payload)
  | .eofResult _ tagId messagesSent => .resultEof tagId messagesSent

/-- What the uploader of a client, whose queue is bound to its id, hands to
`send_message`. -/
def delivered (clientId : ClientId) (s : Sender) : List Upload :=
  (s.published.filter fun p => p.1 == toString clientId).map fun p => upload p.2

def Message.eofOf (clientId : ClientId) : Message → Option (TagId × ℕ)
  | .eofResult c tagId messagesSent => if c = clientId then some (tagId,messagesSent) else none
  | _ => none

def Upload.eof : Upload → Option (TagId × ℕ)
  | .resultEof tagId messagesSent => some (tagId,messagesSent)
  | _ => none

/-- The uploader of every client hands on the ends that were published for it, in order
and with the numbers that they had. -/
def CountsKept (messages : List Message) (s : Sender) : Prop :=
  ∀ c, (delivered c (listen messages s)).filterMap Upload.eof =
    (delivered c s).filterMap Upload.eof ++ messages.filterMap (Message.eofOf c)

/-- No end that announces zero comes after a result of its client. -/
def ZeroFirst (messages : List Message) (s : Sender) : Prop :=
  ∀ pre c tagId post, messages = pre ++ .eofResult c tagId 0 :: post →
    s.messagesSent.getD c 0 = 0 ∧ ∀ t i payload, .protocolResult c t i payload ∉ pre

variable {message : Message} {messages : List Message} {s : Sender} {c : ClientId}

/-- The end that one message makes the listener publish for a client. -/
def emitted (c : ClientId) (message : Message) (s : Sender) : List (TagId × ℕ) :=
  ((message.eofOf c).map fun e => (e.1,s.announced c (some e.2))).toList

/-- Different clients have different routing keys. -/
theorem routingKey_inj {c d : ClientId} (h : Nat.repr d = Nat.repr c) : d = c := by
  have hd := congrArg (fun key => Nat.ofDigitChars 10 (String.toList key) 0) h
  simpa only [Nat.toList_repr,Nat.ofDigitChars_ten_toDigits] using hd

theorem delivered_handle : (delivered c (handle message s)).filterMap Upload.eof =
    (delivered c s).filterMap Upload.eof ++ emitted c message s := by
  cases message with
  | protocolResult d tagId messageId payload =>
      simp only [handle,Sender.sendAll,Sender.send,delivered,List.filter_append,List.map_append,
        List.filterMap_append]
      by_cases hd : d = c <;>
        simp [hd,upload,Upload.eof,emitted,Message.eofOf]
  | eofResult d tagId messagesSent =>
      simp only [handle,Sender.sendSpecialResultEof,Sender.send,delivered,List.filter_append,
        List.map_append,List.filterMap_append]
      by_cases hd : d = c
      · simp [hd,upload,Upload.eof,emitted,Message.eofOf]
      · have hkey : ¬ Nat.repr d = Nat.repr c := fun h => hd (routingKey_inj h)
        simp [hd,hkey,upload,Upload.eof,emitted,Message.eofOf]

theorem listen_cons : listen (message :: messages) s = listen messages (handle message s) := rfl

theorem delivered_listen (messages : List Message) (s : Sender) (c : ClientId) :
    ∃ ends, (delivered c (listen messages s)).filterMap Upload.eof =
      (delivered c s).filterMap Upload.eof ++ ends := by
  induction messages generalizing s with
  | nil => exact ⟨[],(List.append_nil _).symm⟩
  | cons message messages ih =>
      obtain ⟨ends,he⟩ := ih (handle message s)
      rw [listen_cons,he,delivered_handle,List.append_assoc]
      exact ⟨_,rfl⟩

theorem eofOf_cons : (message :: messages).filterMap (Message.eofOf c) =
    (message.eofOf c).toList ++ messages.filterMap (Message.eofOf c) := by
  rw [List.filterMap_cons]
  cases message.eofOf c <;> rfl

theorem countsKept_cons : CountsKept (message :: messages) s ↔
    (∀ c, emitted c message s = (message.eofOf c).toList) ∧ CountsKept messages (handle message s) := by
  constructor
  · intro h
    have hc : ∀ c, emitted c message s = (message.eofOf c).toList ∧
        (delivered c (listen messages (handle message s))).filterMap Upload.eof =
          (delivered c (handle message s)).filterMap Upload.eof ++
            messages.filterMap (Message.eofOf c) := by
      intro c
      obtain ⟨ends,he⟩ := delivered_listen messages (handle message s) c
      have hk := h c
      rw [listen_cons,he,delivered_handle,eofOf_cons,List.append_assoc,List.append_cancel_left_eq] at hk
      have hlen : (emitted c message s).length = (message.eofOf c).toList.length := by
        unfold emitted
        cases message.eofOf c <;> rfl
      obtain ⟨hfirst,hrest⟩ := List.append_inj hk hlen
      exact ⟨hfirst,by rw [he,hrest]⟩
    exact ⟨fun c => (hc c).1,fun c => (hc c).2⟩
  · rintro ⟨hfirst,hrest⟩ c
    rw [listen_cons,hrest c,delivered_handle,hfirst c,eofOf_cons,List.append_assoc]

/-- A number reaches the client as it is unless it is zero and the counter is not. -/
theorem emitted_eq_iff : (∀ c, emitted c message s = (message.eofOf c).toList) ↔
    ∀ c tagId, message = .eofResult c tagId 0 → s.messagesSent.getD c 0 = 0 := by
  cases message with
  | protocolResult d tagId messageId payload => simp [emitted,Message.eofOf]
  | eofResult d tagId messagesSent =>
      cases messagesSent with
      | zero =>
          constructor
          · intro h c t he
            cases he
            simpa [emitted,Message.eofOf,Sender.announced,Sender.getClientMessagesSent] using h d
          · intro h c
            have hz := h d tagId rfl
            by_cases hd : d = c
            · subst hd
              simp [emitted,Message.eofOf,Sender.announced,Sender.getClientMessagesSent,hz]
            · simp [emitted,Message.eofOf,hd]
      | succ n =>
          apply iff_of_true
          · intro c
            by_cases hd : d = c <;> simp [emitted,Message.eofOf,hd,Sender.announced]
          · intro c t he
            cases he

theorem messagesSent_handle : (handle message s).messagesSent.getD c 0 = 0 ↔
    s.messagesSent.getD c 0 = 0 ∧ ∀ t i payload, message ≠ .protocolResult c t i payload := by
  cases message with
  | protocolResult d tagId messageId payload =>
      simp only [handle,Sender.sendAll,Sender.send,Dict.getD_set]
      by_cases hd : d = c
      · simp [hd]
      · simp [hd]
  | eofResult d tagId messagesSent =>
      simp [handle,Sender.sendSpecialResultEof,Sender.send]

theorem zeroFirst_cons : ZeroFirst (message :: messages) s ↔
    (∀ c tagId, message = .eofResult c tagId 0 → s.messagesSent.getD c 0 = 0) ∧
      ZeroFirst messages (handle message s) := by
  constructor
  · intro h
    refine ⟨?_,?_⟩
    · rintro c tagId rfl
      exact (h [] c tagId messages rfl).1
    · rintro pre c tagId post rfl
      obtain ⟨hz,hn⟩ := h (message :: pre) c tagId post rfl
      refine ⟨messagesSent_handle.mpr ⟨hz,?_⟩,?_⟩
      · rintro t i payload rfl
        exact hn t i payload List.mem_cons_self
      · exact fun t i payload hm => hn t i payload (List.mem_cons_of_mem _ hm)
  · rintro ⟨hfirst,hrest⟩ pre c tagId post he
    cases pre with
    | nil =>
        obtain ⟨rfl,-⟩ := List.cons.inj he
        exact ⟨hfirst c tagId rfl,fun _ _ _ => List.not_mem_nil⟩
    | cons m pre =>
        obtain ⟨rfl,hpost⟩ := List.cons.inj he
        obtain ⟨hz,hn⟩ := hrest pre c tagId post hpost
        obtain ⟨hs,hm⟩ := messagesSent_handle.mp hz
        refine ⟨hs,?_⟩
        intro t i payload hmem
        rcases List.mem_cons.mp hmem with he | hmem
        · exact hm t i payload he.symm
        · exact hn t i payload hmem

/-- Over any interleaving of results and ends the announced numbers reach their
clients if and only if no end that announces zero comes after a result of its
client, under whatever tag. -/
theorem result_count (messages : List Message) (s : Sender) :
    CountsKept messages s ↔ ZeroFirst messages s := by
  induction messages generalizing s with
  | nil =>
      apply iff_of_true
      · intro c
        exact (List.append_nil _).symm
      · rintro pre c tagId post he
        simp at he
  | cons message messages ih => rw [countsKept_cons,zeroFirst_cons,emitted_eq_iff,ih]

/-- A result of the first tag, then the end of the second, which has none. -/
def secondEmpty : List Message := [.protocolResult 5 1 9 ["a"],.eofResult 5 2 0]

/-- The listener announces its own count instead, which is one. -/
theorem secondEmpty_counted :
    delivered 5 (listen secondEmpty ⟨.empty,[]⟩) = [.result 1 9 "a",.resultEof 2 1] ∧
      ¬ CountsKept secondEmpty ⟨.empty,[]⟩ := by
  refine ⟨by decide,?_⟩
  intro h
  exact absurd (h 5) (by decide)

end FlightsOptimizer.ResultsListener
