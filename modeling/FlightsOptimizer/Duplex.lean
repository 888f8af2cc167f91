import Mathlib.Logic.Relation
import FlightsOptimizer.Exchange
import FlightsOptimizer.ProtocolConnection

/-!
# A client and the server over one connection at a time

The client uploads its files and gets its results over the same socket, with a
process on its side that reads what the server writes and two on the server's
side, the handler and the results uploader, of which only the handler reads.
Uploads are answered by ACKs and results by result ACKs. The server can crash at
any time, and with it goes everything that was written to it and not read. Here
nothing else breaks a connection, and the client comes back only when its reader
has found the connection closed. An uploader that is stopped in good order
deletes the queue of the client, and is not modelled.
-/
namespace FlightsOptimizer.Duplex
open ProtocolConnection
open Exchange (Lane Place lane answeredOnly requestedOnly)

/-- Where the main process of the client is: before its next write, in
`__receive_ack`, in `__reconnect`, or out with an exception. -/
inductive Main
  | running
  | waiting
  | reconnecting
  | raised
  deriving DecidableEq

/-- The process that reads the socket of the client, and the result that it has
put into the results queue and not acknowledged yet. -/
inductive Reader
  | listening
  | acking (result : Message)
  | ended
  deriving DecidableEq

/-- The loop of `handle_client`, and the message that it has handled and not
acknowledged yet. -/
inductive Handler
  | listening
  | acking (message : Message)
  | down
  deriving DecidableEq

/-- The results uploader: before its next result, in `ack_results_queue.get`, or
before the ack of the result to the broker. -/
inductive Uploader
  | idle
  | waiting
  | answered
  deriving DecidableEq

/-- `published` is all the results that were put into the queue of the client,
`queue` those that are still in it and `confirmed` those that the broker has
dropped. -/
structure State where
  client : Client
  main : Main
  reader : Reader
  ackQueue : List (Option Message)
  resultsQueue : List Message
  up : List Message
  down : List Message
  handler : Handler
  uploader : Uploader
  ackResultsQueue : List Message
  published : List Message
  queue : List Message
  confirmed : List Message

/-- A client that has connected. -/
def connected (sendQueue : List Message) : State :=
  ⟨ProtocolConnection.start sendQueue,.running,.listening,[],[],[],[],.listening,.idle,[],[],[],[]⟩

def isResult : Message → Bool
  | .result _ _ _ | .resultEof _ _ => true
  | _ => false

def isResultAck : Message → Bool
  | .resultAck => true
  | _ => false

/-- `__run` up to the write of its next message. -/
def write (c : Client) : Option (Message × Client) :=
  let put (again : Bool) (message : Message) (c : Client) :=
    let message := stamp c.possibleDuplicates message
    some (message,{c with currentMessage := some message, sent := c.sent ++ [(again,message)]})
  if c.sendingMessages then
    match c.currentMessage with
    | some message => put true message c
    | none =>
        match c.sendQueue with
        | [] => none
        | message :: sendQueue => put false message {c with sendQueue := sendQueue}
  else none

/-- What is written to a server that is down is lost. -/
def send (message : Message) (s : State) : State :=
  {s with up := if s.handler = .down then s.up else s.up ++ [message]}

/-- `__run` finds a current message, which becomes a possible duplicate. -/
def resend (c : Client) : Client × Main :=
  match c.sendingMessages, c.currentMessage with
  | true, some message =>
      match reconnect message c with
      | some c => (c,.running)
      | none => (c,.raised)
  | _, _ => (c,.running)

theorem resend_of_current {c : Client} {m : Message} (hs : c.sendingMessages = true)
    (hc : c.currentMessage = some m) : resend c =
      match reconnect m c with
      | some c => (c,.running)
      | none => (c,.raised) := by
  unfold resend
  rw [hs,hc]

theorem resend_of_sent {c : Client} (hs : c.sendingMessages = false) :
    resend c = (c,.running) := by
  unfold resend
  rw [hs]

/-- `__receive_ack`, and what its callers do when it raises. -/
def receiveItem (item : Option Message) (c : Client) : Client × Main :=
  match item with
  | none => (c,.reconnecting)
  | some (.ack _ _) =>
      match c.currentMessage with
      | some message => (receiveAck message c,.running)
      -- `None` has no `message_type`, and the exception is handled as a lost connection
      | none => (c,.reconnecting)
  | some _ => resend c

/-- The main process goes on from here. -/
def goOn (next : Client × Main) (s : State) : State := {s with client := next.1, main := next.2}

/-- `__reconnect` once the server answers, and `__run` up to the possible
duplicate. -/
def connect (s : State) : State :=
  goOn (resend s.client) {s with
    ackQueue := [], up := [], down := [], reader := .listening, handler := .listening,
    uploader := .idle, ackResultsQueue := []}

/-- One message that the reader reads. -/
def read (message : Message) (s : State) : State :=
  if isResult message then
    {s with resultsQueue := s.resultsQueue ++ [message], reader := .acking message}
  else {s with ackQueue := s.ackQueue ++ [some message]}

theorem zero_fits : 0 < 256^8 := by decide

/-- `send_ack`. Only the messages of a file have a protocol type. -/
def ackFor : Message → Option Message
  | .clientProtocol messageId protocolType _ => some (.ack messageId protocolType)
  | .eof protocolType _ _ => some (.ack ⟨0,zero_fits⟩ protocolType)
  | _ => none

/-- One message that the handler reads. -/
def serve (message : Message) (s : State) : State :=
  if isResultAck message then {s with ackResultsQueue := s.ackResultsQueue ++ [message]}
  else {s with client := handle message s.client, handler := .acking message}

/-- The step of one process, a result that is published, or a crash of the
server. -/
inductive Step : State → State → Prop
  | write {s : State} {message : Message} {c : Client} : s.main = .running →
      write s.client = some (message,c) →
      Step s {send message s with client := c, main := .waiting}
  | writeRaises {s : State} {message : Message} {c : Client} : s.main = .running →
      write s.client = some (message,c) → s.handler = .down →
      Step s {s with client := c, main := .reconnecting}
  | receiveItem {s : State} {item : Option Message} {items : List (Option Message)} :
      s.main = .waiting ∨ s.main = .running ∧ s.client.sendingMessages = false →
      s.ackQueue = item :: items →
      Step s (goOn (receiveItem item s.client) {s with ackQueue := items})
  | connect {s : State} : s.main = .reconnecting → s.reader = .ended → Step s (connect s)
  | read {s : State} {message : Message} {rest : List Message} : s.reader = .listening →
      s.down = message :: rest → Step s (read message {s with down := rest})
  | ackResult {s : State} {result : Message} : s.reader = .acking result →
      Step s {send .resultAck s with reader := .listening}
  | readerEnds {s : State} : s.handler = .down → s.reader ≠ .ended →
      Step s {s with reader := .ended, down := [], ackQueue := s.ackQueue ++ [none]}
  | serve {s : State} {message : Message} {rest : List Message} : s.handler = .listening →
      s.up = message :: rest → Step s (serve message {s with up := rest})
  | sendAck {s : State} {message ack : Message} : s.handler = .acking message →
      ackFor message = some ack →
      Step s {s with handler := .listening, down := s.down ++ [ack]}
  | upload {s : State} {result : Message} {rest : List Message} : s.handler ≠ .down →
      s.uploader = .idle → s.queue = result :: rest →
      Step s {s with uploader := .waiting, down := s.down ++ [result]}
  | takeAck {s : State} {ack : Message} {acks : List Message} : s.uploader = .waiting →
      s.ackResultsQueue = ack :: acks →
      Step s {s with uploader := .answered, ackResultsQueue := acks}
  | confirm {s : State} {result : Message} {rest : List Message} : s.uploader = .answered →
      s.queue = result :: rest →
      Step s {s with uploader := .idle, queue := rest, confirmed := s.confirmed ++ [result]}
  | publish {s : State} (result : Message) : isResult result = true →
      Step s {s with published := s.published ++ [result], queue := s.queue ++ [result]}
  | goDown {s : State} :
      Step s {s with handler := .down, uploader := .idle, up := [], ackResultsQueue := []}

/-- The states that a client with these messages to send and its server can
come to. -/
def Reaches (sendQueue : List Message) : State → Prop :=
  Relation.ReflTransGen Step (connected sendQueue)

/-- A server that is down has nothing to do, the reader ends when the server is
down, and the disconnection is the last that the reader reports. -/
structure Links (s : State) : Prop where
  up : s.handler = .down → s.up = []
  noted : s.handler = .down → s.uploader = .idle ∧ s.ackResultsQueue = []
  ended : s.reader = .ended → s.handler = .down ∧ s.down = []
  items : ∃ items : List Message, s.ackQueue = items.map some ∨
    s.ackQueue = items.map some ++ [none] ∧ s.reader = .ended
  results : ∀ result ∈ s.queue, isResult result = true

variable {s s' : State} {sendQueue : List Message}

theorem links_connected (sendQueue : List Message) : Links (connected sendQueue) where
  up := nofun
  noted := nofun
  ended := nofun
  items := ⟨[],Or.inl rfl⟩
  results := fun _ h => absurd h List.not_mem_nil

theorem Links.receiveItem (h : Links s) {item : Option Message} {items : List (Option Message)}
    (ha : s.ackQueue = item :: items) :
    Links (goOn (Duplex.receiveItem item s.client) {s with ackQueue := items}) := by
  have hitems : ∃ l : List Message, items = l.map some ∨
      items = l.map some ++ [none] ∧ s.reader = .ended := by
    obtain ⟨l,hl | ⟨hl,he⟩⟩ := h.items
    · rw [ha] at hl
      cases l with
      | nil => cases hl
      | cons m l => exact ⟨l,Or.inl (List.cons.inj hl).2⟩
    · rw [ha] at hl
      cases l with
      | nil => exact ⟨[],Or.inl (List.cons.inj hl).2⟩
      | cons m l => exact ⟨l,Or.inr ⟨(List.cons.inj hl).2,he⟩⟩
  exact ⟨h.up,h.noted,h.ended,hitems,h.results⟩

theorem Links.connect (h : Links s) : Links (connect s) :=
  ⟨nofun,nofun,nofun,⟨[],Or.inl rfl⟩,h.results⟩

theorem Links.step (h : Links s) (hs : Step s s') : Links s' := by
  cases hs with
  | write hmain hw =>
      refine ⟨fun hd => ?_,h.noted,h.ended,h.items,h.results⟩
      exact (if_pos hd).trans (h.up hd)
  | writeRaises hmain hw hd => exact ⟨h.up,h.noted,h.ended,h.items,h.results⟩
  | receiveItem hmain ha => exact h.receiveItem ha
  | connect hmain he => exact h.connect
  | @read m rest hl hd =>
      have hne : s.reader ≠ .ended := by rw [hl]; exact nofun
      obtain ⟨l,hl' | ⟨_,he⟩⟩ := h.items
      · unfold read
        split_ifs
        · exact ⟨h.up,h.noted,nofun,⟨l,Or.inl hl'⟩,h.results⟩
        · refine ⟨h.up,h.noted,fun he => absurd he hne,⟨l ++ [m],Or.inl ?_⟩,h.results⟩
          rw [List.map_append,← hl']
          rfl
      · exact absurd he hne
  | ackResult ha =>
      have hne : s.reader ≠ .ended := by rw [ha]; exact nofun
      obtain ⟨l,hl | ⟨_,he⟩⟩ := h.items
      · exact ⟨fun hd => (if_pos hd).trans (h.up hd),h.noted,nofun,⟨l,Or.inl hl⟩,h.results⟩
      · exact absurd he hne
  | readerEnds hd hne =>
      obtain ⟨l,hl | ⟨_,he⟩⟩ := h.items
      · exact ⟨h.up,h.noted,fun _ => ⟨hd,rfl⟩,⟨l,Or.inr ⟨by rw [hl],rfl⟩⟩,h.results⟩
      · exact absurd he hne
  | serve hl hu =>
      have hne : s.handler ≠ .down := by rw [hl]; exact nofun
      unfold serve
      split_ifs
      · exact ⟨fun hd => absurd hd hne,fun hd => absurd hd hne,h.ended,h.items,h.results⟩
      · exact ⟨nofun,nofun,fun he => absurd (h.ended he).1 hne,h.items,h.results⟩
  | sendAck ha hack =>
      have hne : s.handler ≠ .down := by rw [ha]; exact nofun
      exact ⟨nofun,nofun,fun he => absurd (h.ended he).1 hne,h.items,h.results⟩
  | upload hne hi hq =>
      exact ⟨h.up,fun hd => absurd hd hne,fun he => absurd (h.ended he).1 hne,h.items,h.results⟩
  | takeAck hw hr =>
      have hne : s.handler ≠ .down := by
        intro hd
        rw [(h.noted hd).1] at hw
        cases hw
      exact ⟨h.up,fun hd => absurd hd hne,h.ended,h.items,h.results⟩
  | confirm ha hq =>
      refine ⟨h.up,fun hd => ⟨rfl,(h.noted hd).2⟩,h.ended,h.items,fun r hr => h.results r ?_⟩
      rw [hq]
      exact List.mem_cons_of_mem _ hr
  | publish r hr =>
      refine ⟨h.up,h.noted,h.ended,h.items,fun r' hr' => ?_⟩
      rcases List.mem_append.mp hr' with hold | hnew
      · exact h.results r' hold
      · rw [List.mem_singleton.mp hnew]
        exact hr
  | goDown =>
      exact ⟨fun _ => rfl,fun _ => ⟨rfl,rfl⟩,fun he => ⟨rfl,(h.ended he).2⟩,h.items,h.results⟩

end FlightsOptimizer.Duplex
