import FlightsOptimizer.DuplexUploads

/-!
# Connections that outlive a reconnection

`__reconnect` neither stops the Receiver of the connection before nor waits for
it, and the server has a handler for each connection, so that several connections
can be at work. All Receivers put what they read into the one `ack_queue`, and
the client looks neither at the id of an ACK nor at where it comes from.
-/
namespace FlightsOptimizer.Reconnection
open ProtocolConnection
open Duplex (Main Reader Handler Uploader Wrote isResult isResultAck ackFor write resend receiveItem
  goOn wrote_of_write)
open Exchange (Lane Place lane answeredOnly)

/-- The Receiver of a connection, what is written and not read in its two
directions, and its handler and results uploader. -/
structure Link where
  reader : Reader
  up : List Message
  down : List Message
  handler : Handler
  uploader : Uploader
  ackResultsQueue : List Message

def Link.fresh : Link := ⟨.listening,[],[],.listening,.idle,[]⟩

/-- What is written to a server that is down is lost. -/
def Link.send (message : Message) (l : Link) : Link :=
  {l with up := if l.handler = .down then l.up else l.up ++ [message]}

/-- What the connections share. An item of the `ack_queue` stands there with
whether the Receiver of the newest connection has put it. -/
structure Shared where
  client : Client
  main : Main
  ackQueue : List (Bool × Option Message)
  resultsQueue : List Message

/-- The newest connection and those before it. -/
structure State extends Shared where
  link : Link
  old : List Link

def connected (sendQueue : List Message) : State :=
  ⟨⟨start sendQueue,.running,[],[]⟩,.fresh,[]⟩

/-- What a step does, as far as it matters which connection does it. -/
inductive Event
  | take (own : Bool) (item : Option Message)
  | serve (own : Bool) (message : Message)
  | connect
  | other

/-- The step of one process of a connection. The client's end can break at any
time, and so can the server's. Which results an uploader gets from the broker is
left open. -/
inductive LinkStep (own : Bool) (s : Shared) (l : Link) : Event → Shared → Link → Prop
  | read {message : Message} {rest : List Message} : l.reader = .listening →
      l.down = message :: rest → isResult message = false →
      LinkStep own s l .other {s with ackQueue := s.ackQueue ++ [(own,some message)]}
        {l with down := rest}
  | readResult {result : Message} {rest : List Message} : l.reader = .listening →
      l.down = result :: rest → isResult result = true →
      LinkStep own s l .other {s with resultsQueue := s.resultsQueue ++ [result]}
        {l with down := rest, reader := .acking result}
  | ackResult {result : Message} : l.reader = .acking result →
      LinkStep own s l .other s {l.send .resultAck with reader := .listening}
  | readerEnds : l.reader ≠ .ended →
      LinkStep own s l .other {s with ackQueue := s.ackQueue ++ [(own,none)]}
        {l with reader := .ended, down := []}
  | serve {message : Message} {rest : List Message} : l.handler = .listening →
      l.up = message :: rest → isResultAck message = false →
      LinkStep own s l (.serve own message) {s with client := handle message s.client}
        {l with up := rest, handler := .acking message}
  | noteAck {message : Message} {rest : List Message} : l.handler = .listening →
      l.up = message :: rest → isResultAck message = true →
      LinkStep own s l .other s
        {l with up := rest, ackResultsQueue := l.ackResultsQueue ++ [message]}
  | sendAck {message ack : Message} : l.handler = .acking message → ackFor message = some ack →
      LinkStep own s l .other s {l with handler := .listening, down := l.down ++ [ack]}
  | upload {result : Message} : l.handler ≠ .down → l.uploader = .idle → isResult result = true →
      LinkStep own s l .other s {l with uploader := .waiting, down := l.down ++ [result]}
  | takeAck {ack : Message} {acks : List Message} : l.uploader = .waiting →
      l.ackResultsQueue = ack :: acks →
      LinkStep own s l .other s {l with uploader := .answered, ackResultsQueue := acks}
  | confirm : l.uploader = .answered → LinkStep own s l .other s {l with uploader := .idle}
  | goDown : LinkStep own s l .other s
      {l with handler := .down, uploader := .idle, up := [], ackResultsQueue := []}

/-- `__reconnect` once the server answers: the Receiver, the handler and the
uploader of the connection before go on. -/
def connect (s : State) : State :=
  ⟨⟨(resend s.client).1,(resend s.client).2,[],s.resultsQueue⟩,.fresh,s.link :: s.old⟩

inductive Step : State → Event → State → Prop
  | write {s : State} {message : Message} {c : Client} : s.main = .running →
      write s.client = some (message,c) →
      Step s .other {s with client := c, main := .waiting, link := s.link.send message}
  | writeRaises {s : State} {message : Message} {c : Client} : s.main = .running →
      write s.client = some (message,c) → Step s .other {s with client := c, main := .reconnecting}
  | take {s : State} {own : Bool} {item : Option Message} {items : List (Bool × Option Message)} :
      s.main = .waiting ∨ s.main = .running ∧ s.client.sendingMessages = false →
      s.ackQueue = (own,item) :: items →
      Step s (.take own item) {s with
        client := (receiveItem item s.client).1, main := (receiveItem item s.client).2,
        ackQueue := items}
  | connect {s : State} : s.main = .reconnecting → Step s .connect (connect s)
  | newest {s : State} {e : Event} {t : Shared} {l : Link} :
      LinkStep true s.toShared s.link e t l → Step s e ⟨t,l,s.old⟩
  | older {s : State} {e : Event} {before after : List Link} {l l' : Link} {t : Shared} :
      s.old = before ++ l :: after → LinkStep false s.toShared l e t l' →
      Step s e ⟨t,s.link,before ++ l' :: after⟩

/-- The states of the runs whose steps all meet the condition. -/
inductive Reaches (condition : State → Event → Prop) (sendQueue : List Message) : State → Prop
  | connected : Reaches condition sendQueue (connected sendQueue)
  | step {s s' : State} {e : Event} : Reaches condition sendQueue s → Step s e s' → condition s e →
      Reaches condition sendQueue s'

/-- Every ACK that the client takes comes from the newest connection. -/
def OwnAck : Event → Prop
  | .take own (some _) => own = true
  | _ => True

/-- The handler of an older connection handles a message only as long as no
later message has been handled: it is the one that the client has not got the
ACK of, or the last that was handled. -/
def NoneLater (s : State) : Event → Prop
  | .serve false message =>
      (∃ current, s.client.currentMessage = some current ∧ strip current = strip message) ∨
        (s.client.handled.map strip).getLast? = some (strip message)
  | _ => True

/-- The client never connects anew with an EOF that is not acknowledged. -/
def EofAcked (s : State) : Event → Prop
  | .connect => ∀ current, s.client.currentMessage = some current → isEof current = false
  | _ => True

/-- No connection does harm after the client has left it. -/
def Orderly (s : State) (e : Event) : Prop := OwnAck e ∧ NoneLater s e

/-- The server has handled what the client has done with, in the order of its
queue and each message at least once, and the next message any number of
times. Each end carries what was sent again before it, and a client that sends
no more has nothing left. -/
structure InOrder (sendQueue : List Message) (c : Client) : Prop where
  handled : ∃ done once n, sendQueue = done ++ (remaining c).map strip ∧ Repeated done once ∧
    c.handled.map strip =
      once ++ ((remaining c).take 1).flatMap fun m => List.replicate n (strip m)
  carried : Carried c
  nothingLeft : c.sendingMessages = false → remaining c = []

variable {s s' : State} {e : Event} {l l' : Link} {t : Shared} {own : Bool}
  {condition condition' : State → Event → Prop} {sendQueue : List Message} {c c' : Client}
  {m : Message} {n : ℕ}

theorem Reaches.mono (h : Reaches condition sendQueue s)
    (himp : ∀ s e, condition s e → condition' s e) : Reaches condition' sendQueue s := by
  induction h with
  | connected => exact .connected
  | step _ hs hc ih => exact ih.step hs (himp _ _ hc)

theorem strip_stamp (duplicates : List (Word 8)) (m : Message) :
    strip (stamp duplicates m) = strip m := by
  cases m <;> rfl

theorem isEof_strip (m : Message) : isEof (strip m) = isEof m := by
  cases m <;> rfl

theorem strip_of_mem (hq : Merged sendQueue) (hm : m ∈ sendQueue) : strip m = m := by
  rcases hq.kinds hm with ⟨i,t,content,rfl⟩ | ⟨t,n,rfl⟩ <;> rfl

/-- The last of the list that is repeated once more. -/
theorem repeated_again {α : Type} {as bs : List α} {a : α} (h : Repeated as bs)
    (hlast : bs.getLast? = some a) : Repeated as (bs ++ [a]) := by
  induction h with
  | nil => cases hlast
  | @cons b n as bs h ih =>
      rcases bs with _ | ⟨b',bs⟩
      · rw [List.append_nil,List.replicate_succ',List.getLast?_concat] at hlast
        obtain rfl := Option.some.inj hlast
        have htwice := Repeated.cons b (n+1) h
        rw [List.append_nil,List.replicate_succ'] at htwice
        rwa [List.append_nil]
      · rw [List.getLast?_append_of_ne_nil _ (List.cons_ne_nil b' bs)] at hlast
        rw [List.append_assoc]
        exact .cons b n (ih hlast)

/-- What the client keeps while its messages come and go: `n` copies of the
next message are handled. -/
structure Kept (sendQueue : List Message) (n : ℕ) (c : Client) : Prop where
  handled : ∃ done once, sendQueue = done ++ (remaining c).map strip ∧ Repeated done once ∧
    c.eofsReceived = done.countP isEof ∧
    c.handled.map strip =
      once ++ ((remaining c).take 1).flatMap fun m => List.replicate n (strip m)
  sending : c.sendingMessages = false ↔ c.eofsReceived = 2
  resent : ∀ i t content, (true,.clientProtocol i t content) ∈ c.sent → i ∈ c.possibleDuplicates
  carried : Carried c

/-- A message that is there to be sent again is already a possible duplicate. -/
def Noted (c : Client) : Prop := ∀ m, c.currentMessage = some m →
  ∃ i t content, m = .clientProtocol i t content ∧ i ∈ c.possibleDuplicates

theorem kept_start (hq : Merged sendQueue) : Kept sendQueue 0 (start sendQueue) where
  handled := by
    refine ⟨[],[],?_,.nil,rfl,?_⟩
    · exact ((List.map_congr_left fun m hm => strip_of_mem hq hm).trans (List.map_id _)).symm
    · change [] = [] ++ _
      cases sendQueue <;> rfl
  sending := by simp [start]
  resent := fun i t content h => absurd h List.not_mem_nil
  carried := by
    intro pre again t n dups post h
    simp [start] at h

theorem remaining_of_current (hc : c.currentMessage = some m) :
    remaining c = m :: c.sendQueue := by
  rw [remaining,hc]
  rfl

/-- Only messages of the files are left. -/
theorem Kept.files (h : Kept sendQueue n c) (hq : Merged sendQueue) : Duplex.Files c := by
  obtain ⟨done,_,hqueue,_⟩ := h.handled
  intro m hm
  have hmem : strip m ∈ sendQueue := by
    rw [hqueue]
    exact List.mem_append_right done (List.mem_map_of_mem hm)
  have hfile := hq.files _ hmem
  rwa [strip,Duplex.fileOf_stamp] at hfile

theorem Kept.nothingLeft (h : Kept sendQueue n c) (hq : Merged sendQueue)
    (hs : c.sendingMessages = false) : remaining c = [] := by
  obtain ⟨done,_,hqueue,_,heofs,_⟩ := h.handled
  rw [hqueue] at hq
  have hrest := hq.rest_nil (heofs.symm.trans (h.sending.mp hs))
  exact List.map_eq_nil_iff.mp hrest

theorem Kept.inOrder (h : Kept sendQueue n c) (hq : Merged sendQueue) : InOrder sendQueue c := by
  obtain ⟨done,once,hqueue,hrep,_,hhandled⟩ := h.handled
  exact ⟨⟨done,once,n,hqueue,hrep,hhandled⟩,h.carried,h.nothingLeft hq⟩

theorem Kept.wrote (h : Kept sendQueue n c) (hnoted : Noted c) (hw : Wrote c m c') :
    Kept sendQueue n c' := by
  obtain ⟨first,rest,again,hrem,hm,hrest,hsent,hagain⟩ := hw.left
  obtain ⟨done,once,hqueue,hrep,heofs,hhandled⟩ := h.handled
  have hrem' : remaining c' = m :: rest := by rw [remaining_of_current hw.current,hrest]
  have hstrip : strip m = strip first := by rw [hm,strip_stamp]
  refine ⟨⟨done,once,?_,hrep,hw.eofs.trans heofs,?_⟩,?_,?_,?_⟩
  · rw [hqueue,hrem,hrem',List.map_cons,List.map_cons,hstrip]
  · rw [hw.handled,hhandled,hrem,hrem']
    change once ++ (List.replicate n (strip first) ++ []) = once ++ (List.replicate n (strip m) ++ [])
    rw [hstrip]
  · rw [hw.sending',hw.eofs,← h.sending,hw.sending]
  · intro i t content hi
    rw [hsent] at hi
    rw [hw.duplicates]
    rcases List.mem_append.mp hi with hold | hnew
    · exact h.resent i t content hold
    · obtain ⟨htrue,hmsg⟩ := Prod.mk.inj (List.mem_singleton.mp hnew)
      obtain ⟨j,t',content',rfl,hj⟩ := hnoted first (hagain htrue.symm)
      rw [hm] at hmsg
      cases hmsg
      exact hj
  · refine h.carried.write (m := m) ?_ hsent
    intro t k dups he i content hi
    rw [he] at hm
    cases first with
    | eof t' k' dups' =>
        cases hm
        exact h.resent i t content hi
    | _ => cases hm

/-- One more copy of the message that waits for its ACK. -/
theorem Kept.handled_current (h : Kept sendQueue n c) {current : Message}
    (hc : c.currentMessage = some current) (hm : strip current = strip m) :
    Kept sendQueue (n+1) (handle m c) := by
  obtain ⟨done,once,hqueue,hrep,heofs,hhandled⟩ := h.handled
  refine ⟨⟨done,once,hqueue,hrep,heofs,?_⟩,h.sending,h.resent,h.carried⟩
  have hrem : remaining (handle m c) = current :: c.sendQueue := remaining_of_current hc
  rw [hrem]
  rw [remaining_of_current hc] at hhandled
  change (c.handled ++ [m]).map strip = once ++ (List.replicate (n+1) (strip current) ++ [])
  rw [List.map_append,hhandled]
  change once ++ (List.replicate n (strip current) ++ []) ++ [strip m] = _
  rw [← hm]
  simp [List.replicate_succ']

/-- One more copy of the last message that was handled. -/
theorem Kept.handled_last (h : Kept sendQueue n c)
    (hm : (c.handled.map strip).getLast? = some (strip m)) :
    ∃ n', n ≤ n' ∧ Kept sendQueue n' (handle m c) := by
  obtain ⟨done,once,hqueue,hrep,heofs,hhandled⟩ := h.handled
  have hmore : (handle m c).handled.map strip = c.handled.map strip ++ [strip m] := by
    change (c.handled ++ [m]).map strip = _
    rw [List.map_append]
    rfl
  rw [hhandled] at hm
  rcases hn : ((remaining c).take 1).flatMap fun m => List.replicate n (strip m) with _ | ⟨a,as⟩
  · -- the last message is one that the client has done with
    rw [hn,List.append_nil] at hm hhandled
    refine ⟨n,le_rfl,⟨done,once ++ [strip m],hqueue,repeated_again hrep hm,heofs,?_⟩,h.sending,
      h.resent,h.carried⟩
    change _ = once ++ [strip m] ++ ((remaining c).take 1).flatMap _
    rw [hmore,hhandled,hn,List.append_nil]
  · rcases hrem : remaining c with _ | ⟨first,rest⟩
    · rw [hrem] at hn
      cases hn
    · have hcopies : (((remaining c).take 1).flatMap fun m => List.replicate n (strip m)) =
          List.replicate n (strip first) := by
        rw [hrem]
        exact List.append_nil _
      have hfirst : strip m = strip first := by
        rw [hcopies] at hm hn
        rw [hn] at hm
        rw [List.getLast?_append_of_ne_nil _ (List.cons_ne_nil a as),← hn] at hm
        exact List.eq_of_mem_replicate (List.mem_of_getLast? hm)
      refine ⟨n+1,n.le_succ,⟨done,once,hqueue,hrep,heofs,?_⟩,h.sending,h.resent,h.carried⟩
      have hrem' : remaining (handle m c) = first :: rest := hrem
      rw [hmore,hhandled,hcopies,hrem',hfirst]
      simp [List.replicate_succ']

/-- The ACK of a message that is handled. -/
theorem Kept.acked (h : Kept sendQueue n c) (hc : c.currentMessage = some m) (hn : 0 < n)
    (hs : c.sendingMessages = true) : Kept sendQueue 0 (receiveAck m c) := by
  obtain ⟨done,once,hqueue,hrep,heofs,hhandled⟩ := h.handled
  rw [remaining_of_current hc] at hqueue hhandled
  obtain ⟨k,rfl⟩ := Nat.exists_eq_succ_of_ne_zero hn.ne'
  have hrem : remaining (receiveAck m c) = c.sendQueue := rfl
  refine ⟨⟨done ++ [strip m],once ++ List.replicate (k+1) (strip m),?_,?_,?_,?_⟩,?_,h.resent,
    h.carried⟩
  · rw [hqueue,hrem,List.append_assoc]
    rfl
  · exact hrep.append (by simpa using Repeated.cons (strip m) k Repeated.nil)
  · change (if isEof m then c.eofsReceived+1 else c.eofsReceived) = _
    rw [List.countP_append,← heofs,List.countP_singleton,isEof_strip]
    split_ifs <;> rfl
  · change c.handled.map strip = _ ++ (c.sendQueue.take 1).flatMap _
    rw [hhandled]
    simp
  · have hcheck : ∀ k, (if k = 2 then false else c.sendingMessages) = false ↔ k = 2 := by
      intro k
      rw [hs]
      split_ifs with htwo <;> simp [htwo]
    exact hcheck _

theorem Kept.reconnect (h : Kept sendQueue n c) (hr : reconnect m c = some c') :
    Kept sendQueue n c' := by
  obtain ⟨i,rfl⟩ := Duplex.reconnect_eq_some hr
  exact ⟨h.handled,h.sending,
    fun j t content hj => List.mem_append_left _ (h.resent j t content hj),h.carried⟩

/-- The ACKs of the newest connection. -/
def ownAcks (items : List (Bool × Option Message)) : List Message :=
  items.filterMap fun item => if item.1 then item.2 else none

/-- The messages of the files on the newest connection, and their ACKs. -/
def uploads (s : State) : Lane Message Message where
  wire := s.link.up.filter fun m => !isResultAck m
  held := match s.link.handler with
    | .acking m => [m]
    | _ => []
  answers := s.link.down.filter fun m => !isResult m
  noted := ownAcks s.ackQueue

/-- What is under way on the newest connection is the current message of the
client, and from the handler on a copy of it is handled. -/
structure Sound (sendQueue : List Message) (s : State) (at' : Option (Message × Place))
    (n : ℕ) : Prop where
  lane : uploads s = lane ackFor at'
  kept : Kept sendQueue n s.client
  running : s.main = .running → at' = none ∧ Noted s.client
  current : ∀ m place, at' = some (m,place) → s.client.currentMessage = some m ∧
    s.client.sendingMessages = true ∧ (place ≠ .unread → 0 < n)

theorem sound_connected (hq : Merged sendQueue) : Sound sendQueue (connected sendQueue) none 0 :=
  ⟨rfl,kept_start hq,fun _ => ⟨rfl,nofun⟩,nofun⟩

variable {at' at'' : Option (Message × Place)}

/-- A step that the client has no part in brings its message on, or loses it. -/
theorem Sound.moved (h : Sound sendQueue s at' n) (hlane : uploads s' = Exchange.lane ackFor at'')
    (hclient : s'.client = s.client) (hmain : s'.main = s.main)
    (hplace : ∀ m place, at'' = some (m,place) →
      ∃ place', at' = some (m,place') ∧ (place ≠ .unread → place' ≠ .unread)) :
    Sound sendQueue s' at'' n := by
  refine ⟨hlane,by rw [hclient]; exact h.kept,fun hrun => ?_,fun m place he => ?_⟩
  · obtain ⟨hnone,hnoted⟩ := h.running (hmain.symm.trans hrun)
    refine ⟨?_,by rw [hclient]; exact hnoted⟩
    rcases at'' with _ | ⟨m,place⟩
    · rfl
    · obtain ⟨place',hsome,_⟩ := hplace m place rfl
      rw [hnone] at hsome
      cases hsome
  · obtain ⟨place',hsome,hunread⟩ := hplace m place he
    obtain ⟨hcur,hsend,hpos⟩ := h.current m place' hsome
    rw [hclient]
    exact ⟨hcur,hsend,fun hp => hpos (hunread hp)⟩

theorem Sound.unmoved (h : Sound sendQueue s at' n) (hlane : uploads s' = uploads s)
    (hclient : s'.client = s.client) (hmain : s'.main = s.main) : Sound sendQueue s' at' n :=
  h.moved (hlane.trans h.lane) hclient hmain fun _ place he => ⟨place,he,id⟩

theorem ownAcks_append (items items' : List (Bool × Option Message)) :
    ownAcks (items ++ items') = ownAcks items ++ ownAcks items' := List.filterMap_append ..

theorem filter_send (m : Message) (l : Link) (p : Message → Bool) (hm : p m = false) :
    (l.send m).up.filter p = l.up.filter p := by
  unfold Link.send
  dsimp only
  split_ifs
  · rfl
  · rw [List.filter_append,List.filter_singleton,hm]
    exact List.append_nil _

/-- The Receiver puts the ACK into the `ack_queue`. -/
theorem Sound.read (h : Sound sendQueue s at' n) {rest : List Message}
    (hd : s.link.down = m :: rest) (hm : isResult m = false) : ∃ at'', Sound sendQueue
      ⟨{s.toShared with ackQueue := s.ackQueue ++ [(true,some m)]},{s.link with down := rest},
        s.old⟩ at'' n := by
  obtain ⟨hwire,hheld,hanswers,hnoted⟩ := Lane.ext_iff.mp h.lane
  have hcons : (Exchange.lane ackFor at').answers = m :: rest.filter fun m => !isResult m := by
    rw [← hanswers]
    change s.link.down.filter (fun m => !isResult m) = _
    rw [hd,List.filter_cons_of_pos (by rw [hm]; rfl)]
  obtain ⟨m',rfl,hack,hrest⟩ := Exchange.answers_eq_cons hcons
  refine ⟨some (m',.noted),h.moved (Lane.ext hwire hheld hrest ?_) rfl rfl ?_⟩
  · change ownAcks (s.ackQueue ++ [(true,some m)]) = (ackFor m').toList
    have hempty : ownAcks s.ackQueue = [] := hnoted
    rw [ownAcks_append,hempty,hack]
    rfl
  · intro m place he
    cases he
    exact ⟨.answered,rfl,fun _ => nofun⟩

/-- An ACK that was not read is lost with the Receiver. -/
theorem Sound.readerEnds (h : Sound sendQueue s at' n) : ∃ at'', Sound sendQueue
    ⟨{s.toShared with ackQueue := s.ackQueue ++ [(true,none)]},
      {s.link with reader := .ended, down := []},s.old⟩ at'' n := by
  obtain ⟨hwire,hheld,-,hnoted⟩ := Lane.ext_iff.mp h.lane
  have hqueue : ownAcks (s.ackQueue ++ [(true,none)]) = ownAcks s.ackQueue := by
    rw [ownAcks_append]
    exact List.append_nil _
  rcases at' with _ | ⟨m,place⟩
  · exact ⟨none,h.moved (Lane.ext hwire hheld rfl (hqueue.trans hnoted)) rfl rfl nofun⟩
  · cases place with
    | answered =>
        exact ⟨none,h.moved (Lane.ext hwire hheld rfl (hqueue.trans hnoted)) rfl rfl nofun⟩
    | _ =>
        exact ⟨_,h.moved (Lane.ext hwire hheld rfl (hqueue.trans hnoted)) rfl rfl
          fun _ place he => ⟨place,he,id⟩⟩

/-- The handler handles the current message of the client. -/
theorem Sound.serve (h : Sound sendQueue s at' n) {rest : List Message}
    (hu : s.link.up = m :: rest) (hm : isResultAck m = false) : ∃ at'', Sound sendQueue
      ⟨{s.toShared with client := handle m s.client},
        {s.link with up := rest, handler := .acking m},s.old⟩ at'' (n+1) := by
  obtain ⟨hwire,-,hanswers,hnoted⟩ := Lane.ext_iff.mp h.lane
  have hcons : (Exchange.lane ackFor at').wire = m :: rest.filter fun m => !isResultAck m := by
    rw [← hwire]
    change s.link.up.filter (fun m => !isResultAck m) = _
    rw [hu,List.filter_cons_of_pos (by rw [hm]; rfl)]
  obtain ⟨rfl,hrest⟩ := Exchange.wire_eq_cons hcons
  obtain ⟨hcur,hsend,-⟩ := h.current m _ rfl
  refine ⟨some (m,.held),Lane.ext hrest rfl hanswers hnoted,h.kept.handled_current hcur rfl,
    fun hrun => ?_,fun m' place he => ?_⟩
  · cases (h.running hrun).1
  · cases he
    exact ⟨hcur,hsend,fun _ => n.succ_pos⟩

/-- The handler sends the ACK of what it has handled. -/
theorem Sound.sendAck (h : Sound sendQueue s at' n) {ack : Message}
    (ha : s.link.handler = .acking m) (hack : ackFor m = some ack) : ∃ at'', Sound sendQueue
      ⟨s.toShared,{s.link with handler := .listening, down := s.link.down ++ [ack]},s.old⟩
      at'' n := by
  obtain ⟨hwire,hheld,hanswers,hnoted⟩ := Lane.ext_iff.mp h.lane
  have hcons : (Exchange.lane ackFor at').held = [m] := by
    rw [← hheld]
    change (match s.link.handler with | .acking m => [m] | _ => []) = [m]
    rw [ha]
  obtain ⟨rfl,-⟩ := Exchange.held_eq_cons hcons
  refine ⟨some (m,.answered),h.moved (Lane.ext hwire rfl ?_ hnoted) rfl rfl ?_⟩
  · change (s.link.down ++ [ack]).filter (fun m => !isResult m) = (ackFor m).toList
    have hempty : s.link.down.filter (fun m => !isResult m) = [] := hanswers
    have hkind : isResult ack = false := by
      cases m <;> cases hack <;> rfl
    rw [List.filter_append,hempty,hack,List.filter_singleton,hkind]
    rfl
  · intro m' place he
    cases he
    exact ⟨.held,rfl,fun _ => nofun⟩

/-- The processes of the newest connection. -/
theorem Sound.newest (h : Sound sendQueue s at' n)
    (hs : LinkStep true s.toShared s.link e t l) :
    ∃ at'' n', Sound sendQueue ⟨t,l,s.old⟩ at'' n' := by
  cases hs with
  | read _ hd hm =>
      obtain ⟨at'',hsound⟩ := h.read hd hm
      exact ⟨at'',n,hsound⟩
  | @readResult r rest _ hd hr =>
      refine ⟨at',n,h.unmoved (Lane.ext rfl rfl ?_ rfl) rfl rfl⟩
      change rest.filter (fun m => !isResult m) = s.link.down.filter _
      rw [hd,List.filter_cons_of_neg (by rw [hr]; exact nofun)]
  | ackResult _ => exact ⟨at',n,h.unmoved (Lane.ext (filter_send _ _ _ rfl) rfl rfl rfl) rfl rfl⟩
  | readerEnds _ =>
      obtain ⟨at'',hsound⟩ := h.readerEnds
      exact ⟨at'',n,hsound⟩
  | serve _ hu hm =>
      obtain ⟨at'',hsound⟩ := h.serve hu hm
      exact ⟨at'',n+1,hsound⟩
  | @noteAck m rest _ hu hm =>
      refine ⟨at',n,h.unmoved (Lane.ext ?_ rfl rfl rfl) rfl rfl⟩
      change rest.filter (fun m => !isResultAck m) = s.link.up.filter _
      rw [hu,List.filter_cons_of_neg (by rw [hm]; exact nofun)]
  | sendAck ha hack =>
      obtain ⟨at'',hsound⟩ := h.sendAck ha hack
      exact ⟨at'',n,hsound⟩
  | @upload r _ _ hr =>
      refine ⟨at',n,h.unmoved (Lane.ext rfl rfl ?_ rfl) rfl rfl⟩
      change (s.link.down ++ [r]).filter (fun m => !isResult m) = s.link.down.filter _
      rw [List.filter_append,List.filter_singleton,hr]
      exact List.append_nil _
  | takeAck _ _ => exact ⟨at',n,h.unmoved rfl rfl rfl⟩
  | confirm _ => exact ⟨at',n,h.unmoved rfl rfl rfl⟩
  | goDown =>
      have hrest : Exchange.lane ackFor (answeredOnly at') = _ := Exchange.lane_answeredOnly at'
      rw [← h.lane] at hrest
      refine ⟨answeredOnly at',n,h.moved hrest.symm rfl rfl fun m place he => ?_⟩
      exact ⟨place,(Option.filter_eq_some_iff.mp he).1,id⟩

/-- The processes of the older connections put nothing into the `ack_queue` that
the client takes for an ACK, and handle nothing out of its order. -/
theorem Sound.older (h : Sound sendQueue s at' n) (hlate : NoneLater s e)
    (hs : LinkStep false s.toShared l e t l') (old : List Link) :
    ∃ n', Sound sendQueue ⟨t,s.link,old⟩ at' n' := by
  have hqueue : ∀ item, ownAcks (s.ackQueue ++ [(false,item)]) = ownAcks s.ackQueue := by
    intro item
    rw [ownAcks_append]
    exact List.append_nil _
  cases hs with
  | read _ _ _ => exact ⟨n,h.unmoved (Lane.ext rfl rfl rfl (hqueue _)) rfl rfl⟩
  | readerEnds _ => exact ⟨n,h.unmoved (Lane.ext rfl rfl rfl (hqueue _)) rfl rfl⟩
  | @serve m rest _ _ _ =>
      obtain ⟨n',hle,hkept⟩ : ∃ n', n ≤ n' ∧ Kept sendQueue n' (handle m s.client) := by
        rcases hlate with ⟨current,hcur,hm⟩ | hlast
        · exact ⟨n+1,n.le_succ,h.kept.handled_current hcur hm⟩
        · exact h.kept.handled_last hlast
      refine ⟨n',h.lane,hkept,h.running,fun m place he => ?_⟩
      obtain ⟨hcur,hsend,hpos⟩ := h.current m place he
      exact ⟨hcur,hsend,fun hp => (hpos hp).trans_le hle⟩
  | _ => exact ⟨n,h.unmoved rfl rfl rfl⟩

theorem Sound.wrote (h : Sound sendQueue s at' n) (hq : Merged sendQueue)
    (hmain : s.main = .running) (hw : write s.client = some (m,c)) :
    ∃ at'' n', Sound sendQueue {s with client := c, main := .waiting, link := s.link.send m}
      at'' n' := by
  have hwrote := wrote_of_write hw
  obtain ⟨rfl,hnoted⟩ := h.running hmain
  have hkept := h.kept.wrote hnoted hwrote
  have hkind := Duplex.isResultAck_of_fileOf (hwrote.fileOf (h.kept.files hq))
  obtain ⟨hwire,hheld,hanswers,hnotes⟩ := Lane.ext_iff.mp h.lane
  change s.link.up.filter _ = [] at hwire
  by_cases hd : s.link.handler = .down
  · refine ⟨none,n,Lane.ext ?_ hheld hanswers hnotes,hkept,nofun,nofun⟩
    change List.filter _ (if s.link.handler = .down then s.link.up else s.link.up ++ [m]) = []
    rw [if_pos hd,hwire]
  · refine ⟨some (m,.unread),n,Lane.ext ?_ hheld hanswers hnotes,hkept,nofun,fun m' place he => ?_⟩
    · change List.filter _ (if s.link.handler = .down then s.link.up else s.link.up ++ [m]) = [m]
      rw [if_neg hd,List.filter_append,hwire,List.filter_singleton,hkind]
      rfl
    · cases he
      exact ⟨hwrote.current,hwrote.sending',fun hp => absurd rfl hp⟩

theorem Sound.took (h : Sound sendQueue s at' n) {item : Option Message}
    {items : List (Bool × Option Message)} (hown : OwnAck (.take own item))
    (ha : s.ackQueue = (own,item) :: items) : (∃ at'' n', Sound sendQueue
      {s with client := (receiveItem item s.client).1, main := (receiveItem item s.client).2,
              ackQueue := items} at'' n') ∧ (receiveItem item s.client).2 ≠ .raised := by
  obtain ⟨hwire,hheld,hanswers,hnoted⟩ := Lane.ext_iff.mp h.lane
  cases item with
  | none =>
      refine ⟨⟨at',n,?_,h.kept,nofun,h.current⟩,nofun⟩
      refine Lane.ext hwire hheld hanswers (Eq.trans ?_ hnoted)
      change ownAcks items = ownAcks s.ackQueue
      rw [ha]
      cases own <;> rfl
  | some m =>
      obtain rfl : own = true := hown
      have hcons : (Exchange.lane ackFor at').noted = m :: ownAcks items := by
        rw [← hnoted]
        change ownAcks s.ackQueue = _
        rw [ha]
        rfl
      obtain ⟨m',rfl,hack,hrest⟩ := Exchange.noted_eq_cons hcons
      obtain ⟨hcur,hsend,hpos⟩ := h.current m' _ rfl
      obtain ⟨i,p,rfl⟩ : ∃ i p, m = .ack i p := by
        cases m' <;> cases hack <;> exact ⟨_,_,rfl⟩
      unfold receiveItem
      dsimp only
      rw [hcur]
      exact ⟨⟨none,0,Lane.ext hwire hheld hanswers hrest,h.kept.acked hcur (hpos nofun) hsend,
        fun _ => ⟨rfl,nofun⟩,nofun⟩,nofun⟩

/-- Reading the id of an EOF raises, and with any other message the client goes
on. -/
theorem Sound.connected (h : Sound sendQueue s at' n) (hq : Merged sendQueue) :
    Sound sendQueue (connect s) none n ∧ ((connect s).main = .raised ↔
      ∃ current, s.client.currentMessage = some current ∧ isEof current = true) := by
  have hcurrent : ∀ m, s.client.currentMessage = some m → s.client.sendingMessages = true ∧
      ((∃ i p content, m = .clientProtocol i p content) ∨ isEof m = true) := by
    intro m hm
    have hrem := remaining_of_current hm
    refine ⟨Bool.eq_true_of_not_eq_false fun hs => ?_,?_⟩
    · rw [h.kept.nothingLeft hq hs] at hrem
      cases hrem
    · have hfile := h.kept.files hq m (by rw [hrem]; exact List.mem_cons_self)
      cases m with
      | clientProtocol i p content => exact Or.inl ⟨i,p,content,rfl⟩
      | eof p k dups => exact Or.inr rfl
      | _ => cases hfile
  unfold connect
  rcases hc : s.client.currentMessage with _ | m
  · have hresend : resend s.client = (s.client,.running) := by
      unfold resend
      rw [hc]
      split <;> first | rfl | cases ‹_›
    rw [hresend]
    refine ⟨⟨rfl,h.kept,fun _ => ⟨rfl,fun m hm => ?_⟩,nofun⟩,nofun,?_⟩
    · rw [hc] at hm
      cases hm
    · rintro ⟨m,hm,_⟩
      cases hm
  · obtain ⟨hsend,hkind⟩ := hcurrent m hc
    rw [Duplex.resend_of_current hsend hc]
    rcases hkind with ⟨i,p,content,rfl⟩ | heof
    · refine ⟨⟨rfl,h.kept.reconnect (m := .clientProtocol i p content) rfl,fun _ => ⟨rfl,?_⟩,
        nofun⟩,nofun,?_⟩
      · intro m hm
        obtain rfl := Option.some.inj (hc.symm.trans hm)
        exact ⟨i,p,content,rfl,List.mem_append_right _ List.mem_cons_self⟩
      · rintro ⟨m,hm,heof⟩
        obtain rfl := Option.some.inj hm
        cases heof
    · cases m with
      | eof p k dups => exact ⟨⟨rfl,h.kept,nofun,nofun⟩,fun _ => ⟨_,rfl,rfl⟩,fun _ => rfl⟩
      | _ => cases heof

theorem LinkStep.main_eq (hs : LinkStep own s.toShared l e t l') : t.main = s.main := by
  cases hs <;> rfl

theorem Sound.step (h : Sound sendQueue s at' n) (hq : Merged sendQueue) (hc : Orderly s e)
    (hs : Step s e s') : (∃ at'' n', Sound sendQueue s' at'' n') ∧
      (s.main ≠ .raised → EofAcked s e → s'.main ≠ .raised) := by
  cases hs with
  | write hmain hw => exact ⟨h.wrote hq hmain hw,fun _ _ => nofun⟩
  | writeRaises hmain hw =>
      obtain ⟨rfl,hnoted⟩ := h.running hmain
      have hkept := h.kept.wrote hnoted (wrote_of_write hw)
      exact ⟨⟨none,n,h.lane,hkept,nofun,nofun⟩,fun _ _ => nofun⟩
  | take _ ha =>
      obtain ⟨hsound,hmain⟩ := h.took hc.1 ha
      exact ⟨hsound,fun _ _ => hmain⟩
  | connect _ =>
      obtain ⟨hsound,hraised⟩ := h.connected hq
      refine ⟨⟨none,n,hsound⟩,fun _ heof hr => ?_⟩
      obtain ⟨current,hcur,hend⟩ := hraised.mp hr
      rw [heof current hcur] at hend
      cases hend
  | newest hl =>
      refine ⟨h.newest hl,fun hne _ => ?_⟩
      rw [← hl.main_eq] at hne
      exact hne
  | older _ hl =>
      obtain ⟨n',hsound⟩ := h.older hc.2 hl _
      refine ⟨⟨at',n',hsound⟩,fun hne _ => ?_⟩
      rw [← hl.main_eq] at hne
      exact hne

theorem Reaches.sound (h : Reaches Orderly sendQueue s) (hq : Merged sendQueue) :
    ∃ at' n, Sound sendQueue s at' n := by
  induction h with
  | connected => exact ⟨none,0,sound_connected hq⟩
  | step _ hs hc ih =>
      obtain ⟨at',n,hsound⟩ := ih
      exact (hsound.step hq hc hs).1

theorem Reaches.not_raised (h : Reaches (fun s e => Orderly s e ∧ EofAcked s e) sendQueue s)
    (hq : Merged sendQueue) : s.main ≠ .raised := by
  induction h with
  | connected => exact nofun
  | step hr hs hc ih =>
      obtain ⟨at',n,hsound⟩ := (hr.mono fun _ _ hc => hc.1).sound hq
      exact (hsound.step hq hc.1 hs).2 ih hc.2

/-- The first batch is written on a connection that the client leaves before the
batch is handled, and on the next. Both handlers handle it, the old one late,
and the client takes the ACK of the new one. -/
theorem handledTwice : ∃ s, Reaches (fun s e => Orderly s e ∧ EofAcked s e) twoFiles s ∧
    s.client.handled.length = 2 ∧ s.old.length = 1 ∧ s.client.sendQueue.length = 3 := by
  have h : Reaches (fun s e => Orderly s e ∧ EofAcked s e) twoFiles _ := .connected
  have h := h.step (.write rfl rfl) ⟨⟨trivial,trivial⟩,trivial⟩
  have h := h.step (.newest (.readerEnds nofun)) ⟨⟨trivial,trivial⟩,trivial⟩
  have h := h.step (.take (Or.inl rfl) rfl) ⟨⟨trivial,trivial⟩,trivial⟩
  have h := h.step (.connect rfl) ⟨⟨trivial,trivial⟩,fun m hm => by cases hm; rfl⟩
  have h := h.step (.write rfl rfl) ⟨⟨trivial,trivial⟩,trivial⟩
  have h := h.step (.newest (.serve rfl rfl rfl)) ⟨⟨trivial,trivial⟩,trivial⟩
  have h := h.step (.older (show _ = [] ++ _ :: [] from rfl) (.serve rfl rfl rfl))
    ⟨⟨trivial,Or.inl ⟨_,rfl,rfl⟩⟩,trivial⟩
  have h := h.step (.newest (.sendAck rfl rfl)) ⟨⟨trivial,trivial⟩,trivial⟩
  have h := h.step (.newest (.read rfl rfl rfl)) ⟨⟨trivial,trivial⟩,trivial⟩
  have h := h.step (.take (Or.inl rfl) rfl) ⟨⟨rfl,trivial⟩,trivial⟩
  exact ⟨_,h,rfl,rfl,rfl⟩

/-- A client with one connection at a time is one of these. -/
def embed (s : Duplex.State) (old : List Link) : State :=
  ⟨⟨s.client,s.main,s.ackQueue.map fun item => (true,item),s.resultsQueue⟩,
    ⟨s.reader,s.up,s.down,s.handler,s.uploader,s.ackResultsQueue⟩,old⟩

theorem step_embed {s s' : Duplex.State} (hl : Duplex.Links s) (hs : Duplex.Step s s')
    (old : List Link) : ∃ old', embed s' old' = embed s old ∨
      ∃ e, Step (embed s old) e (embed s' old') ∧ Orderly (embed s old) e := by
  cases hs with
  | write hmain hw => exact ⟨old,Or.inr ⟨_,.write hmain hw,trivial,trivial⟩⟩
  | writeRaises hmain hw _ => exact ⟨old,Or.inr ⟨_,.writeRaises hmain hw,trivial,trivial⟩⟩
  | @receiveItem item items hmain ha =>
      have hitems : (embed s old).ackQueue = (true,item) :: items.map fun item => (true,item) :=
        congrArg (List.map fun item => (true,item)) ha
      refine ⟨old,Or.inr ⟨_,.take hmain hitems,?_,trivial⟩⟩
      cases item <;> first | rfl | trivial
  | connect hmain _ => exact ⟨_,Or.inr ⟨_,.connect hmain,trivial,trivial⟩⟩
  | @read m rest hlisten hd =>
      unfold Duplex.read
      split_ifs with hr
      · exact ⟨old,Or.inr ⟨_,.newest (.readResult hlisten hd hr),trivial,trivial⟩⟩
      · have hstep := Step.newest (s := embed s old)
          (.read hlisten hd (Bool.eq_false_of_not_eq_true hr))
        exact ⟨old,Or.inr ⟨.other,by simpa [embed] using hstep,trivial,trivial⟩⟩
  | ackResult ha => exact ⟨old,Or.inr ⟨_,.newest (.ackResult ha),trivial,trivial⟩⟩
  | readerEnds _ hne =>
      have hstep := Step.newest (s := embed s old) (.readerEnds hne)
      exact ⟨old,Or.inr ⟨.other,by simpa [embed] using hstep,trivial,trivial⟩⟩
  | @serve m rest hlisten hu =>
      unfold Duplex.serve
      split_ifs with hr
      · exact ⟨old,Or.inr ⟨_,.newest (.noteAck hlisten hu hr),trivial,trivial⟩⟩
      · exact ⟨old,Or.inr ⟨_,.newest (.serve hlisten hu (Bool.eq_false_of_not_eq_true hr)),trivial,
          trivial⟩⟩
  | sendAck ha hack => exact ⟨old,Or.inr ⟨_,.newest (.sendAck ha hack),trivial,trivial⟩⟩
  | @upload r rest hne hi hq =>
      have hr : isResult r = true := hl.results r (by rw [hq]; exact List.mem_cons_self)
      exact ⟨old,Or.inr ⟨_,.newest (.upload hne hi hr),trivial,trivial⟩⟩
  | takeAck hw ha => exact ⟨old,Or.inr ⟨_,.newest (.takeAck hw ha),trivial,trivial⟩⟩
  | confirm ha _ => exact ⟨old,Or.inr ⟨_,.newest (.confirm ha),trivial,trivial⟩⟩
  | publish r _ => exact ⟨old,Or.inl rfl⟩
  | goDown => exact ⟨old,Or.inr ⟨_,.newest .goDown,trivial,trivial⟩⟩

theorem reaches_embed {s : Duplex.State} (h : Duplex.Reaches sendQueue s) :
    ∃ old, Reaches Orderly sendQueue (embed s old) := by
  induction h with
  | refl => exact ⟨[],.connected⟩
  | tail hr hs ih =>
      obtain ⟨old,hreach⟩ := ih
      obtain ⟨old',he | ⟨e,hstep,hc⟩⟩ := step_embed (Duplex.Reaches.links hr) hs old
      · exact ⟨old',by rw [he]; exact hreach⟩
      · exact ⟨old',hreach.step hstep hc⟩

/-- As long as no connection does harm after the client has left it, the server
handles the messages in their order and misses none, also when the client comes
to stop on an end. -/
theorem uploads_inOrder (hq : Merged sendQueue) (h : Reaches Orderly sendQueue s) :
    InOrder sendQueue s.client := by
  obtain ⟨_,_,hsound⟩ := h.sound hq
  exact hsound.kept.inOrder hq

theorem uploads_inOrder_handledTwice : ∃ s : State, s.client.handled.length = 2 ∧
    InOrder twoFiles s.client := by
  obtain ⟨s,hs,hlen,_,_⟩ := handledTwice
  exact ⟨s,hlen,uploads_inOrder twoFiles_merged (hs.mono fun _ _ hc => hc.1)⟩

end FlightsOptimizer.Reconnection

namespace FlightsOptimizer.Duplex
open ProtocolConnection Reconnection

theorem Reaches.inOrder {s : State} {sendQueue : List Message} (h : Reaches sendQueue s)
    (hq : Merged sendQueue) : InOrder sendQueue s.client := by
  obtain ⟨old,hreach⟩ := reaches_embed h
  obtain ⟨_,_,hsound⟩ := hreach.sound hq
  exact hsound.kept.inOrder hq

end FlightsOptimizer.Duplex
