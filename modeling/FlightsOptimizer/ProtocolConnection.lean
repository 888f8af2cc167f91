import Mathlib.Algebra.Order.Group.Nat
import Mathlib.Data.List.Infix
import FlightsOptimizer.Protocol

/-!
# Uploading over an unreliable server

The client takes the next message of its send queue when the server has
acknowledged the one before, and sends a message again after each reconnection.
A message that is sent again is first added to the possible duplicates by its
id, and the end of a file, which has no id, is no exception to this.
-/
namespace FlightsOptimizer

/-- Each element of a list, one or more times in a row. -/
inductive Repeated {α : Type} : List α → List α → Prop
  | nil : Repeated [] []
  | cons (a : α) (n : ℕ) {as bs : List α} :
      Repeated as bs → Repeated (a :: as) (List.replicate (n+1) a ++ bs)

theorem Repeated.append {α : Type} {as bs cs ds : List α} (h : Repeated as bs)
    (h' : Repeated cs ds) : Repeated (as ++ cs) (bs ++ ds) := by
  induction h with
  | nil => exact h'
  | cons a n _ ih =>
      rw [List.cons_append,List.append_assoc]
      exact .cons a n ih

namespace ProtocolConnection

/-- What becomes of a message that the client writes to its socket: the server
handles it and the client reads the ACK, or the connection breaks before or
after the server handles it. An ACK of an older connection is not among them. -/
inductive Outcome
  | acked
  | lostBefore
  | lostAfter
  deriving DecidableEq

/-- The attributes of the connection, and what the client has written and the
server has handled. -/
structure Client where
  sendQueue : List Message
  currentMessage : Option Message
  eofsReceived : ℕ
  possibleDuplicates : List (Word 8)
  sendingMessages : Bool
  sent : List (Bool × Message)
  handled : List Message

def start (sendQueue : List Message) : Client := ⟨sendQueue,none,0,[],true,[],[]⟩

def isEof : Message → Bool
  | .eof _ _ _ => true
  | _ => false

/-- `self.current_message.message_id`: an EOF has none, which raises. -/
def messageId : Message → Option (Word 8)
  | .clientProtocol messageId _ _ => some messageId
  | _ => none

/-- An EOF is written with the possible duplicates collected so far. -/
def stamp (possibleDuplicates : List (Word 8)) : Message → Message
  | .eof protocolType messagesSent _ => .eof protocolType messagesSent possibleDuplicates
  | message => message

/-- `__receive_ack`, and the check of `__run` behind it. -/
def receiveAck (message : Message) (c : Client) : Client :=
  let eofsReceived := if isEof message then c.eofsReceived+1 else c.eofsReceived
  {c with
    currentMessage := none
    eofsReceived := eofsReceived
    sendingMessages := if eofsReceived = 2 then false else c.sendingMessages}

/-- `__reconnect` starts `__run` again, which finds a current message. -/
def reconnect (message : Message) (c : Client) : Option Client := do
  let messageId ← messageId message
  some {c with possibleDuplicates := c.possibleDuplicates ++ [messageId]}

def handle (message : Message) (c : Client) : Client := {c with handled := c.handled ++ [message]}

/-- One write of a message; `again` says whether it was written before. -/
def attempt (o : Outcome) (again : Bool) (message : Message) (c : Client) : Option Client :=
  let message := stamp c.possibleDuplicates message
  let c := {c with currentMessage := some message, sent := c.sent ++ [(again,message)]}
  match o with
  | .acked => some (receiveAck message (handle message c))
  | .lostBefore => reconnect message c
  | .lostAfter => reconnect message (handle message c)

/-- The loop of `__run`. When everything is sent it only waits for results. -/
def step (o : Outcome) (c : Client) : Option Client :=
  if c.sendingMessages then
    match c.currentMessage with
    | some message => attempt o true message c
    | none =>
        match c.sendQueue with
        | [] => some c
        | message :: sendQueue => attempt o false message {c with sendQueue := sendQueue}
  else some c

def run : List Outcome → Client → Option Client
  | [], c => some c
  | o :: os, c => (step o c).bind (run os)

def fileOf : Message → Option MessageProtocolType
  | .clientProtocol _ protocolType _ => some protocolType
  | .eof protocolType _ _ => some protocolType
  | _ => none

/-- The batches of a file and its EOF. -/
def stream (protocolType : MessageProtocolType) (batches : List (Word 8 × String))
    (messagesSent : Word 8) : List Message :=
  batches.map (fun b => .clientProtocol b.1 protocolType b.2) ++ [.eof protocolType messagesSent []]

/-- The queue is a merge of the streams of the two files. -/
structure Merged (queue : List Message) : Prop where
  files : ∀ message ∈ queue, (fileOf message).isSome
  streams : ∀ protocolType, ∃ batches messagesSent,
    queue.filter (fun message => fileOf message == some protocolType) =
      stream protocolType batches messagesSent

/-- The attempts that a sequence of outcomes leads to. -/
def attempts : List Message → List Outcome → List (Message × Outcome)
  | _, [] => []
  | [], _ => []
  | message :: messages, o :: os =>
      (message,o) :: if o = .acked then attempts messages os else attempts (message :: messages) os

variable {queue done rest : List Message} {message : Message}

theorem Merged.kinds (h : Merged queue) (hm : message ∈ queue) :
    (∃ i t content, message = .clientProtocol i t content) ∨
      ∃ t messagesSent, message = .eof t messagesSent [] := by
  obtain ⟨t,ht⟩ := Option.isSome_iff_exists.mp (h.files message hm)
  obtain ⟨batches,messagesSent,hs⟩ := h.streams t
  have hfilter : message ∈ stream t batches messagesSent := by
    rw [← hs,List.mem_filter]
    exact ⟨hm,by simp [ht]⟩
  rcases List.mem_append.mp hfilter with hdata | heof
  · obtain ⟨b,_,rfl⟩ := List.mem_map.mp hdata
    exact Or.inl ⟨_,_,_,rfl⟩
  · exact Or.inr ⟨t,messagesSent,List.mem_singleton.mp heof⟩

theorem countP_stream (t : MessageProtocolType) (batches : List (Word 8 × String)) (n : Word 8) :
    (stream t batches n).countP isEof = 1 := by
  have hdata : (batches.map fun b => Message.clientProtocol b.1 t b.2).countP isEof = 0 := by
    rw [List.countP_eq_zero]
    intro m hm
    obtain ⟨b,_,rfl⟩ := List.mem_map.mp hm
    simp [isEof]
  rw [stream,List.countP_append,hdata]
  rfl

/-- An end belongs to one of the two files. -/
theorem countP_isEof (messages : List Message) : messages.countP isEof =
    (messages.filter fun m => fileOf m == some .flight).countP isEof +
      (messages.filter fun m => fileOf m == some .airport).countP isEof := by
  induction messages with
  | nil => rfl
  | cons m messages ih =>
      by_cases he : isEof m = true
      · have hfile : fileOf m = some .flight ∨ fileOf m = some .airport := by
          cases m with
          | eof t n dups => cases t <;> simp [fileOf]
          | _ => cases he
        rcases hfile with hf | hf <;> simp [hf,he,ih] <;> omega
      · rw [List.countP_cons_of_neg he,ih,List.filter_cons,List.filter_cons]
        split_ifs <;> simp [he]

/-- Nothing stands behind the second end. -/
theorem Merged.rest_nil (h : Merged (done ++ rest)) (hd : done.countP isEof = 2) : rest = [] := by
  by_contra hne
  obtain ⟨m,hm⟩ := List.exists_mem_of_ne_nil rest hne
  have hone : ∀ t, (done.filter fun m => fileOf m == some t).countP isEof ≤ 1 := by
    intro t
    obtain ⟨batches,n,hs⟩ := h.streams t
    have hcount := countP_stream t batches n
    rw [← hs,List.filter_append,List.countP_append] at hcount
    omega
  -- the file of `m` is not at its end in `done`
  have hnone : ∀ t, fileOf m = some t →
      (done.filter fun m => fileOf m == some t).countP isEof = 0 := by
    intro t ht
    obtain ⟨batches,n,hs⟩ := h.streams t
    have hcount := countP_stream t batches n
    rw [List.filter_append] at hs
    have hmem : m ∈ rest.filter fun m => fileOf m == some t := List.mem_filter.mpr ⟨hm,by simp [ht]⟩
    have hlast : Message.eof t n [] ∈ rest.filter fun m => fileOf m == some t := by
      have hl := congrArg List.getLast? hs
      rw [List.getLast?_append_of_ne_nil _ (List.ne_nil_of_mem hmem),stream,List.getLast?_concat] at hl
      exact List.mem_of_getLast? hl
    have hpos : 0 < (rest.filter fun m => fileOf m == some t).countP isEof :=
      List.countP_pos_iff.mpr ⟨_,hlast,rfl⟩
    rw [← hs,List.countP_append] at hcount
    omega
  have hf := hone .flight
  have ha := hone .airport
  obtain ⟨t,ht⟩ := Option.isSome_iff_exists.mp (h.files m (List.mem_append_right done hm))
  have hz := hnone t ht
  rw [countP_isEof] at hd
  cases t <;> omega

/-- A message apart from the possible duplicates that an EOF is stamped with. -/
def strip : Message → Message := stamp []

/-- What is not acknowledged yet. -/
def remaining (c : Client) : List Message := c.currentMessage.toList ++ c.sendQueue

/-- The server has handled the acknowledged messages one or more times each, in
the order of the queue, and the next one any number of times. -/
def Handled (queue : List Message) (acks : ℕ) (c : Client) : Prop :=
  ∃ done rest once n, queue = done ++ rest ∧ done.length = min acks queue.length ∧
    Repeated done once ∧ c.handled.map strip = once ++ (rest.take 1).flatMap (List.replicate n)

/-- An EOF carries the id of every data message of its file that was sent again
before it. -/
def Carried (c : Client) : Prop :=
  ∀ pre again t messagesSent duplicates post,
    c.sent = pre ++ (again,.eof t messagesSent duplicates) :: post →
      ∀ i content, (true,.clientProtocol i t content) ∈ pre → i ∈ duplicates

/-- The loop goes on, and both hold of it. -/
def Delivers (queue : List Message) (outcomes : List Outcome) : Prop :=
  ∃ c, run outcomes (start queue) = some c ∧ Handled queue (outcomes.count .acked) c ∧ Carried c

/-- The connection never breaks on an EOF that is not acknowledged. -/
def EofsAcked (queue : List Message) (outcomes : List Outcome) : Prop :=
  ∀ a ∈ attempts queue outcomes, isEof a.1 = true → a.2 = .acked

instance (queue : List Message) (outcomes : List Outcome) : Decidable (EofsAcked queue outcomes) :=
  inferInstanceAs (Decidable (∀ a ∈ attempts queue outcomes, isEof a.1 = true → a.2 = .acked))

structure Reached (queue : List Message) (acks : ℕ) (c : Client) : Prop where
  handled : ∃ done once n, queue = done ++ remaining c ∧ done.length = min acks queue.length ∧
    Repeated done once ∧ c.eofsReceived = done.countP isEof ∧
    c.handled.map strip = once ++ ((remaining c).take 1).flatMap (List.replicate n)
  sending : c.sendingMessages = false ↔ c.eofsReceived = 2
  current : ∀ m, c.currentMessage = some m →
    ∃ i t content, m = .clientProtocol i t content ∧ i ∈ c.possibleDuplicates
  resent : ∀ i t content, (true,.clientProtocol i t content) ∈ c.sent → i ∈ c.possibleDuplicates
  carried : Carried c

variable {acks : ℕ} {c : Client} {o : Outcome} {outcomes : List Outcome}

theorem reached_start (queue : List Message) : Reached queue 0 (start queue) where
  handled := ⟨[],[],0,rfl,(Nat.zero_min _).symm,.nil,rfl,by cases queue <;> rfl⟩
  sending := by simp [start]
  current := nofun
  resent := fun i t content h => absurd h List.not_mem_nil
  carried := by
    intro pre again t n dups post h
    simp [start] at h

/-- While something is left the loop sends. -/
theorem Reached.sends (hm : Merged queue) (hr : Reached queue acks c)
    (hc : remaining c = message :: rest) : c.sendingMessages = true := by
  by_contra hs
  obtain ⟨done,_,_,hq,_,_,heofs,_⟩ := hr.handled
  have htwo := hr.sending.mp (Bool.eq_false_of_not_eq_true hs)
  rw [hq,hc] at hm
  have hnil := hm.rest_nil (heofs.symm.trans htwo)
  cases hnil

/-- The next write is of the first message that is left. -/
theorem Reached.step_eq (hm : Merged queue) (hr : Reached queue acks c)
    (hc : remaining c = message :: rest) : ∃ again, step o c =
      attempt o again message {c with sendQueue := rest} ∧
      (again = true → ∃ i t content, message = .clientProtocol i t content ∧
        i ∈ c.possibleDuplicates) := by
  have hsend := hr.sends hm hc
  unfold remaining at hc
  rcases Option.eq_none_or_eq_some c.currentMessage with hcur | ⟨m,hcur⟩
  · rw [hcur] at hc
    have hqueue : c.sendQueue = message :: rest := hc
    refine ⟨false,?_,nofun⟩
    unfold step
    rw [if_pos hsend,hcur,hqueue]
  · rw [hcur] at hc
    obtain ⟨rfl,hrest⟩ := List.cons.inj hc
    have hqueue : c.sendQueue = rest := hrest
    subst hqueue
    refine ⟨true,?_,fun _ => hr.current m hcur⟩
    change step o c = attempt o true m c
    unfold step
    rw [if_pos hsend,hcur]

/-- With nothing left the loop only waits. -/
theorem step_nil (hc : remaining c = []) : step o c = some c := by
  obtain ⟨hcur,hqueue⟩ := List.append_eq_nil_iff.mp hc
  rw [Option.toList_eq_nil_iff] at hcur
  unfold step
  rw [hcur,hqueue]
  split_ifs <;> rfl

theorem Merged.strip_eq (hm : Merged queue) (hmem : message ∈ queue) (dups : List (Word 8)) :
    strip (stamp dups message) = message := by
  rcases hm.kinds hmem with ⟨i,t,content,rfl⟩ | ⟨t,n,rfl⟩ <;> rfl

/-- Writing one more message keeps what the ends before it carry. -/
theorem Carried.write (h : Carried c) {again : Bool} {m : Message}
    (hm : ∀ t n dups, m = .eof t n dups →
      ∀ i content, (true,.clientProtocol i t content) ∈ c.sent → i ∈ dups)
    {c' : Client} (hc : c'.sent = c.sent ++ [(again,m)]) : Carried c' := by
  intro pre a t n dups post he
  rw [hc] at he
  rcases List.eq_nil_or_concat post with rfl | ⟨post',b,rfl⟩
  · obtain ⟨hpre,hlast⟩ := List.append_inj' he rfl
    cases hlast
    rw [← hpre]
    exact hm t n dups rfl
  · have hsplit : c.sent ++ [(again,m)] = (pre ++ (a,.eof t n dups) :: post') ++ [b] := by
      rw [he]
      simp
    exact h pre a t n dups post' (List.append_inj' hsplit rfl).1

/-- The ends that are written carry what was sent again, whatever becomes of
the write. -/
theorem Reached.carried_write (hr : Reached queue acks c) {again : Bool} {c' : Client}
    (hsent : c'.sent = c.sent ++ [(again,stamp c.possibleDuplicates message)]) : Carried c' := by
  refine hr.carried.write ?_ hsent
  intro t n dups he i content hi
  cases message with
  | eof t' n' dups' =>
      cases he
      exact hr.resent i t content hi
  | _ => cases he

theorem Reached.resent_write (hr : Reached queue acks c) {again : Bool} {c' : Client}
    (hagain : again = true → ∃ i t content, message = .clientProtocol i t content ∧
      i ∈ c.possibleDuplicates)
    (hsent : c'.sent = c.sent ++ [(again,stamp c.possibleDuplicates message)])
    (hdups : c.possibleDuplicates ⊆ c'.possibleDuplicates) :
    ∀ i t content, (true,.clientProtocol i t content) ∈ c'.sent → i ∈ c'.possibleDuplicates := by
  intro i t content hi
  rw [hsent] at hi
  rcases List.mem_append.mp hi with hold | hnew
  · exact hdups (hr.resent i t content hold)
  · obtain ⟨hag,hmsg⟩ := Prod.mk.inj (List.mem_singleton.mp hnew)
    obtain ⟨j,t',content',rfl,hj⟩ := hagain hag.symm
    cases hmsg
    exact hdups hj

theorem Reached.length_eq (hr : Reached queue acks c) (hc : remaining c = message :: rest) :
    acks + (rest.length+1) = queue.length := by
  obtain ⟨done,_,_,hq,hlen,_⟩ := hr.handled
  have htotal := congrArg List.length hq
  rw [List.length_append,hc,List.length_cons] at htotal
  omega

theorem Reached.mem_queue (hr : Reached queue acks c) (hc : remaining c = message :: rest) :
    message ∈ queue := by
  obtain ⟨done,_,_,hq,_⟩ := hr.handled
  rw [hq,hc]
  exact List.mem_append_right done List.mem_cons_self

/-- An acknowledged write hands over one more message. -/
theorem Reached.acked (hm : Merged queue) (hr : Reached queue acks c)
    (hc : remaining c = message :: rest) : ∃ c', step .acked c = some c' ∧
      Reached queue (acks+1) c' ∧ remaining c' = rest := by
  obtain ⟨again,hstep,hagain⟩ := hr.step_eq hm (o := .acked) hc
  have hlength := hr.length_eq hc
  have hmem := hr.mem_queue hc
  obtain ⟨done,once,n,hq,hlen,hrep,heofs,hhandled⟩ := hr.handled
  rw [hc] at hq hhandled
  have heof : isEof (stamp c.possibleDuplicates message) = isEof message := by
    cases message <;> rfl
  refine ⟨_,hstep,?_,rfl⟩
  exact {
    handled := by
      refine ⟨done ++ [message],once ++ List.replicate (n+1) message,0,?_,?_,?_,?_,?_⟩
      · rw [hq,List.append_assoc]
        rfl
      · rw [List.length_append,hlen,List.length_singleton]
        omega
      · exact hrep.append (by simpa using Repeated.cons message n Repeated.nil)
      · rw [List.countP_append,← heofs]
        change (if isEof (stamp c.possibleDuplicates message) then c.eofsReceived+1
          else c.eofsReceived) = _
        rw [heof,List.countP_singleton]
        split_ifs <;> rfl
      · change (c.handled ++ [stamp c.possibleDuplicates message]).map strip = _
        rw [List.map_append,hhandled,List.map_singleton,hm.strip_eq hmem]
        simp [List.replicate_succ']
    sending := by
      have hcheck : ∀ n, (if n = 2 then false else c.sendingMessages) = false ↔ n = 2 := by
        intro n
        rw [hr.sends hm hc]
        split_ifs with htwo <;> simp [htwo]
      exact hcheck _
    current := fun m h => by cases h
    resent := hr.resent_write hagain rfl (List.Subset.refl _)
    carried := hr.carried_write rfl}

/-- When the connection breaks on a data message, the message is left to be
sent again as a possible duplicate. -/
theorem Reached.lost (hm : Merged queue) (hr : Reached queue acks c)
    (hc : remaining c = message :: rest) (hdata : isEof message = false) (ho : o ≠ .acked) :
    ∃ c', step o c = some c' ∧ Reached queue acks c' ∧ remaining c' = message :: rest := by
  obtain ⟨again,hstep,hagain⟩ := hr.step_eq hm (o := o) hc
  have hmem := hr.mem_queue hc
  obtain ⟨done,once,n,hq,hlen,hrep,heofs,hhandled⟩ := hr.handled
  rw [hc] at hq hhandled
  obtain ⟨i,t,content,rfl⟩ : ∃ i t content, message = .clientProtocol i t content := by
    rcases hm.kinds hmem with h | ⟨t,m,rfl⟩
    · exact h
    · cases hdata
  -- the server has handled the message once more, or not
  obtain ⟨k,c',hc',hremaining,heofs',hsending,hhandled',hcurrent,hdups,hsent⟩ : ∃ k c',
      step o c = some c' ∧ remaining c' = .clientProtocol i t content :: rest ∧
      c'.eofsReceived = c.eofsReceived ∧ c'.sendingMessages = c.sendingMessages ∧
      c'.handled = c.handled ++ List.replicate k (.clientProtocol i t content) ∧
      c'.currentMessage = some (.clientProtocol i t content) ∧
      c'.possibleDuplicates = c.possibleDuplicates ++ [i] ∧
      c'.sent =
        c.sent ++ [(again,stamp c.possibleDuplicates (.clientProtocol i t content))] := by
    cases o with
    | acked => exact absurd rfl ho
    | lostBefore => exact ⟨0,_,hstep,rfl,rfl,rfl,(List.append_nil _).symm,rfl,rfl,rfl⟩
    | lostAfter => exact ⟨1,_,hstep,rfl,rfl,rfl,rfl,rfl,rfl,rfl⟩
  refine ⟨c',hc',?_,hremaining⟩
  have hsub : c.possibleDuplicates ⊆ c'.possibleDuplicates := by
    rw [hdups]
    exact List.subset_append_left _ _
  exact {
    handled := by
      refine ⟨done,once,n+k,by rw [hremaining,hq],hlen,hrep,heofs'.trans heofs,?_⟩
      have hstrip : strip (.clientProtocol i t content) = .clientProtocol i t content := rfl
      rw [hhandled',List.map_append,hhandled,List.map_replicate,hremaining,hstrip]
      simp
    sending := by rw [hsending,heofs',hr.sending]
    current := by
      intro m h
      rw [hcurrent] at h
      cases h
      refine ⟨i,t,content,rfl,?_⟩
      rw [hdups]
      exact List.mem_append_right _ List.mem_cons_self
    resent := hr.resent_write hagain hsent hsub
    carried := hr.carried_write hsent}

/-- When it breaks on an EOF, reading the id of the EOF raises. -/
theorem Reached.raises (hm : Merged queue) (hr : Reached queue acks c)
    (hc : remaining c = message :: rest) (heof : isEof message = true) (ho : o ≠ .acked) :
    step o c = none := by
  obtain ⟨again,hstep,_⟩ := hr.step_eq hm (o := o) hc
  rw [hstep]
  cases message with
  | eof t n dups =>
      cases o with
      | acked => exact absurd rfl ho
      | lostBefore => rfl
      | lostAfter => rfl
  | _ => cases heof

/-- With nothing left, further outcomes change nothing. -/
theorem Reached.idle (hr : Reached queue acks c) (hc : remaining c = []) (n : ℕ)
    (hn : acks ≤ n) : Reached queue n c where
  handled := by
    obtain ⟨done,once,k,hq,hlen,h⟩ := hr.handled
    refine ⟨done,once,k,hq,?_,h⟩
    have hall := congrArg List.length hq
    rw [hc,List.append_nil] at hall
    omega
  sending := hr.sending
  current := hr.current
  resent := hr.resent
  carried := hr.carried

theorem attempts_nil (os : List Outcome) : attempts [] os = [] := by
  cases os <;> rfl

/-- Either no write of an EOF is lost and the loop goes on, or it stops at the
first that is. -/
theorem Reached.run_spec (hm : Merged queue) (hr : Reached queue acks c)
    (outcomes : List Outcome) : (∃ c', run outcomes c = some c' ∧
      Reached queue (acks+outcomes.count .acked) c' ∧
      EofsAcked (remaining c) outcomes) ∨
      run outcomes c = none ∧ ¬EofsAcked (remaining c) outcomes := by
  induction outcomes generalizing acks c with
  | nil => exact Or.inl ⟨c,rfl,hr,fun a ha => absurd ha List.not_mem_nil⟩
  | cons o os ih =>
      have hcount : acks + (o :: os).count .acked =
          acks + (if o = .acked then 1 else 0) + os.count .acked := by
        rw [List.count_cons]
        simp only [beq_iff_eq]
        omega
      rw [hcount]
      rcases hc : remaining c with _ | ⟨message,rest⟩
      · have hr' := hr.idle hc (acks+if o = .acked then 1 else 0) (by omega)
        have hih := ih hr'
        rw [hc,EofsAcked,attempts_nil] at hih
        rw [run,step_nil hc,Option.bind_some,EofsAcked,attempts_nil]
        exact hih
      · have hattempts : EofsAcked (message :: rest) (o :: os) ↔
            (isEof message = true → o = .acked) ∧
              EofsAcked (if o = .acked then rest else message :: rest) os := by
          rw [EofsAcked,attempts,List.forall_mem_cons]
          split_ifs <;> rfl
        rw [hattempts]
        by_cases ho : o = .acked
        · obtain ⟨c',hstep,hr',hc'⟩ := hr.acked hm hc
          subst ho
          rw [if_pos rfl,if_pos rfl,run,hstep,Option.bind_some,← hc']
          simpa using ih hr'
        · rw [if_neg ho,if_neg ho]
          cases hkind : isEof message with
          | true =>
              rw [run,hr.raises hm hc hkind ho]
              exact Or.inr ⟨rfl,fun h => ho (h.1 rfl)⟩
          | false =>
              obtain ⟨c',hstep,hr',hc'⟩ := hr.lost hm hc hkind ho
              rw [run,hstep,Option.bind_some,Nat.add_zero,← hc']
              simpa using ih hr'

theorem Reached.toHandled (hr : Reached queue acks c) : Handled queue acks c := by
  obtain ⟨done,once,n,hq,hlen,hrep,_,hhandled⟩ := hr.handled
  exact ⟨done,remaining c,once,n,hq,hlen,hrep,hhandled⟩

theorem start_remaining (queue : List Message) : remaining (start queue) = queue := rfl

/-- The loop goes on, hands over the queue in order and collects the possible
duplicates exactly when the connection never breaks on an unacknowledged EOF. -/
theorem delivers_iff (queue : List Message) (outcomes : List Outcome) (hm : Merged queue) :
    Delivers queue outcomes ↔ EofsAcked queue outcomes := by
  have hrun := (reached_start queue).run_spec hm outcomes
  rw [start_remaining,Nat.zero_add] at hrun
  rcases hrun with ⟨c,hc,hr,hacked⟩ | ⟨hnone,hlost⟩
  · exact ⟨fun _ => hacked,fun _ => ⟨c,hc,hr.toHandled,hr.carried⟩⟩
  · refine ⟨?_,fun h => absurd h hlost⟩
    rintro ⟨c,hc,_⟩
    rw [hnone] at hc
    cases hc

/-- The first batch of a file, and the number of batches of a file with one. -/
def first : Word 8 := ⟨1,by decide⟩

/-- A batch of airports and its end among a batch of flights and its end. -/
def twoFiles : List Message :=
  [.clientProtocol first .airport "EZE",.clientProtocol first .flight "EZE-JFK",
    .eof .airport first [],.eof .flight first []]

theorem twoFiles_merged : Merged twoFiles where
  files := by decide +kernel
  streams := by
    intro t
    cases t with
    | flight => exact ⟨[(first,"EZE-JFK")],first,by decide +kernel⟩
    | airport => exact ⟨[(first,"EZE")],first,by decide +kernel⟩

/-- The first batch is written three times, and handled twice. -/
example : Delivers twoFiles [.lostAfter,.lostBefore,.acked,.acked,.acked,.acked] :=
  (delivers_iff twoFiles _ twoFiles_merged).mpr (by decide +kernel)

end ProtocolConnection
end FlightsOptimizer
