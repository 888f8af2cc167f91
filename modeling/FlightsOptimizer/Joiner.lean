import FlightsOptimizer.Callback
import FlightsOptimizer.Connection

/-!
# Joiner

The joiner adds to each flight the coordinates of its two airports. LatLong fills
in the airports of each client from a thread of its own, so a batch may come before
they are there; the first row that lacks one makes the whole batch go back to the
queue. What the joiner of a client has found once it keeps.

Both threads hold the lock of the state for one insertion or one lookup, so these
are the steps that interleave. The rest of a callback touches nothing that LatLong
touches, and is done with its last lookup.
-/
namespace FlightsOptimizer.Joiner
open Logger Receiver Connection
open Eof (ReplicaId)

/-- Latitude and longitude. -/
abbrev Coordinates : Type := String × String

abbrev Airports : Type := Dict String Coordinates

structure State where
  airportsByClient : Dict ClientId Airports

namespace State

def clientAirports (c : ClientId) (s : State) : Airports := s.airportsByClient.getD c .empty

def addAirport (c : ClientId) (airportCode : String) (coordinates : Coordinates) (s : State) :
    State :=
  ⟨s.airportsByClient.set c ((s.clientAirports c).set airportCode coordinates)⟩

def obtainClientAirport (c : ClientId) (airportCode : String) (s : State) : Option Coordinates :=
  (s.clientAirports c).get? airportCode

end State

/-- A row, with the fields that the receiver parses for the joiner. -/
structure Flight where
  legId : String
  startingAirport : String
  destinationAirport : String
  totalTravelDistance : String

structure JoinedFlight where
  legId : String
  startingAirport : String
  destinationAirport : String
  totalTravelDistance : String
  startingLatitude : String
  startingLongitude : String
  destinationLatitude : String
  destinationLongitude : String

/-- With the airports that the joiner of the client keeps. -/
def obtainAirportLatLong (c : ClientId) (airportCode : String) (state : State)
    (airports : Airports) : Option Coordinates × Airports :=
  match airports.get? airportCode with
  | some airport => (some airport,airports)
  | none =>
      match state.obtainClientAirport c airportCode with
      | some airport => (some airport,airports.set airportCode airport)
      | none => (none,airports)

def processFlight (flight : Flight)
    (startingAirportLatLong destinationAirportLatLong : Coordinates) : JoinedFlight where
  legId := flight.legId
  startingAirport := flight.startingAirport
  destinationAirport := flight.destinationAirport
  totalTravelDistance := flight.totalTravelDistance
  startingLatitude := startingAirportLatLong.1
  startingLongitude := startingAirportLatLong.2
  destinationLatitude := destinationAirportLatLong.1
  destinationLongitude := destinationAirportLatLong.2

/-- The end of `process`, when both airports have been looked up. -/
def response (flight : Flight) :
    Option Coordinates → Option Coordinates → Response JoinedFlight
  | some starting,some destination => .single (processFlight flight starting destination)
  | _,_ => .notReady

/-- The rows of a batch; `split` gives one at least. -/
abbrev Rows : Type := {rows : List Flight // rows ≠ []}

/-- The loop of `Connection.process`: the rows from the one at hand on, what the
lookup of its first airport gave, and what the rows before it were answered. -/
structure Loop where
  delivery : Delivery Rows
  left : List Flight
  startingAirportLatLong : Option (Option Coordinates)
  processedMessages : List JoinedFlight

inductive Thread where
  | waiting
  | processing (loop : Loop)

/-- A message of the joiner. -/
structure Message where
  clientId : ClientId
  messageId : MessageId
  payload : List JoinedFlight

/-- `answered` has the acks of the callbacks that are done, the last one first. -/
structure System where
  state : State
  processors : Dict ClientId Airports
  replica : Replica Rows
  sent : List Message
  answered : List AckType
  thread : Thread

/-- Any batch may be received when no other is in process, one that went back before
too. -/
inductive Event where
  | addAirport (c : ClientId) (airportCode : String) (coordinates : Coordinates)
  | receive (d : Delivery Rows)
  | lookup

namespace System
variable (cfg : Eof.Config)

def processor (c : ClientId) (s : System) : Airports := s.processors.getD c .empty

/-- The end of a callback, with `processed_messages`, or none where a row was not
ready. -/
def finish (d : Delivery Rows) (processedMessages : Option (List JoinedFlight)) (s : System) :
    System :=
  let handling := handlingQueue (processedMessages.map fun messages => (messages,false))
  {s with
    replica := (Receiver.process cfg startsWithId).execAll (callback cfg d handling)
      (deliver d s.replica)
    sent := s.sent ++ List.replicate handling.sends
      ⟨d.clientId,d.messageId,processedMessages.getD []⟩
    answered := (if handling.ready then .ack else .nack) :: s.answered
    thread := .waiting}

/-- The answer to a row goes to `processed_messages`, or ends the loop. -/
def answerRow (loop : Loop) (left : List Flight) (s : System) : Response JoinedFlight → System
  | .single message =>
      let processedMessages := loop.processedMessages ++ [message]
      if left = [] then s.finish cfg loop.delivery (some processedMessages)
      else {s with thread := .processing ⟨loop.delivery,left,none,processedMessages⟩}
  | _ => s.finish cfg loop.delivery none

/-- One lookup of an airport, with what follows it up to the next. -/
def lookup (loop : Loop) (s : System) : Option System :=
  let c := loop.delivery.clientId
  match loop.left,loop.startingAirportLatLong with
  | [],_ => none
  | flight :: _,none =>
      let starting := obtainAirportLatLong c flight.startingAirport s.state (s.processor c)
      some {s with
        processors := s.processors.set c starting.2
        thread := .processing {loop with startingAirportLatLong := some starting.1}}
  | flight :: left,some starting =>
      let destination := obtainAirportLatLong c flight.destinationAirport s.state (s.processor c)
      some (answerRow cfg loop left {s with processors := s.processors.set c destination.2}
        (response flight starting destination.1))

def step (s : System) : Event → Option System
  | .addAirport c airportCode coordinates =>
      some {s with state := s.state.addAirport c airportCode coordinates}
  | .receive d =>
      match s.thread with
      | .waiting => some {s with
          processors := s.processors.set d.clientId (s.processor d.clientId)
          thread := .processing ⟨d,d.payload.val,none,[]⟩}
      | .processing _ => none
  | .lookup =>
      match s.thread with
      | .waiting => none
      | .processing loop => s.lookup cfg loop

def steps (es : List Event) (s : System) : Option System := es.foldlM (step cfg) s

end System

/-- Each airport code of a client always comes with the same coordinates. -/
def Event.Consistent (coordinates : ClientId → String → Coordinates) : Event → Prop
  | .addAirport c airportCode airport => airport = coordinates c airportCode
  | _ => True

/-- An event of a callback that has been begun: the other thread's or its own. -/
def Event.within : Event → Bool
  | .receive _ => false
  | _ => true

def Event.isLookup : Event → Bool
  | .lookup => true
  | _ => false

def State.Consistent (coordinates : ClientId → String → Coordinates) (s : State) : Prop :=
  ∀ c airportCode airport, s.obtainClientAirport c airportCode = some airport →
    airport = coordinates c airportCode

/-- The system after any events. It begins with what LatLong and the receiver have
restored. -/
inductive Run (cfg : Eof.Config) (coordinates : ClientId → String → Coordinates) :
    System → Prop
  | init {state : State} {replica : Replica Rows} :
      state.Consistent coordinates → replica.memory.sender.isSome = true →
        Run cfg coordinates ⟨state,.empty,replica,[],[],.waiting⟩
  | step {s s' : System} {e : Event} :
      Run cfg coordinates s → e.Consistent coordinates → s.step cfg e = some s' →
        Run cfg coordinates s'

/-- `ConnectionConfig` and receiver of the flights, as `main` makes them. -/
def config (replicaId : ReplicaId) (replicasCount : ℕ) : Eof.Config where
  replicaId := replicaId
  replicasCount := replicasCount

structure Present (state : State) (c : ClientId) (flight : Flight) : Prop where
  starting : (state.obtainClientAirport c flight.startingAirport).isSome = true
  destination : (state.obtainClientAirport c flight.destinationAirport).isSome = true

/-- The row with the coordinates that are stored for its airports. -/
structure Joins (state : State) (c : ClientId) (flight : Flight) (message : JoinedFlight) :
    Prop where
  legId : message.legId = flight.legId
  startingAirport : message.startingAirport = flight.startingAirport
  destinationAirport : message.destinationAirport = flight.destinationAirport
  totalTravelDistance : message.totalTravelDistance = flight.totalTravelDistance
  starting : state.obtainClientAirport c flight.startingAirport =
    some (message.startingLatitude,message.startingLongitude)
  destination : state.obtainClientAirport c flight.destinationAirport =
    some (message.destinationLatitude,message.destinationLongitude)

/-- A batch that went back has left no trace in the counters or in a saved record. -/
structure Untouched (s s' : System) : Prop where
  sent : s'.sent = s.sent
  messagesReceived : s'.replica.memory.messagesReceived = s.replica.memory.messagesReceived
  sender : s'.replica.memory.sender = s.replica.memory.sender
  records : LogGrammar.records s'.replica.files.communication =
    LogGrammar.records s.replica.files.communication

/-- One message with all rows in order. -/
structure Sends (s : System) (d : Delivery Rows) (s' : System) : Prop where
  message : ∃ messages, s'.sent = s.sent ++ [⟨d.clientId,d.messageId,messages⟩] ∧
    List.Forall₂ (Joins s'.state d.clientId) d.payload.val messages
  messagesReceived : s'.replica.memory.received d.clientId =
    s.replica.memory.received d.clientId + 1
  messagesSent : s'.replica.memory.sent d.clientId = s.replica.memory.sent d.clientId + 1

structure AllOrNothing (s : System) (d : Delivery Rows) (s' : System) : Prop where
  answered : s'.answered = .ack :: s.answered ∨ s'.answered = .nack :: s.answered
  accepted : (∀ flight ∈ d.payload.val, Present s.state d.clientId flight) →
    s'.answered = .ack :: s.answered
  absent : s'.answered = .nack :: s.answered →
    ∃ flight ∈ d.payload.val, ¬ Present s.state d.clientId flight
  nack : s'.answered = .nack :: s.answered → Untouched s s'
  ack : s'.answered = .ack :: s.answered → Sends s d s'

section
variable {coordinates : ClientId → String → Coordinates} {c : ClientId} {airportCode : String}
  {airport : Coordinates} {state state' : State} {airports : Airports}

theorem obtain_addAirport (c : ClientId) (airportCode : String) (airport : Coordinates)
    (state : State) (c' : ClientId) (code : String) :
    (state.addAirport c airportCode airport).obtainClientAirport c' code =
      if c = c' ∧ airportCode = code then some airport
      else state.obtainClientAirport c' code := by
  unfold State.addAirport State.obtainClientAirport State.clientAirports
  rw [Dict.getD_set]
  by_cases hc : c = c'
  · subst hc
    simp only [if_true,true_and]
    exact Dict.get?_set _ _ _ _
  · rw [if_neg hc,if_neg fun h => hc h.1]

/-- What is stored stays stored. -/
def State.Extends (state state' : State) : Prop :=
  ∀ c airportCode airport, state.obtainClientAirport c airportCode = some airport →
    state'.obtainClientAirport c airportCode = some airport

theorem State.Extends.refl (state : State) : state.Extends state := fun _ _ _ h => h

theorem State.Consistent.addAirport (h : state.Consistent coordinates)
    (hairport : airport = coordinates c airportCode) :
    (state.addAirport c airportCode airport).Consistent coordinates := by
  intro c' code airport' hobtain
  rw [obtain_addAirport] at hobtain
  split_ifs at hobtain with hsame
  · obtain ⟨rfl,rfl⟩ := hsame
    cases hobtain
    exact hairport
  · exact h c' code airport' hobtain

theorem State.Consistent.extends_addAirport (h : state.Consistent coordinates)
    (hairport : airport = coordinates c airportCode) :
    state.Extends (state.addAirport c airportCode airport) := by
  intro c' code airport' hobtain
  rw [obtain_addAirport]
  split_ifs with hsame
  · obtain ⟨rfl,rfl⟩ := hsame
    rw [h _ _ _ hobtain,hairport]
  · exact hobtain

/-- The joiner of a client has found what it keeps. -/
def Cached (state : State) (c : ClientId) (airports : Airports) : Prop :=
  ∀ airportCode airport, airports.get? airportCode = some airport →
    state.obtainClientAirport c airportCode = some airport

theorem Cached.mono (h : Cached state c airports) (hextends : state.Extends state') :
    Cached state' c airports :=
  fun airportCode airport hget => hextends c airportCode airport (h airportCode airport hget)

/-- A lookup finds what is stored, from the cache or not. -/
theorem Cached.obtainAirportLatLong_fst (h : Cached state c airports) (airportCode : String) :
    (obtainAirportLatLong c airportCode state airports).1 =
      state.obtainClientAirport c airportCode := by
  unfold obtainAirportLatLong
  cases hget : airports.get? airportCode with
  | some airport => exact (h airportCode airport hget).symm
  | none => cases state.obtainClientAirport c airportCode <;> rfl

theorem Cached.obtainAirportLatLong_snd (h : Cached state c airports) (airportCode : String) :
    Cached state c (obtainAirportLatLong c airportCode state airports).2 := by
  unfold obtainAirportLatLong
  cases airports.get? airportCode with
  | some airport => exact h
  | none =>
      cases hobtain : state.obtainClientAirport c airportCode with
      | none => exact h
      | some airport =>
          intro code airport' hget
          simp only [Dict.get?_set] at hget
          split_ifs at hget with hcode
          · subst hcode
            rw [hobtain,hget]
          · exact h code airport' hget

end

section
variable {cfg : Eof.Config} {coordinates : ClientId → String → Coordinates}
  {s₀ s s' : System} {c : ClientId} {d : Delivery Rows} {n : ℕ} {loop : Loop}

structure Kept (coordinates : ClientId → String → Coordinates) (s : System) : Prop where
  consistent : s.state.Consistent coordinates
  cached : ∀ c, Cached s.state c (s.processor c)
  sender : s.replica.memory.sender.isSome = true

theorem Kept.addAirport (h : Kept coordinates s) {airportCode : String} {airport : Coordinates}
    (hairport : airport = coordinates c airportCode) :
    Kept coordinates {s with state := s.state.addAirport c airportCode airport} where
  consistent := h.consistent.addAirport hairport
  cached := fun c' => (h.cached c').mono (h.consistent.extends_addAirport hairport)
  sender := h.sender

/-- The joiner of a client has kept more of what is stored. -/
theorem Kept.setProcessor (h : Kept coordinates s) {airports : Airports}
    (hcached : Cached s.state c airports) (thread : Thread) :
    Kept coordinates {s with processors := s.processors.set c airports, thread := thread} where
  consistent := h.consistent
  cached := by
    intro c'
    unfold System.processor
    rw [Dict.getD_set]
    split_ifs with hc
    · exact hc ▸ hcached
    · exact h.cached c'
  sender := h.sender

theorem finish_none (cfg : Eof.Config) (d : Delivery Rows) (s : System) : s.finish cfg d none =
    {s with
      replica := ⟨d.opening 0 s.replica.files,s.replica.memory.opening cfg d,
        {s.replica.history with delivered := d :: s.replica.history.delivered}⟩
      answered := .nack :: s.answered
      thread := .waiting} := by
  unfold System.finish
  have hready : Handling.notReady.ready = false := rfl
  have hcallback := callback_notReady cfg startsWithId (d := d) hready s.replica
  simp only [Option.map_none,handlingQueue,hcallback]
  simp [Handling.sends,Handling.ready]

theorem finish_some (cfg : Eof.Config) (d : Delivery Rows) {messages : List JoinedFlight}
    (hne : messages ≠ []) (s : System) : ∃ history, s.finish cfg d (some messages) =
      {s with
        replica := ⟨d.finish cfg (.done 1 false) s.replica,
          s.replica.memory.processed cfg d (.done 1 false),history⟩
        sent := s.sent ++ [⟨d.clientId,d.messageId,messages⟩]
        answered := .ack :: s.answered
        thread := .waiting} := by
  have hready : (Handling.done 1 false).ready = true := rfl
  obtain ⟨es,hcallback⟩ := callback_ready cfg startsWithId (d := d) hready s.replica
  unfold System.finish
  have hempty : messages.isEmpty = false := by simpa using hne
  simp only [Option.map_some,handlingQueue,hempty,Bool.false_eq_true,if_false,hcallback]
  exact ⟨_,rfl⟩

theorem Kept.finish (h : Kept coordinates s) (d : Delivery Rows)
    (processedMessages : Option (List JoinedFlight)) (hne : processedMessages ≠ some []) :
    Kept coordinates (s.finish cfg d processedMessages) := by
  cases processedMessages with
  | none =>
      rw [finish_none]
      refine ⟨h.consistent,h.cached,?_⟩
      rw [opening_eq]
      exact h.sender
  | some messages =>
      obtain ⟨history,hfinish⟩ := finish_some cfg d (fun he => hne (congrArg some he)) s
      rw [hfinish]
      refine ⟨h.consistent,h.cached,?_⟩
      rw [processed_eq]
      simpa using h.sender

theorem Kept.answerRow (h : Kept coordinates s) (loop : Loop) (left : List Flight)
    (response : Response JoinedFlight) : Kept coordinates (s.answerRow cfg loop left response) := by
  unfold System.answerRow
  split
  · split_ifs
    · exact h.finish loop.delivery _ (by simp)
    · exact ⟨h.consistent,h.cached,h.sender⟩
  · exact h.finish loop.delivery none nofun

theorem Kept.lookup (h : Kept coordinates s) (hs : s.lookup cfg loop = some s') :
    Kept coordinates s' := by
  unfold System.lookup at hs
  split at hs
  · cases hs
  · cases hs
    exact h.setProcessor ((h.cached _).obtainAirportLatLong_snd _) _
  · cases hs
    exact (h.setProcessor ((h.cached _).obtainAirportLatLong_snd _) s.thread).answerRow loop _ _

/-- A batch is received only while no other is in process. -/
theorem step_receive : s.step cfg (.receive d) = some s' ↔ s.thread = .waiting ∧
    s' = {s with
      processors := s.processors.set d.clientId (s.processor d.clientId)
      thread := .processing ⟨d,d.payload.val,none,[]⟩} := by
  unfold System.step
  cases s.thread with
  | waiting => simp only [Option.some.injEq,true_and,eq_comm]
  | processing loop => simp only [reduceCtorEq,false_and]

theorem step_lookup : s.step cfg .lookup = some s' ↔
    ∃ loop, s.thread = .processing loop ∧ s.lookup cfg loop = some s' := by
  unfold System.step
  cases s.thread with
  | waiting => simp only [reduceCtorEq,false_and,exists_false]
  | processing loop => simp only [Thread.processing.injEq,exists_eq_left']

theorem Kept.step (h : Kept coordinates s) {e : Event} (he : e.Consistent coordinates)
    (hs : s.step cfg e = some s') : Kept coordinates s' := by
  cases e with
  | addAirport c airportCode airport =>
      cases hs
      exact h.addAirport he
  | receive d =>
      obtain ⟨-,rfl⟩ := step_receive.mp hs
      exact h.setProcessor (h.cached d.clientId) _
  | lookup =>
      obtain ⟨loop,-,hlookup⟩ := step_lookup.mp hs
      exact h.lookup hlookup

theorem Run.kept (h : Run cfg coordinates s) : Kept coordinates s := by
  induction h with
  | init hstate hsender => exact ⟨hstate,fun c => nofun,hsender⟩
  | step _ he hs ih => exact ih.step he hs

theorem Joins.mono {state state' : State} {flight : Flight} {message : JoinedFlight}
    (h : Joins state c flight message) (hextends : state.Extends state') :
    Joins state' c flight message where
  legId := h.legId
  startingAirport := h.startingAirport
  destinationAirport := h.destinationAirport
  totalTravelDistance := h.totalTravelDistance
  starting := hextends _ _ _ h.starting
  destination := hextends _ _ _ h.destination

theorem joins_processFlight {state : State} {flight : Flight} {starting destination : Coordinates}
    (hstarting : state.obtainClientAirport c flight.startingAirport = some starting)
    (hdestination : state.obtainClientAirport c flight.destinationAirport = some destination) :
    Joins state c flight (processFlight flight starting destination) :=
  ⟨rfl,rfl,rfl,rfl,hstarting,hdestination⟩

/-- A callback of `d` that began with `s₀` and has made `n` lookups. -/
structure Progress (s₀ : System) (d : Delivery Rows) (n : ℕ) (s : System) (loop : Loop) :
    Prop where
  delivery : loop.delivery = d
  replica : s.replica = s₀.replica
  sent : s.sent = s₀.sent
  answered : s.answered = s₀.answered
  stored : s₀.state.Extends s.state
  rows : ∃ before, d.payload.val = before ++ loop.left ∧
    List.Forall₂ (Joins s.state d.clientId) before loop.processedMessages
  left : loop.left ≠ []
  found : ∀ flight ∈ loop.left.head?, ∀ airport, loop.startingAirportLatLong = some (some airport) →
    s.state.obtainClientAirport d.clientId flight.startingAirport = some airport
  missing : ∀ flight ∈ loop.left.head?, loop.startingAirportLatLong = some none →
    s₀.state.obtainClientAirport d.clientId flight.startingAirport = none
  lookups : 2 * loop.left.length + n = 2 * d.payload.val.length +
    if loop.startingAirportLatLong.isSome then 1 else 0

/-- A callback that has been begun is under way, or is done. -/
def Midway (s₀ : System) (d : Delivery Rows) (n : ℕ) (s : System) : Prop :=
  match s.thread with
  | .processing loop => Progress s₀ d n s loop
  | .waiting => AllOrNothing s₀ d s

theorem allOrNothing_of_ack (h : s'.answered = .ack :: s.answered) (hsends : Sends s d s') :
    AllOrNothing s d s' where
  answered := Or.inl h
  accepted := fun _ => h
  absent := fun hnack => by cases h.symm.trans hnack
  nack := fun hnack => by cases h.symm.trans hnack
  ack := fun _ => hsends

theorem allOrNothing_of_nack (h : s'.answered = .nack :: s.answered) {flight : Flight}
    (hflight : flight ∈ d.payload.val) (habsent : ¬ Present s.state d.clientId flight)
    (huntouched : Untouched s s') : AllOrNothing s d s' where
  answered := Or.inr h
  accepted := fun hpresent => absurd (hpresent flight hflight) habsent
  absent := fun _ => ⟨flight,hflight,habsent⟩
  nack := fun _ => huntouched
  ack := fun hack => by cases h.symm.trans hack

theorem Midway.addAirport (h : Midway s₀ d n s) (hk : Kept coordinates s) {airportCode : String}
    {airport : Coordinates} (hairport : airport = coordinates c airportCode) :
    Midway s₀ d n {s with state := s.state.addAirport c airportCode airport} := by
  have hextends := hk.consistent.extends_addAirport hairport
  unfold Midway at h ⊢
  cases hthread : s.thread with
  | processing loop =>
      simp only [hthread] at h ⊢
      obtain ⟨before,hpayload,hjoins⟩ := h.rows
      exact {
        delivery := h.delivery
        replica := h.replica
        sent := h.sent
        answered := h.answered
        stored := fun c' code x hx => hextends _ _ _ (h.stored c' code x hx)
        rows := ⟨before,hpayload,hjoins.imp fun _ _ hjoin => hjoin.mono hextends⟩
        left := h.left
        found := fun flight hflight x hx => hextends _ _ _ (h.found flight hflight x hx)
        missing := h.missing
        lookups := h.lookups}
  | waiting =>
      simp only [hthread] at h ⊢
      exact {
        answered := h.answered
        accepted := h.accepted
        absent := h.absent
        nack := fun hnack =>
          have hbefore := h.nack hnack
          ⟨hbefore.sent,hbefore.messagesReceived,hbefore.sender,hbefore.records⟩
        ack := by
          intro hack
          obtain ⟨⟨messages,hsent,hjoins⟩,hreceived,hmessagesSent⟩ := h.ack hack
          exact ⟨⟨messages,hsent,hjoins.imp fun _ _ hjoin => hjoin.mono hextends⟩,hreceived,
            hmessagesSent⟩}

theorem midway_receive (hs : s.step cfg (.receive d) = some s') : Midway s d 0 s' := by
  obtain ⟨-,rfl⟩ := step_receive.mp hs
  exact {
    delivery := rfl
    replica := rfl
    sent := rfl
    answered := rfl
    stored := State.Extends.refl _
    rows := ⟨[],rfl,.nil⟩
    left := d.payload.property
    found := nofun
    missing := nofun
    lookups := rfl}

/-- A row that is not ready sends the batch back. -/
theorem Progress.finish_none (cfg : Eof.Config) (h : Progress s₀ d n s loop) {flight : Flight}
    {left : List Flight} (hleft : loop.left = flight :: left)
    (habsent : ¬ Present s₀.state d.clientId flight) :
    AllOrNothing s₀ d (s.finish cfg loop.delivery none) := by
  obtain ⟨before,hpayload,-⟩ := h.rows
  have hflight : flight ∈ d.payload.val := by
    rw [hpayload,hleft]
    exact List.mem_append_right _ List.mem_cons_self
  rw [Joiner.finish_none,h.answered]
  refine allOrNothing_of_nack rfl hflight habsent ⟨h.sent,?_,?_,?_⟩
  · rw [opening_eq,h.replica]
  · rw [opening_eq,h.replica]
  · rw [h.replica]
    exact records_opened _ _ _ _

/-- The last row completes the message. -/
theorem Progress.finish_some (h : Progress s₀ d n s loop) (hk : Kept coordinates s)
    {flight : Flight} (hleft : loop.left = [flight]) {message : JoinedFlight}
    (hjoins : Joins s.state d.clientId flight message) : AllOrNothing s₀ d
      (s.finish cfg loop.delivery (some (loop.processedMessages ++ [message]))) := by
  obtain ⟨before,hpayload,hbefore⟩ := h.rows
  obtain ⟨history,hfinish⟩ := Joiner.finish_some cfg loop.delivery
    (List.append_ne_nil_of_right_ne_nil loop.processedMessages (List.cons_ne_nil message [])) s
  rw [hfinish,h.delivery,h.answered,h.sent]
  refine allOrNothing_of_ack rfl ⟨⟨_,rfl,?_⟩,?_,?_⟩
  · rw [hpayload,hleft]
    exact List.rel_append hbefore (.cons hjoins .nil)
  · rw [received_processed,if_pos rfl,h.replica]
  · rw [sent_processed cfg d _ hk.sender,if_pos rfl,h.replica]
    rfl

/-- A lookup that finds nothing has found nothing at the beginning. -/
theorem Progress.absent (h : Progress s₀ d n s loop) {airportCode : String}
    (hnone : s.state.obtainClientAirport d.clientId airportCode = none) :
    s₀.state.obtainClientAirport d.clientId airportCode = none := by
  cases hobtain : s₀.state.obtainClientAirport d.clientId airportCode with
  | none => rfl
  | some airport =>
      rw [h.stored _ _ _ hobtain] at hnone
      cases hnone

theorem Progress.setProcessors (h : Progress s₀ d n s loop)
    (processors : Dict ClientId Airports) :
    Progress s₀ d n {s with processors := processors} loop :=
  ⟨h.delivery,h.replica,h.sent,h.answered,h.stored,h.rows,h.left,h.found,h.missing,h.lookups⟩

/-- The loop keeps the lookup of the first airport until that of the second. -/
theorem Progress.lookup_starting (h : Progress s₀ d n s loop) {left : List Flight}
    (hleft : loop.left = flight :: left) (hnone : loop.startingAirportLatLong = none)
    (processors : Dict ClientId Airports) :
    Midway s₀ d (n + 1) {s with
      processors := processors
      thread := .processing ⟨loop.delivery,loop.left,
        some (s.state.obtainClientAirport d.clientId flight.startingAirport),
        loop.processedMessages⟩} where
  delivery := h.delivery
  replica := h.replica
  sent := h.sent
  answered := h.answered
  stored := h.stored
  rows := h.rows
  left := h.left
  found := by
    intro flight' hflight airport hairport
    rw [hleft,List.head?_cons,Option.mem_some_iff] at hflight
    rw [← hflight]
    exact Option.some.inj hairport
  missing := by
    intro flight' hflight hmissing
    rw [hleft,List.head?_cons,Option.mem_some_iff] at hflight
    rw [← hflight]
    exact h.absent (Option.some.inj hmissing)
  lookups := by
    have hlookups := h.lookups
    rw [hnone] at hlookups
    simp only [Option.isSome_none,Option.isSome_some,Bool.false_eq_true,if_false,if_true]
      at hlookups ⊢
    omega

theorem answerRow_single (loop : Loop) (left : List Flight) (message : JoinedFlight)
    (s : System) : s.answerRow cfg loop left (.single message) =
      if left = [] then s.finish cfg loop.delivery (some (loop.processedMessages ++ [message]))
      else {s with thread :=
        .processing ⟨loop.delivery,left,none,loop.processedMessages ++ [message]⟩} := rfl

/-- Behind the second lookup the row is answered. -/
theorem Progress.answerRow (h : Progress s₀ d n s loop) (hk : Kept coordinates s)
    {flight : Flight} {left : List Flight} (hleft : loop.left = flight :: left)
    {starting : Option Coordinates} (hstarting : loop.startingAirportLatLong = some starting) :
    Midway s₀ d (n + 1) (s.answerRow cfg loop left (response flight starting
      (s.state.obtainClientAirport d.clientId flight.destinationAirport))) := by
  have hhead : flight ∈ loop.left.head? := by
    rw [hleft]
    rfl
  cases starting with
  | none =>
      have habsent := h.missing flight hhead hstarting
      have hdone := h.finish_none cfg hleft fun hpresent => by
        have hsome := hpresent.starting
        rw [habsent] at hsome
        cases hsome
      exact hdone
  | some airport =>
      have hfound := h.found flight hhead airport hstarting
      cases hdestination : s.state.obtainClientAirport d.clientId flight.destinationAirport with
      | none =>
          have hdone := h.finish_none cfg hleft fun hpresent => by
            have hsome := hpresent.destination
            rw [h.absent hdestination] at hsome
            cases hsome
          exact hdone
      | some airport' =>
          have hjoins := joins_processFlight hfound hdestination
          change Midway s₀ d (n + 1) (s.answerRow cfg loop left (.single _))
          rw [answerRow_single]
          by_cases hnil : left = []
          · rw [hnil] at hleft
            rw [if_pos hnil]
            exact h.finish_some hk hleft hjoins
          · rw [if_neg hnil]
            obtain ⟨before,hpayload,hbefore⟩ := h.rows
            have hlookups := h.lookups
            rw [hleft,hstarting,List.length_cons,Option.isSome_some,if_pos rfl] at hlookups
            exact {
              delivery := h.delivery
              replica := h.replica
              sent := h.sent
              answered := h.answered
              stored := h.stored
              rows := by
                refine ⟨before ++ [flight],?_,List.rel_append hbefore (.cons hjoins .nil)⟩
                rw [hpayload,hleft,List.append_assoc]
                rfl
              left := hnil
              found := nofun
              missing := nofun
              lookups := by
                simp only [Option.isSome_none,Bool.false_eq_true,if_false]
                omega}

theorem Progress.lookup (h : Progress s₀ d n s loop) (hk : Kept coordinates s)
    (hs : s.lookup cfg loop = some s') : Midway s₀ d (n + 1) s' := by
  have hobtain : ∀ airportCode, (obtainAirportLatLong d.clientId airportCode s.state
      (s.processor d.clientId)).1 = s.state.obtainClientAirport d.clientId airportCode :=
    fun airportCode => (hk.cached d.clientId).obtainAirportLatLong_fst airportCode
  have hcached := fun airportCode => (hk.cached d.clientId).obtainAirportLatLong_snd airportCode
  obtain ⟨delivery,rows,startingAirport,messages⟩ := loop
  obtain rfl : delivery = d := h.delivery
  cases rows with
  | nil => exact absurd rfl h.left
  | cons flight left =>
      cases startingAirport with
      | none =>
          simp only [System.lookup,hobtain] at hs
          cases hs
          exact h.lookup_starting rfl rfl _
      | some starting =>
          simp only [System.lookup,hobtain] at hs
          cases hs
          have hprogress := h.setProcessors
            (s.processors.set delivery.clientId (obtainAirportLatLong delivery.clientId
              flight.destinationAirport s.state (s.processor delivery.clientId)).2)
          exact hprogress.answerRow (hk.setProcessor (hcached flight.destinationAirport) s.thread)
            rfl rfl

theorem Midway.step (h : Midway s₀ d n s) (hk : Kept coordinates s) {e : Event}
    (he : e.Consistent coordinates) (hwithin : e.within = true) (hs : s.step cfg e = some s') :
    Midway s₀ d (n + if e.isLookup then 1 else 0) s' := by
  cases e with
  | addAirport c airportCode airport =>
      cases hs
      exact h.addAirport hk he
  | receive d => cases hwithin
  | lookup =>
      obtain ⟨loop,hthread,hlookup⟩ := step_lookup.mp hs
      unfold Midway at h
      simp only [hthread] at h
      exact h.lookup hk hlookup

theorem Midway.steps {es : List Event} (h : Midway s₀ d n s) (hk : Kept coordinates s)
    (he : ∀ e ∈ es, e.Consistent coordinates ∧ e.within = true)
    (hs : s.steps cfg es = some s') : Midway s₀ d (n + es.countP Event.isLookup) s' := by
  induction es generalizing n s with
  | nil =>
      cases hs
      exact h
  | cons e es ih =>
      unfold System.steps at hs
      rw [List.foldlM_cons] at hs
      obtain ⟨t,ht,hs⟩ := Option.bind_eq_some_iff.mp hs
      obtain ⟨hconsistent,hwithin⟩ := he e List.mem_cons_self
      have hrest := ih (h.step hk hconsistent hwithin ht) (hk.step hconsistent ht)
        (fun e' he' => he e' (List.mem_cons_of_mem e he')) hs
      rw [List.countP_cons,Nat.add_comm (es.countP _),← Nat.add_assoc]
      exact hrest

/-- A loop has another lookup to make, until it has made two for each row. -/
theorem Progress.exists_lookup (cfg : Eof.Config) (h : Progress s₀ d n s loop) :
    (∃ s', s.lookup cfg loop = some s') ∧ n < 2 * d.payload.val.length := by
  have hlookups := h.lookups
  have hleft := h.left
  obtain ⟨delivery,rows,startingAirport,messages⟩ := loop
  cases rows with
  | nil => exact absurd rfl hleft
  | cons flight left =>
      rw [List.length_cons] at hlookups
      cases startingAirport with
      | none =>
          simp only [Option.isSome_none,Bool.false_eq_true,if_false] at hlookups
          exact ⟨⟨_,rfl⟩,by omega⟩
      | some starting =>
          simp only [Option.isSome_some,if_true] at hlookups
          exact ⟨⟨_,rfl⟩,by omega⟩

end

/-- For any insertions between the lookups of a callback: it comes to its end, and
there the batch has been answered as a whole. -/
theorem batch_allOrNothing {replicaId : ReplicaId} {replicasCount : ℕ}
    {coordinates : ClientId → String → Coordinates} {s s' : System} {d : Delivery Rows}
    {es : List Event} (h : Run (config replicaId replicasCount) coordinates s)
    (he : ∀ e ∈ es, e.Consistent coordinates ∧ e.within = true)
    (hs : s.steps (config replicaId replicasCount) (.receive d :: es) = some s') :
    (s'.thread = .waiting ∧ AllOrNothing s d s') ∨
      (s'.step (config replicaId replicasCount) .lookup).isSome = true ∧
        es.countP Event.isLookup < 2 * d.payload.val.length := by
  unfold System.steps at hs
  rw [List.foldlM_cons] at hs
  obtain ⟨t,ht,hs⟩ := Option.bind_eq_some_iff.mp hs
  have hkept := h.kept.step (e := .receive d) trivial ht
  have hmidway := (midway_receive ht).steps hkept he hs
  rw [Nat.zero_add] at hmidway
  unfold Midway at hmidway
  cases hthread : s'.thread with
  | waiting =>
      simp only [hthread] at hmidway
      exact Or.inl ⟨rfl,hmidway⟩
  | processing loop =>
      simp only [hthread] at hmidway
      obtain ⟨⟨s'',hlookup⟩,hlt⟩ := hmidway.exists_lookup (config replicaId replicasCount)
      rw [step_lookup.mpr ⟨loop,hthread,hlookup⟩]
      exact Or.inr ⟨rfl,hlt⟩

/-- Client 1 with one airport. -/
def oneAirport : System where
  state := State.addAirport 1 "A" ("10","20") ⟨.empty⟩
  processors := .empty
  replica := fresh (config 1 1)
  sent := []
  answered := []
  thread := .waiting

def twoFlights : Delivery Rows :=
  ⟨0,7,1,⟨[⟨"x","A","A","5"⟩,⟨"y","A","B","6"⟩],by simp⟩,false,false⟩

/-- The second airport comes while the first flight is joined. -/
theorem batch_allOrNothing_twoFlights : ∃ s', oneAirport.steps (config 1 1)
      [.receive twoFlights,.lookup,.addAirport 1 "B" ("30","40"),.lookup,.lookup,.lookup] = some s' ∧
    s'.thread = .waiting ∧ AllOrNothing oneAirport twoFlights s' := by
  obtain ⟨s',hs⟩ : ∃ s', oneAirport.steps (config 1 1) [.receive twoFlights,.lookup,
    .addAirport 1 "B" ("30","40"),.lookup,.lookup,.lookup] = some s' := ⟨_,rfl⟩
  refine ⟨s',hs,?_⟩
  have hconsistent : ∀ e ∈ [Event.lookup,.addAirport 1 "B" ("30","40"),.lookup,.lookup,.lookup],
      e.Consistent (fun _ code => if code = "A" then ("10","20") else ("30","40")) ∧
        e.within = true := by
    simp [Event.Consistent,Event.within]
  have hrun : Run (config 1 1) (fun _ code => if code = "A" then ("10","20") else ("30","40"))
      oneAirport := by
    refine .init ?_ rfl
    refine State.Consistent.addAirport ?_ rfl
    exact nofun
  rcases batch_allOrNothing hrun hconsistent hs with h | ⟨-,hlt⟩
  · exact h
  · exact absurd hlt (by decide)

end FlightsOptimizer.Joiner
