import FlightsOptimizer.Hop
import FlightsOptimizer.Joiner

/-!
# Processors that answer rows

`Filter`, `TresEscalasOMas`, `Joiner`, `Distancias` and `Tagger`, and what their
receiver and sender do around them. An exception, of the processor or of the sender,
is caught and logged in `handle_protocol`: the message is acknowledged, and nothing
of it is sent on.
-/
namespace FlightsOptimizer.RowProcessors
open Text LoggerText Statefull Connection Hop

/-- What `process` does with a message. -/
inductive Answer (α : Type) where
  | raised
  | answered (response : Option (Response α))

/-- `process` on a message, with the processor before and after. -/
abbrev RowProcessor (σ μ α : Type) := μ → σ → Answer α × σ

/-- How the loop of `Connection.process` over a payload ends. -/
inductive Collected (α : Type) where
  | raised
  | notReady
  | done (processedMessages : List α)

section
variable {σ μ α : Type}

def Collected.prepend (as : List α) : Collected α → Collected α
  | .raised => .raised
  | .notReady => .notReady
  | .done rest => .done (as ++ rest)

/-- The loop. Whether an EOF is asked for does not matter to the data. -/
def collect (p : RowProcessor σ μ α) : List μ → σ → Collected α × σ
  | [],s => (.done [],s)
  | m :: ms,s =>
      let answer := p m s
      match answer.1 with
      | .raised => (.raised,answer.2)
      | .answered none => collect p ms answer.2
      | .answered (some .notReady) => (.notReady,answer.2)
      | .answered (some (.single a)) | .answered (some (.sendEof a)) =>
          let rest := collect p ms answer.2
          (rest.1.prepend [a],rest.2)
      | .answered (some (.multiple as)) =>
          let rest := collect p ms answer.2
          (rest.1.prepend as,rest.2)

/-- A receiver, a processor and a sender: what the receiver makes of a payload, and
how the sender joins the answers, which may raise. -/
structure RowStage (σ μ α : Type) where
  processor : RowProcessor σ μ α
  payload : Text → List μ
  join : List α → Option Text
  resultTagId : Option (Word 1)

/-- The ids and the payload of a data message. -/
def receive (bytes : Bytes) : Option (Word 8 × Word 8 × Text) := do
  let message ← Queue.Message.fromBytes bytes
  match message.body with
  | .protocol messageId payload => some (message.clientId,messageId,payload.toList)
  | .protocolResult _ messageId payload => some (message.clientId,messageId,payload.toList)
  | _ => none

/-- `callback` on a data message: what is published before the message is
acknowledged. It is not acknowledged when it cannot be read, or is not ready. -/
def RowStage.handle (g : RowStage σ μ α) (bytes : Bytes) (s : σ) : Option (List Bytes) × σ :=
  match receive bytes with
  | none => (none,s)
  | some (clientId,messageId,text) =>
      let answer := collect g.processor (g.payload text) s
      match answer.1 with
      | .raised => (some [],answer.2)
      | .notReady => (none,answer.2)
      | .done processedMessages =>
          if processedMessages.isEmpty then (some [],answer.2)
          else
            let sent := (g.join processedMessages).bind fun payload =>
              (Batch.message (V := Text) ⟨clientId,messageId,g.resultTagId,[]⟩ payload).toBytes
            (some sent.toList,answer.2)

/-- Messages that a replica takes one after the other, with a processor for each
client that starts as `fresh`. -/
def RowStage.answers (g : RowStage σ μ α) (fresh : σ) :
    List Bytes → Dict (Word 8) σ → List (Option (List Bytes))
  | [],_ => []
  | bytes :: rest,processors =>
      match receive bytes with
      | none => none :: g.answers fresh rest processors
      | some (clientId,_,_) =>
          let answer := g.handle bytes (processors.getD clientId fresh)
          answer.1 :: g.answers fresh rest (processors.set clientId answer.2)

/-- The payload that is sent on, if any. -/
def RowStage.output (g : RowStage σ μ α) (text : Text) (s : σ) : Option Text :=
  match (collect g.processor (g.payload text) s).1 with
  | .done (a :: as) => g.join (a :: as)
  | _ => none

/-- The bytes of a data message. -/
def dataBytes (clientId messageId : Word 8) (tagId : Option (Word 1)) (text : Text) : Bytes :=
  ((Batch.message (V := Text) ⟨clientId,messageId,tagId,[]⟩ text).toBytes).getD []

theorem toBytes_dataBytes (c i : Word 8) (tagId : Option (Word 1)) (text : Text) :
    (Batch.message (V := Text) ⟨c,i,tagId,[]⟩ text).toBytes = some (dataBytes c i tagId text) ∧
      Queue.Message.fromBytes (dataBytes c i tagId text) =
        some (Batch.message (V := Text) ⟨c,i,tagId,[]⟩ text) := by
  obtain ⟨bytes,hbytes,hread⟩ := Queue.Message.fromBytes_toBytes
    (countsFit_message (V := Text) ⟨c,i,tagId,[]⟩ text)
  unfold dataBytes
  rw [hbytes]
  exact ⟨rfl,hread⟩

@[simp] theorem receive_dataBytes (c i : Word 8) (tagId : Option (Word 1)) (text : Text) :
    receive (dataBytes c i tagId text) = some (c,i,text) := by
  unfold receive
  rw [(toBytes_dataBytes c i tagId text).2]
  cases tagId <;> simp [Batch.message]

/-- The bytes tell the ids, the tag and the payload. -/
theorem dataBytes_inj {c c' i i' : Word 8} {tagId tagId' : Option (Word 1)} {text text' : Text}
    (h : dataBytes c i tagId text = dataBytes c' i' tagId' text') :
    c = c' ∧ i = i' ∧ tagId = tagId' ∧ text = text' := by
  have hread := (toBytes_dataBytes c i tagId text).2
  rw [h,(toBytes_dataBytes c' i' tagId' text').2,Option.some.injEq] at hread
  cases tagId <;> cases tagId' <;>
    simp only [Batch.message,Queue.Message.mk.injEq,reduceCtorEq,and_false,
      Queue.Body.protocol.injEq,Queue.Body.protocolResult.injEq,String.ofList_inj] at hread
  · exact ⟨hread.1.symm,hread.2.1.symm,rfl,hread.2.2.symm⟩
  · obtain ⟨hc,htag,hi,htext⟩ := hread
    exact ⟨hc.symm,hi.symm,by rw [htag],htext.symm⟩

/-- The message is given back exactly if it cannot be read or is not ready. -/
theorem RowStage.handle_eq {g : RowStage σ μ α} {bytes : Bytes} {s : σ} {out : List Bytes}
    (h : (g.handle bytes s).1 = some out) : ∃ c i text, receive bytes = some (c,i,text) ∧
      (collect g.processor (g.payload text) s).1 ≠ .notReady ∧
      out = ((g.output text s).map (dataBytes c i g.resultTagId)).toList := by
  unfold RowStage.handle at h
  cases hreceive : receive bytes with
  | none => simp [hreceive] at h
  | some data =>
      obtain ⟨c,i,text⟩ := data
      refine ⟨c,i,text,rfl,?_⟩
      simp only [hreceive] at h
      unfold RowStage.output
      cases hcollect : (collect g.processor (g.payload text) s).1 with
      | notReady => simp [hcollect] at h
      | raised =>
          simp only [hcollect,Option.some.injEq] at h
          exact ⟨nofun,h.symm⟩
      | done as =>
          refine ⟨nofun,?_⟩
          cases as with
          | nil =>
              simp only [hcollect,List.isEmpty_nil,if_true,Option.some.injEq] at h
              exact h.symm
          | cons a as =>
              simp only [hcollect,List.isEmpty_cons,Bool.false_eq_true,if_false,
                Option.some.injEq] at h
              rw [← h]
              cases hjoin : g.join (a :: as) with
              | none => simp only [hjoin,Option.bind_none,Option.map_none]
              | some payload =>
                  simp only [hjoin,Option.bind_some,Option.map_some,(toBytes_dataBytes c i _ payload).1]

end

/-- `send_all` with output fields. -/
def joinRows (outputFields : List Text) (rows : List Row) : Option Text :=
  (rows.mapM (serialize id outputFields)).map ['\n'].intercalate

/-- `send_all` without output fields. -/
def joinTexts (texts : List Text) : Option Text := some (['\n'].intercalate texts)

def filter (outputFields : List Text) : RowProcessor Unit Row Row := fun message s =>
  match outputFields.mapM fun field => (message.get? field).map fun value => (field,value) with
  | none => (.raised,s)
  | some filteredMessage => (.answered (some (.single (dict filteredMessage))),s)

/-- The last arrival is the destination, and no stopover. -/
def tresEscalasOMas : RowProcessor Unit Row Row := fun message s =>
  match field "segmentsArrivalAirportCode" message with
  | none => (.raised,s)
  | some segmentsArrivalAirportCode =>
      let stopover := (split ['|','|'] segmentsArrivalAirportCode).length - 1
      (.answered (if 3 ≤ stopover then some (.single message) else none),s)

def tagger (tagName : Text) : RowProcessor Unit Text Text := fun message s =>
  (.answered (some (.single ('[' :: tagName ++ ']' :: message))),s)

/-- Latitude and longitude. -/
abbrev Coordinates := Text × Text

/-- `float`, `geodesic(..).miles`, both of which may raise, and whether a total
distance is more than four times another. -/
structure Measures (F : Type) where
  float : Text → Option F
  geodesic : Coordinates → Coordinates → Option F
  exceeds : F → F → Bool

section
variable {F : Type} (w : Measures F)

/-- With the distances that were computed before. -/
def distance (destinationAirport startingAirport : Coordinates)
    (cache : Dict (Coordinates × Coordinates) F) :
    Option F × Dict (Coordinates × Coordinates) F :=
  match cache.get? (startingAirport,destinationAirport) with
  | some distanceBetweenAirports => (some distanceBetweenAirports,cache)
  | none =>
      match w.geodesic startingAirport destinationAirport with
      | none => (none,cache)
      | some distanceBetweenAirports =>
          (some distanceBetweenAirports,
            cache.set (startingAirport,destinationAirport) distanceBetweenAirports)

/-- The two airports of a joined row, the starting one first. -/
def airports (message : Row) : Option (Coordinates × Coordinates) := do
  let startingLatitude ← field "startingLatitude" message
  let startingLongitude ← field "startingLongitude" message
  let destinationLatitude ← field "destinationLatitude" message
  let destinationLongitude ← field "destinationLongitude" message
  some ((startingLatitude,startingLongitude),(destinationLatitude,destinationLongitude))

/-- The row that is sent. -/
def distanceRow (message : Row) : Option Row := do
  let legId ← field "legId" message
  let startingAirport ← field "startingAirport" message
  let destinationAirport ← field "destinationAirport" message
  let totalTravelDistance ← field "totalTravelDistance" message
  some (dict [("legId".toList,legId),("startingAirport".toList,startingAirport),
    ("destinationAirport".toList,destinationAirport),
    ("totalTravelDistance".toList,totalTravelDistance)])

/-- `process` once the distance is known. -/
def compare (message : Row) (distanceBetweenAirports : F) : Answer Row :=
  match field "totalTravelDistance" message with
  | none => .raised
  | some [] => .answered none
  | some totalDistance =>
      match w.float totalDistance with
      | none => .raised
      | some total =>
          if w.exceeds total distanceBetweenAirports then
            match distanceRow message with
            | none => .raised
            | some row => .answered (some (.single row))
          else .answered none

def distancias : RowProcessor (Dict (Coordinates × Coordinates) F) Row Row := fun message cache =>
  match airports message with
  | none => (.raised,cache)
  | some (startingAirport,destinationAirport) =>
      let known := distance w destinationAirport startingAirport cache
      match known.1 with
      | none => (.raised,known.2)
      | some distanceBetweenAirports => (compare w message distanceBetweenAirports,known.2)

end

def joinedRow (flight : Joiner.JoinedFlight) : Row :=
  dict [("legId".toList,flight.legId.toList),
    ("startingAirport".toList,flight.startingAirport.toList),
    ("destinationAirport".toList,flight.destinationAirport.toList),
    ("totalTravelDistance".toList,flight.totalTravelDistance.toList),
    ("startingLatitude".toList,flight.startingLatitude.toList),
    ("startingLongitude".toList,flight.startingLongitude.toList),
    ("destinationLatitude".toList,flight.destinationLatitude.toList),
    ("destinationLongitude".toList,flight.destinationLongitude.toList)]

/-- The end of `process`, with what the lookups gave. -/
def join (message : Row) (startingAirportCode destinationAirportCode : Text) :
    Option Joiner.Coordinates → Option Joiner.Coordinates → Answer Row
  | some starting,some destination =>
      match field "legId" message,field "totalTravelDistance" message with
      | some legId,some totalTravelDistance =>
          .answered (some (.single (joinedRow (Joiner.processFlight
            ⟨.ofList legId,.ofList startingAirportCode,.ofList destinationAirportCode,
              .ofList totalTravelDistance⟩ starting destination))))
      | _,_ => .raised
  | _,_ => .answered (some .notReady)

/-- A row, with the state that LatLong shares as it is at each of the two lookups. -/
def joiner (c : Word 8) :
    RowProcessor Joiner.Airports (Row × Joiner.State × Joiner.State) Row := fun message airports =>
  match field "startingAirport" message.1,field "destinationAirport" message.1 with
  | some startingAirportCode,some destinationAirportCode =>
      let starting := Joiner.obtainAirportLatLong c (.ofList startingAirportCode) message.2.1 airports
      let destination :=
        Joiner.obtainAirportLatLong c (.ofList destinationAirportCode) message.2.2 starting.2
      (join message.1 startingAirportCode destinationAirportCode starting.1 destination.1,
        destination.2)
  | _,_ => (.raised,airports)

/-- A processor without a memory. -/
def stateless {μ α : Type} (f : μ → Answer α) : RowProcessor Unit μ α := fun m s => (f m,s)

/-- If a processor answers each message as one without a memory does, or is not
ready, so it does over a payload. -/
theorem collect_stateless {σ μ μ' α : Type} {p : RowProcessor σ μ α} {f : μ' → Answer α}
    {R : μ → μ' → Prop} {Holds : σ → Prop}
    (h : ∀ m m' s, R m m' → Holds s → Holds (p m s).2 ∧
      ((p m s).1 = .answered (some .notReady) ∨ (p m s).1 = f m'))
    {ms : List μ} {ms' : List μ'} (hms : List.Forall₂ R ms ms') {s : σ} (hs : Holds s) :
    Holds (collect p ms s).2 ∧ ((collect p ms s).1 = .notReady ∨
      (collect p ms s).1 = (collect (stateless f) ms' ()).1) := by
  induction hms generalizing s with
  | nil => exact ⟨hs,Or.inr rfl⟩
  | @cons m m' ms ms' hm _ ih =>
      obtain ⟨hnext,hanswer⟩ := h m m' s hm hs
      obtain ⟨hrest,hcollect⟩ := ih hnext
      simp only [collect]
      rcases hanswer with hanswer | hanswer
      · rw [hanswer]
        exact ⟨hnext,Or.inl rfl⟩
      · have hf : (stateless f m' ()).1 = f m' := rfl
        have hu : (stateless f m' ()).2 = () := rfl
        rw [hanswer,hf,hu]
        cases f m' with
        | raised => exact ⟨hnext,Or.inr rfl⟩
        | answered response =>
            cases response with
            | none => exact ⟨hrest,hcollect⟩
            | some response =>
                cases response with
                | notReady => exact ⟨hnext,Or.inl rfl⟩
                | single a | multiple as | sendEof a =>
                    refine ⟨hrest,?_⟩
                    rcases hcollect with hcollect | hcollect
                    · rw [hcollect]
                      exact Or.inl rfl
                    · rw [hcollect]
                      exact Or.inr rfl

/-- Stages that collect the same and join alike send the same. -/
theorem RowStage.output_eq {σ σ' μ μ' α : Type} {g : RowStage σ μ α} {g' : RowStage σ' μ' α}
    (hjoin : g.join = g'.join) {text : Text} {s : σ} {s' : σ'}
    (h : (collect g.processor (g.payload text) s).1 =
      (collect g'.processor (g'.payload text) s').1) : g.output text s = g'.output text s' := by
  unfold RowStage.output
  rw [h,hjoin]

section
variable {F : Type} (w : Measures F)

/-- `Distancias` without the cache. -/
def measured (message : Row) : Answer Row :=
  match airports message with
  | none => .raised
  | some (startingAirport,destinationAirport) =>
      match w.geodesic startingAirport destinationAirport with
      | none => .raised
      | some distanceBetweenAirports => compare w message distanceBetweenAirports

/-- What the cache holds was computed. -/
def Computed (cache : Dict (Coordinates × Coordinates) F) : Prop :=
  ∀ pair distance, cache.get? pair = some distance → w.geodesic pair.1 pair.2 = some distance

theorem computed_empty : Computed w .empty := nofun

variable {w}

theorem distance_computed {cache : Dict (Coordinates × Coordinates) F} (h : Computed w cache)
    (destination starting : Coordinates) :
    (distance w destination starting cache).1 = w.geodesic starting destination ∧
      Computed w (distance w destination starting cache).2 := by
  unfold distance
  cases hget : cache.get? (starting,destination) with
  | some x => exact ⟨(h _ _ hget).symm,h⟩
  | none =>
      cases hx : w.geodesic starting destination with
      | none => exact ⟨rfl,h⟩
      | some x =>
          refine ⟨rfl,?_⟩
          intro pair y hy
          rw [Dict.get?_set] at hy
          split_ifs at hy with heq
          · cases hy
            rw [← heq]
            exact hx
          · exact h pair y hy

theorem distancias_measured {cache : Dict (Coordinates × Coordinates) F} (h : Computed w cache)
    (message : Row) : (distancias w message cache).1 = measured w message ∧
      Computed w (distancias w message cache).2 := by
  unfold distancias measured
  cases airports message with
  | none => exact ⟨rfl,h⟩
  | some pair =>
      obtain ⟨starting,destination⟩ := pair
      obtain ⟨hanswer,hcache⟩ := distance_computed h destination starting
      simp only [hanswer]
      cases w.geodesic starting destination with
      | none => exact ⟨rfl,hcache⟩
      | some x => exact ⟨rfl,hcache⟩

end

section
variable (coordinates : Logger.ClientId → String → Joiner.Coordinates)

/-- The joiner when it finds all airports. -/
def joined (c : Word 8) (message : Row) : Answer Row :=
  match field "startingAirport" message,field "destinationAirport" message with
  | some startingAirportCode,some destinationAirportCode =>
      join message startingAirportCode destinationAirportCode
        (some (coordinates c (.ofList startingAirportCode)))
        (some (coordinates c (.ofList destinationAirportCode)))
  | _,_ => .raised

/-- What the joiner of a client keeps are coordinates of that client. -/
def Kept (c : Word 8) (airports : Joiner.Airports) : Prop :=
  ∀ code airport, airports.get? code = some airport → airport = coordinates c code

theorem kept_empty (c : Word 8) : Kept coordinates c .empty := nofun

variable {coordinates}

theorem obtain_kept {c : Word 8} {state : Joiner.State} {airports : Joiner.Airports}
    (hstate : state.Consistent coordinates) (h : Kept coordinates c airports) (code : String) :
    ((Joiner.obtainAirportLatLong c code state airports).1 = none ∨
      (Joiner.obtainAirportLatLong c code state airports).1 = some (coordinates c code)) ∧
      Kept coordinates c (Joiner.obtainAirportLatLong c code state airports).2 := by
  unfold Joiner.obtainAirportLatLong
  cases hget : airports.get? code with
  | some airport => exact ⟨Or.inr (by rw [h _ _ hget]),h⟩
  | none =>
      cases hobtain : state.obtainClientAirport c code with
      | none => exact ⟨Or.inl rfl,h⟩
      | some airport =>
          have hairport := hstate _ _ _ hobtain
          refine ⟨Or.inr (by rw [hairport]),?_⟩
          intro code' airport' hget'
          rw [Dict.get?_set] at hget'
          split_ifs at hget' with heq
          · cases hget'
            rw [← heq]
            exact hairport
          · exact h _ _ hget'

theorem joiner_joined {c : Word 8} {message : Row × Joiner.State × Joiner.State}
    {airports : Joiner.Airports} (hfirst : message.2.1.Consistent coordinates)
    (hsecond : message.2.2.Consistent coordinates) (h : Kept coordinates c airports) :
    Kept coordinates c (joiner c message airports).2 ∧
      ((joiner c message airports).1 = .answered (some .notReady) ∨
        (joiner c message airports).1 = joined coordinates c message.1) := by
  unfold joiner joined
  cases field "startingAirport" message.1 with
  | none => exact ⟨h,Or.inr rfl⟩
  | some starting =>
      cases field "destinationAirport" message.1 with
      | none => exact ⟨h,Or.inr rfl⟩
      | some destination =>
          obtain ⟨hs,hkept⟩ := obtain_kept hfirst h (.ofList starting)
          obtain ⟨hd,hkept⟩ := obtain_kept hsecond hkept (.ofList destination)
          refine ⟨hkept,?_⟩
          dsimp only
          rcases hs with hs | hs
          · rw [hs]
            exact Or.inl rfl
          · rcases hd with hd | hd
            · rw [hs,hd]
              exact Or.inl rfl
            · rw [hs,hd]
              exact Or.inr rfl

end
end FlightsOptimizer.RowProcessors
