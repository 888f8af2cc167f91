import FlightsOptimizer.Redelivery
import FlightsOptimizer.RowProcessors

/-!
# The way of the flights

The flights of all clients go through filters, through the processors of the
queries for three stopovers and for distances, and, tagged, to the listener of the
results. The queues in between are read by any number of replicas, which may die at
any point, give messages back and handle them again. The airports reach the joiners
meanwhile, on another way.

Three of the queues are read by the processors of other modules: LoadBalancer,
DosMasRapidos and the listener.
-/
namespace FlightsOptimizer.RowNetwork
open Text Statefull Connection RowProcessors Redelivery

/-- A number as a word. -/
def word (size n : ℕ) : Word size := ⟨n % 256^size,Nat.mod_lt n (Nat.pow_pos (by decide))⟩

inductive Stage where
  | filterGeneral
  | filterAvgMax
  | filterMultiple
  | filterDistancia
  | tresEscalasOMas
  | filterTresEscalasOMas
  | filterDosMasRapidos
  | joiner
  | distancias
  | taggerTresEscalasOMas
  | taggerDistancias
  | loadBalancer
  | dosMasRapidos
  | resultsListener
  deriving DecidableEq

namespace Stage

/-- The queue or exchange that the receiver of a stage is given. -/
def input : Stage → String
  | .filterGeneral => "vuelos"
  | .filterAvgMax => "vuelos_filtered"
  | .filterMultiple => "vuelos_filtered"
  | .filterDistancia => "vuelos_filtered"
  | .tresEscalasOMas => "vuelos_multiple"
  | .filterTresEscalasOMas => "vuelos_tres_escalas_o_mas"
  | .filterDosMasRapidos => "vuelos_tres_escalas_o_mas"
  | .joiner => "vuelos_distancia"
  | .distancias => "vuelos_distancia_joined"
  | .taggerTresEscalasOMas => "vuelos_tres_escalas_o_mas_sink"
  | .taggerDistancias => "vuelos_distancias_sink"
  | .loadBalancer => "vuelos_avg_max"
  | .dosMasRapidos => "vuelos_dos_mas_rapidos"
  | .resultsListener => "vuelos_resultados"

/-- The queue or exchange that its sender is given. -/
def output : Stage → String
  | .filterGeneral => "vuelos_filtered"
  | .filterAvgMax => "vuelos_avg_max"
  | .filterMultiple => "vuelos_multiple"
  | .filterDistancia => "vuelos_distancia"
  | .tresEscalasOMas => "vuelos_tres_escalas_o_mas"
  | .filterTresEscalasOMas => "vuelos_tres_escalas_o_mas_sink"
  | .filterDosMasRapidos => "vuelos_dos_mas_rapidos"
  | .joiner => "vuelos_distancia_joined"
  | .distancias => "vuelos_distancias_sink"
  | .taggerTresEscalasOMas => "vuelos_resultados"
  | .taggerDistancias => "vuelos_resultados"
  | .loadBalancer => "vuelos_avg_max_balanced"
  | .dosMasRapidos => "vuelos_dos_mas_rapidos_sink"
  | .resultsListener => "vuelos_resultados_listener"

def all : List Stage :=
  [.filterGeneral,.filterAvgMax,.filterMultiple,.filterDistancia,.tresEscalasOMas,
    .filterTresEscalasOMas,.filterDosMasRapidos,.joiner,.distancias,.taggerTresEscalasOMas,
    .taggerDistancias,.loadBalancer,.dosMasRapidos,.resultsListener]

/-- Whom a message of the stage reaches: the replicas of one stage share a queue, and
an exchange copies to the queue of each stage that is bound to it. -/
def next (n : Stage) : List Stage := all.filter fun k => k.input = n.output

/-- The tag that ends a query. -/
def resultTagId : Stage → Option (Word 1)
  | .taggerTresEscalasOMas => some (word 1 2)
  | .taggerDistancias => some (word 1 3)
  | _ => none

/-- `use_duplicate_catcher`. -/
def catches (n : Stage) : Prop := n = .taggerTresEscalasOMas ∨ n = .taggerDistancias

/-- The stages that a message passes on its way from the server; the listener has
messages of both taggers. -/
def way : Stage → List Stage
  | .filterGeneral => []
  | .filterAvgMax | .filterMultiple | .filterDistancia => [.filterGeneral]
  | .tresEscalasOMas => [.filterGeneral,.filterMultiple]
  | .filterTresEscalasOMas | .filterDosMasRapidos =>
      [.filterGeneral,.filterMultiple,.tresEscalasOMas]
  | .joiner => [.filterGeneral,.filterDistancia]
  | .distancias => [.filterGeneral,.filterDistancia,.joiner]
  | .taggerTresEscalasOMas =>
      [.filterGeneral,.filterMultiple,.tresEscalasOMas,.filterTresEscalasOMas]
  | .taggerDistancias => [.filterGeneral,.filterDistancia,.joiner,.distancias]
  | .loadBalancer => [.filterGeneral,.filterAvgMax]
  | .dosMasRapidos => [.filterGeneral,.filterMultiple,.tresEscalasOMas,.filterDosMasRapidos]
  | .resultsListener => []

end Stage

def flightFields : List Text := ["legId","searchDate","flightDate","startingAirport",
  "destinationAirport","fareBasisCode","travelDuration","elapsedDays","isBasicEconomy",
  "isRefundable","isNonStop","baseFare","totalFare","seatsRemaining","totalTravelDistance",
  "segmentsDepartureTimeEpochSeconds","segmentsDepartureTimeRaw",
  "segmentsArrivalTimeEpochSeconds","segmentsArrivalTimeRaw","segmentsArrivalAirportCode",
  "segmentsDepartureAirportCode","segmentsAirlineName","segmentsAirlineCode",
  "segmentsEquipmentDescription","segmentsDurationInSeconds","segmentsDistance",
  "segmentsCabinCode"].map String.toList

def filteredFields : List Text := ["legId","startingAirport","destinationAirport","totalFare",
  "totalTravelDistance","travelDuration","segmentsArrivalAirportCode"].map String.toList

def avgMaxFields : List Text :=
  ["startingAirport","destinationAirport","totalFare"].map String.toList

def multipleFields : List Text := ["legId","startingAirport","destinationAirport","totalFare",
  "travelDuration","segmentsArrivalAirportCode"].map String.toList

def distanciaFields : List Text :=
  ["legId","startingAirport","destinationAirport","totalTravelDistance"].map String.toList

def tresEscalasFields : List Text := ["legId","startingAirport","destinationAirport","totalFare",
  "segmentsArrivalAirportCode"].map String.toList

def dosMasRapidosFields : List Text := ["legId","startingAirport","destinationAirport",
  "travelDuration","segmentsArrivalAirportCode"].map String.toList

def joinedFields : List Text := ["legId","startingAirport","destinationAirport",
  "totalTravelDistance","startingLatitude","startingLongitude","destinationLatitude",
  "destinationLongitude"].map String.toList

section
variable (b : Builtins)

def rowStage {σ μ : Type} (payload : Text → List μ) (outputFields : List Text)
    (p : RowProcessor σ μ Row) : RowStage σ μ Row where
  processor := p
  payload := payload
  join := joinRows outputFields
  resultTagId := none

def filterStage (inputFields outputFields : List Text) : RowStage Unit Row Row :=
  rowStage (parsePayload b inputFields) outputFields (filter outputFields)

def tresEscalasOMasStage : RowStage Unit Row Row :=
  rowStage (parsePayload b multipleFields) multipleFields tresEscalasOMas

/-- The texts of a payload that is not parsed. -/
def lines (payload : Text) : List Text :=
  split ['\n'] (payload.reverse.dropWhile b.space).reverse

def taggerStage (tagName : String) (tagId : Word 1) : RowStage Unit Text Text where
  processor := tagger tagName.toList
  payload := lines b
  join := joinTexts
  resultTagId := some tagId

variable {F : Type} (w : Measures F)

def distanciasStage {σ : Type} (p : RowProcessor σ Row Row) : RowStage σ Row Row :=
  rowStage (parsePayload b joinedFields) distanciaFields p

/-- With the states of LatLong that the lookups of the rows see. -/
def joinerStage (c : Word 8) (states : List (Joiner.State × Joiner.State)) :
    RowStage Joiner.Airports (Row × Joiner.State × Joiner.State) Row :=
  rowStage (fun text => (parsePayload b distanciaFields text).zip states) joinedFields (joiner c)

/-- With the airports at hand. -/
def joinedStage (coordinates : Logger.ClientId → String → Joiner.Coordinates) (c : Word 8) :
    RowStage Unit Row Row :=
  rowStage (parsePayload b distanciaFields) joinedFields (stateless (joined coordinates c))

end

/-- What a replica keeps in memory, for each client. -/
structure Memory (F : Type) where
  distances : Dict (Word 8) (Dict (Coordinates × Coordinates) F)
  airports : Dict (Word 8) Joiner.Airports
  state : Joiner.State

/-- LatLong inserts airports of the clients' files, with their coordinates. -/
inductive Inserted (coordinates : Logger.ClientId → String → Joiner.Coordinates)
    (known : Logger.ClientId → Set String) : Joiner.State → Joiner.State → Prop
  | refl (s) : Inserted coordinates known s s
  | add {s t c code} : code ∈ known c → Inserted coordinates known s t →
      Inserted coordinates known s (t.addAirport c code (coordinates c code))

section
variable (b : Builtins) {F : Type} (w : Measures F)
variable (coordinates : Logger.ClientId → String → Joiner.Coordinates)
variable (known : Logger.ClientId → Set String)

def handleStateless {μ α : Type} (g : RowStage Unit μ α) (bytes : Bytes) (mem : Memory F)
    (out : Option (List Bytes)) (mem' : Memory F) : Prop :=
  (g.handle bytes ()).1 = out ∧ mem' = mem

/-- The client that a data message is of. -/
def client (bytes : Bytes) : Word 8 := ((receive bytes).map Prod.fst).getD (word 8 0)

def handleDistancias (bytes : Bytes) (mem : Memory F) (out : Option (List Bytes))
    (mem' : Memory F) : Prop :=
  let answer := (distanciasStage b (distancias w)).handle bytes
    (mem.distances.getD (client bytes) .empty)
  answer.1 = out ∧ mem' = {mem with distances := mem.distances.set (client bytes) answer.2}

/-- Between any two lookups LatLong may insert airports. -/
def handleJoiner (bytes : Bytes) (mem : Memory F) (out : Option (List Bytes))
    (mem' : Memory F) : Prop :=
  ∃ states : List (Joiner.State × Joiner.State),
    (∀ c i text, receive bytes = some (c,i,text) →
      states.length = (parsePayload b distanciaFields text).length) ∧
    List.IsChain (Inserted coordinates known)
      (mem.state :: (states.flatMap fun p => [p.1,p.2]) ++ [mem'.state]) ∧
    let answer := (joinerStage b (client bytes) states).handle bytes
      (mem.airports.getD (client bytes) .empty)
    answer.1 = out ∧ mem'.distances = mem.distances ∧
      mem'.airports = mem.airports.set (client bytes) answer.2

def handle : Stage → Bytes → Memory F → Option (List Bytes) → Memory F → Prop
  | .filterGeneral => handleStateless (filterStage b flightFields filteredFields)
  | .filterAvgMax => handleStateless (filterStage b filteredFields avgMaxFields)
  | .filterMultiple => handleStateless (filterStage b filteredFields multipleFields)
  | .filterDistancia => handleStateless (filterStage b filteredFields distanciaFields)
  | .tresEscalasOMas => handleStateless (tresEscalasOMasStage b)
  | .filterTresEscalasOMas => handleStateless (filterStage b multipleFields tresEscalasFields)
  | .filterDosMasRapidos => handleStateless (filterStage b multipleFields dosMasRapidosFields)
  | .joiner => handleJoiner b coordinates known
  | .distancias => handleDistancias b w
  | .taggerTresEscalasOMas => handleStateless (taggerStage b "TRES_ESCALAS" (word 1 2))
  | .taggerDistancias => handleStateless (taggerStage b "DISTANCIAS" (word 1 3))
  | .loadBalancer | .dosMasRapidos | .resultsListener => fun _ _ _ _ => False

/-- A replica starts with empty processors, and the joiner with the airports that
LatLong has restored, which are some of the clients' files. -/
structure Fresh (mem : Memory F) : Prop where
  distances : mem.distances = .empty
  cached : mem.airports = .empty
  state : mem.state.Consistent coordinates
  inserted : ∀ c code, (mem.state.obtainClientAirport c code).isSome = true → code ∈ known c

def network {ρ : Type} (stage : ρ → Stage) :
    Network Stage ρ Bytes (Option (Word 8 × Word 8)) (Memory F) where
  stage := stage
  next := Stage.next
  key bytes := (receive bytes).map fun data => (data.1,data.2.1)
  catches := Stage.catches
  fresh _ mem := Fresh coordinates known mem
  change n mem mem' := n = .joiner ∧ Inserted coordinates known mem.state mem'.state ∧
    mem'.distances = mem.distances ∧ mem'.airports = mem.airports
  handle := handle b w coordinates known

def outputOf : Stage → Word 8 → Text → Option Text
  | .filterGeneral,_ => fun text => (filterStage b flightFields filteredFields).output text ()
  | .filterAvgMax,_ => fun text => (filterStage b filteredFields avgMaxFields).output text ()
  | .filterMultiple,_ => fun text => (filterStage b filteredFields multipleFields).output text ()
  | .filterDistancia,_ => fun text => (filterStage b filteredFields distanciaFields).output text ()
  | .tresEscalasOMas,_ => fun text => (tresEscalasOMasStage b).output text ()
  | .filterTresEscalasOMas,_ => fun text =>
      (filterStage b multipleFields tresEscalasFields).output text ()
  | .filterDosMasRapidos,_ => fun text =>
      (filterStage b multipleFields dosMasRapidosFields).output text ()
  | .joiner,c => fun text => (joinedStage b coordinates c).output text ()
  | .distancias,_ => fun text => (distanciasStage b (stateless (measured w))).output text ()
  | .taggerTresEscalasOMas,_ => fun text => (taggerStage b "TRES_ESCALAS" (word 1 2)).output text ()
  | .taggerDistancias,_ => fun text => (taggerStage b "DISTANCIAS" (word 1 3)).output text ()
  | .loadBalancer,_ | .dosMasRapidos,_ | .resultsListener,_ => fun _ => none

def emit (n : Stage) (bytes : Bytes) : List Bytes :=
  match receive bytes with
  | none => []
  | some (c,i,text) => ((outputOf b w coordinates n c text).map (dataBytes c i n.resultTagId)).toList

/-- What holds of the memory of a replica. -/
structure Holds (mem : Memory F) : Prop where
  distances : ∀ c cache, mem.distances.get? c = some cache → Computed w cache
  airports : ∀ c airports, mem.airports.get? c = some airports → Kept coordinates c airports
  state : mem.state.Consistent coordinates

end

section
variable {b : Builtins} {F : Type} {w : Measures F}
variable {coordinates : Logger.ClientId → String → Joiner.Coordinates}
variable {known : Logger.ClientId → Set String}
variable {bytes : Bytes} {mem mem' : Memory F} {out : List Bytes} {n : Stage}

theorem Inserted.consistent {s t : Joiner.State} (h : Inserted coordinates known s t)
    (hs : s.Consistent coordinates) : t.Consistent coordinates := by
  induction h with
  | refl => exact hs
  | add _ _ ih => exact ih.addAirport rfl

theorem fresh_holds (h : Fresh coordinates known mem) : Holds w coordinates mem := by
  refine ⟨?_,?_,h.state⟩
  · intro c cache hget
    rw [h.distances] at hget
    cases hget
  · intro c airports hget
    rw [h.cached] at hget
    cases hget

theorem Holds.cache (h : Holds w coordinates mem) (c : Word 8) :
    Computed w (mem.distances.getD c .empty) := by
  unfold Dict.getD
  cases hget : mem.distances.get? c with
  | none => exact computed_empty w
  | some cache => exact h.distances c cache hget

theorem Holds.kept (h : Holds w coordinates mem) (c : Word 8) :
    Kept coordinates c (mem.airports.getD c .empty) := by
  unfold Dict.getD
  cases hget : mem.airports.get? c with
  | none => exact kept_empty coordinates c
  | some airports => exact h.airports c airports hget

theorem client_eq {c i : Word 8} {text : Text} (h : receive bytes = some (c,i,text)) :
    client bytes = c := by
  unfold client
  rw [h]
  rfl

variable (b w coordinates n) in
theorem emit_eq {c i : Word 8} {text : Text} (h : receive bytes = some (c,i,text)) :
    emit b w coordinates n bytes =
      ((outputOf b w coordinates n c text).map (dataBytes c i n.resultTagId)).toList := by
  unfold emit
  rw [h]

theorem handleStateless_answer {μ α : Type} {g : RowStage Unit μ α}
    (houtput : ∀ c, outputOf b w coordinates n c = fun text => g.output text ())
    (htag : n.resultTagId = g.resultTagId) (h : handleStateless g bytes mem (some out) mem') :
    out = emit b w coordinates n bytes := by
  obtain ⟨c,i,text,hreceive,-,hout⟩ := RowStage.handle_eq h.1
  rw [emit_eq _ _ _ _ hreceive,hout,houtput,htag]

theorem collect_distancias {cache : Dict (Coordinates × Coordinates) F} (h : Computed w cache)
    (rows : List Row) : Computed w (collect (distancias w) rows cache).2 ∧
      ((collect (distancias w) rows cache).1 = .notReady ∨
        (collect (distancias w) rows cache).1 = (collect (stateless (measured w)) rows ()).1) := by
  refine collect_stateless (R := Eq) ?_ (List.forall₂_eq_eq_eq ▸ rfl) h
  rintro m _ cache rfl hcache
  obtain ⟨hanswer,hcomputed⟩ := distancias_measured hcache m
  exact ⟨hcomputed,Or.inr hanswer⟩

theorem handleDistancias_computed {cache : Dict (Coordinates × Coordinates) F}
    (h : Computed w cache) (bytes : Bytes) :
    Computed w ((distanciasStage b (distancias w)).handle bytes cache).2 := by
  unfold RowStage.handle
  cases receive bytes with
  | none => exact h
  | some data =>
      have hcomputed := (collect_distancias h (parsePayload b joinedFields data.2.2)).1
      simp only [distanciasStage,rowStage]
      split
      · exact hcomputed
      · exact hcomputed
      · split_ifs
        · exact hcomputed
        · exact hcomputed

theorem handleDistancias_holds {out : Option (List Bytes)} (hm : Holds w coordinates mem)
    (h : handleDistancias b w bytes mem out mem') : Holds w coordinates mem' := by
  obtain ⟨-,rfl⟩ := h
  refine ⟨?_,hm.airports,hm.state⟩
  intro c cache hget
  rw [Dict.get?_set] at hget
  split_ifs at hget with heq
  · cases hget
    exact handleDistancias_computed (hm.cache _) bytes
  · exact hm.distances c cache hget

theorem handleDistancias_answer (hm : Holds w coordinates mem)
    (h : handleDistancias b w bytes mem (some out) mem') :
    out = emit b w coordinates .distancias bytes := by
  obtain ⟨c,i,text,hreceive,hready,hout⟩ := RowStage.handle_eq h.1
  have hcollect := (collect_distancias (hm.cache (client bytes))
    (parsePayload b joinedFields text)).2.resolve_left hready
  have houtput : (distanciasStage b (distancias w)).output text
      (mem.distances.getD (client bytes) .empty) =
      (distanciasStage b (stateless (measured w))).output text () := by
    apply RowStage.output_eq
    · rfl
    · exact hcollect
  rw [emit_eq _ _ _ _ hreceive,hout,houtput]
  rfl

/-- The rows with states of which each is consistent. -/
theorem forall₂_zip_states {rows : List Row} {states : List (Joiner.State × Joiner.State)}
    (hlength : states.length = rows.length)
    (hstates : ∀ p ∈ states, p.1.Consistent coordinates ∧ p.2.Consistent coordinates) :
    List.Forall₂ (fun m row => m.1 = row ∧ m.2.1.Consistent coordinates ∧
      m.2.2.Consistent coordinates) (rows.zip states) rows := by
  induction rows generalizing states with
  | nil => exact List.Forall₂.nil
  | cons row rows ih =>
      cases states with
      | nil => cases hlength
      | cons p states =>
          rw [List.zip_cons_cons]
          refine List.Forall₂.cons ⟨rfl,hstates p List.mem_cons_self⟩ (ih ?_ ?_)
          · simpa using hlength
          · exact fun q hq => hstates q (List.mem_cons_of_mem p hq)

theorem consistent_of_chain {states : List (Joiner.State × Joiner.State)}
    {first last : Joiner.State} (h : List.IsChain (Inserted coordinates known)
      (first :: (states.flatMap fun p => [p.1,p.2]) ++ [last]))
    (hfirst : first.Consistent coordinates) : last.Consistent coordinates ∧
      ∀ p ∈ states, p.1.Consistent coordinates ∧ p.2.Consistent coordinates := by
  have hall : ∀ s ∈ first :: (states.flatMap fun p => [p.1,p.2]) ++ [last],
      s.Consistent coordinates :=
    List.IsChain.induction _ _ h (fun _ _ hst hs => hst.consistent hs) fun _ => hfirst
  refine ⟨hall last (by simp),?_⟩
  intro p hp
  constructor
  · exact hall p.1 (List.mem_append_left _ (List.mem_cons_of_mem _
      (List.mem_flatMap.mpr ⟨p,hp,by simp⟩)))
  · exact hall p.2 (List.mem_append_left _ (List.mem_cons_of_mem _
      (List.mem_flatMap.mpr ⟨p,hp,by simp⟩)))

theorem collect_joiner {c : Word 8} {airports : Joiner.Airports} (h : Kept coordinates c airports)
    {rows : List Row} {states : List (Joiner.State × Joiner.State)}
    (hlength : states.length = rows.length)
    (hstates : ∀ p ∈ states, p.1.Consistent coordinates ∧ p.2.Consistent coordinates) :
    Kept coordinates c (collect (RowProcessors.joiner c) (rows.zip states) airports).2 ∧
      ((collect (RowProcessors.joiner c) (rows.zip states) airports).1 = .notReady ∨
        (collect (RowProcessors.joiner c) (rows.zip states) airports).1 =
          (collect (stateless (joined coordinates c)) rows ()).1) := by
  refine collect_stateless ?_ (forall₂_zip_states hlength hstates) h
  rintro m _ airports ⟨rfl,hfirst,hsecond⟩ hkept
  exact joiner_joined hfirst hsecond hkept

theorem handleJoiner_holds {out : Option (List Bytes)} (hm : Holds w coordinates mem)
    (h : handleJoiner b coordinates known bytes mem out mem') : Holds w coordinates mem' := by
  obtain ⟨states,hlength,hchain,-,hdistances,hairports⟩ := h
  obtain ⟨hlast,hstates⟩ := consistent_of_chain hchain hm.state
  refine ⟨?_,?_,hlast⟩
  · rw [hdistances]
    exact hm.distances
  · intro c airports hget
    rw [hairports,Dict.get?_set] at hget
    split_ifs at hget with heq
    · cases hget
      subst heq
      unfold RowStage.handle
      cases hreceive : receive bytes with
      | none => exact hm.kept _
      | some data =>
          obtain ⟨c,i,text⟩ := data
          have hkept := (collect_joiner (hm.kept (client bytes)) (hlength c i text hreceive)
            hstates).1
          simp only [joinerStage,rowStage]
          split
          · exact hkept
          · exact hkept
          · split_ifs
            · exact hkept
            · exact hkept
    · exact hm.airports c airports hget

theorem handleJoiner_answer (hm : Holds w coordinates mem)
    (h : handleJoiner b coordinates known bytes mem (some out) mem') :
    out = emit b w coordinates .joiner bytes := by
  obtain ⟨states,hlength,hchain,hanswer,-,-⟩ := h
  obtain ⟨-,hstates⟩ := consistent_of_chain hchain hm.state
  obtain ⟨c,i,text,hreceive,hready,hout⟩ := RowStage.handle_eq hanswer
  have hcollect := (collect_joiner (hm.kept (client bytes)) (hlength c i text hreceive)
    hstates).2.resolve_left hready
  have houtput : (joinerStage b (client bytes) states).output text
      (mem.airports.getD (client bytes) .empty) =
      (joinedStage b coordinates (client bytes)).output text () := by
    apply RowStage.output_eq
    · rfl
    · exact hcollect
  rw [emit_eq _ _ _ _ hreceive,hout,houtput,client_eq hreceive]
  rfl

theorem handle_holds {out : Option (List Bytes)} (hm : Holds w coordinates mem)
    (h : handle b w coordinates known n bytes mem out mem') : Holds w coordinates mem' := by
  cases n with
  | joiner => exact handleJoiner_holds hm h
  | distancias => exact handleDistancias_holds hm h
  | loadBalancer | dosMasRapidos | resultsListener => exact absurd h id
  | _ =>
      rw [h.2]
      exact hm

theorem handle_answer (hm : Holds w coordinates mem)
    (h : handle b w coordinates known n bytes mem (some out) mem') :
    out = emit b w coordinates n bytes := by
  cases n with
  | joiner => exact handleJoiner_answer hm h
  | distancias => exact handleDistancias_answer hm h
  | loadBalancer | dosMasRapidos | resultsListener => exact absurd h id
  | _ => exact handleStateless_answer (fun _ => rfl) rfl h

theorem network_computes {ρ : Type} (stage : ρ → Stage) :
    (network b w coordinates known stage).Computes (emit b w coordinates)
      fun _ => Holds w coordinates where
  fresh := fun _ _ h => fresh_holds h
  change := by
    rintro _ s t hs ⟨-,hinserted,hdistances,hairports⟩
    refine ⟨?_,?_,hinserted.consistent hs.state⟩
    · rw [hdistances]
      exact hs.distances
    · rw [hairports]
      exact hs.airports
  memory := fun _ _ _ _ _ hs h => handle_holds hs h
  answer := fun _ _ _ _ _ hs h => handle_answer hs h

end

/-- A batch that the server has put into the first queue. -/
structure Upload where
  clientId : Word 8
  messageId : Word 8
  content : Text

def Upload.message (u : Upload) (tagId : Option (Word 1)) (text : Text) : Bytes :=
  dataBytes u.clientId u.messageId tagId text

def uploaded (uploads : List Upload) : Multiset (Stage × Bytes) :=
  Multiset.ofList (uploads.map fun u => (Stage.filterGeneral,u.message none u.content))

theorem mem_uploaded {uploads : List Upload} {x : Stage × Bytes} : x ∈ uploaded uploads ↔
    ∃ u ∈ uploads, (Stage.filterGeneral,u.message none u.content) = x := by
  unfold uploaded
  rw [Multiset.mem_coe,List.mem_map]

/-- The airports of a flight. -/
def codes (row : Row) : List String :=
  (field "startingAirport" row).toList.map String.ofList ++
    (field "destinationAirport" row).toList.map String.ofList

/-- A batch that is sent again is the same batch. -/
def Consistent (uploads : List Upload) : Prop :=
  ∀ u ∈ uploads, ∀ v ∈ uploads, u.clientId = v.clientId → u.messageId = v.messageId →
    u.content = v.content

/-- Every stage of the network has a replica, and no other has one. -/
def Deployed {ρ : Type} (stage : ρ → Stage) : Prop := ∀ n, (∃ r, stage r = n) ↔ n.next ≠ []

namespace Stage

theorem mem_all (n : Stage) : n ∈ all := by cases n <;> decide

theorem way_of_next {m n : Stage} (h : n ∈ m.next) (hn : n ≠ .resultsListener) :
    n.way = m.way ++ [m] ∧ m.resultTagId = none := by
  have hall : ∀ m ∈ all, ∀ n ∈ m.next, n ≠ .resultsListener →
      n.way = m.way ++ [m] ∧ m.resultTagId = none := by decide +kernel
  exact hall m m.mem_all n h hn

theorem next_resultsListener : next .resultsListener = [] := by decide

/-- Every way begins at the server. -/
theorem before (n : Stage) (hn : n ≠ .resultsListener) : n = .filterGeneral ∨
    ∃ m ∈ all, n ∈ m.next ∧ m ≠ .resultsListener ∧ m.way.length < n.way.length := by
  have hall : ∀ n ∈ all, n ≠ .resultsListener → n = .filterGeneral ∨
      ∃ m ∈ all, n ∈ m.next ∧ m ≠ .resultsListener ∧ m.way.length < n.way.length := by
    decide +kernel
  exact hall n n.mem_all hn

end Stage

section
variable (b : Builtins) {F : Type} (w : Measures F)
variable (coordinates : Logger.ClientId → String → Joiner.Coordinates)
variable (known : Logger.ClientId → Set String)

/-- The payload of an upload after some stages, if nothing of it is held back. -/
def through (stages : List Stage) (u : Upload) : Option Text :=
  stages.foldlM (fun text n => outputOf b w coordinates n u.clientId text) u.content

/-- The messages that queues get of an upload. -/
inductive Arrives (u : Upload) : Stage × Bytes → Prop
  | uploaded : Arrives u (.filterGeneral,u.message none u.content)
  | sent {m n : Stage} {text : Text} : n ∈ m.next →
      through b w coordinates (m.way ++ [m]) u = some text →
        Arrives u (n,u.message m.resultTagId text)

/-- The client's file has the airports of the flights that reach the joiner. -/
def Located (u : Upload) : Prop :=
  ∀ text, through b w coordinates Stage.joiner.way u = some text →
    ∀ row ∈ parsePayload b distanciaFields text, ∀ code ∈ codes row, code ∈ known u.clientId

variable {b w coordinates known} {u : Upload} {uploads : List Upload}

theorem through_snoc {stages : List Stage} {n : Stage} : through b w coordinates (stages ++ [n]) u =
    (through b w coordinates stages u).bind (outputOf b w coordinates n u.clientId) := by
  unfold through
  rw [List.foldlM_append]
  cases stages.foldlM (fun text n => outputOf b w coordinates n u.clientId text) u.content with
  | none => rfl
  | some text => simp

theorem Arrives.payload {n : Stage} {bytes : Bytes} (h : Arrives b w coordinates u (n,bytes))
    (hn : n ≠ .resultsListener) :
    ∃ text, through b w coordinates n.way u = some text ∧ bytes = u.message none text := by
  cases h with
  | uploaded => exact ⟨u.content,rfl,rfl⟩
  | @sent m _ text hnext htext =>
      obtain ⟨hway,htag⟩ := Stage.way_of_next hnext hn
      exact ⟨text,by rw [hway]; exact htext,by rw [htag]⟩

variable {ρ : Type} {stage : ρ → Stage}

theorem Arrives.emits {x y : Stage × Bytes} (h : Arrives b w coordinates u x)
    (he : (network b w coordinates known stage).Emits (emit b w coordinates) x y) :
    Arrives b w coordinates u y := by
  obtain ⟨n,bytes⟩ := x
  obtain ⟨k,bytes'⟩ := y
  obtain ⟨-,hnext,hbytes⟩ := he
  have hnext : k ∈ n.next := hnext
  have hn : n ≠ .resultsListener := by
    rintro rfl
    rw [Stage.next_resultsListener] at hnext
    cases hnext
  obtain ⟨text,htext,rfl⟩ := h.payload hn
  have hemit := emit_eq b w coordinates n
    (receive_dataBytes u.clientId u.messageId none text)
  have hbytes : bytes' ∈ emit b w coordinates n (u.message none text) := hbytes
  unfold Upload.message at hbytes
  rw [hemit,Option.mem_toList,Option.map_eq_some_iff] at hbytes
  obtain ⟨sent,hsent,rfl⟩ := hbytes
  refine .sent hnext ?_
  rw [through_snoc,htext]
  exact hsent

theorem arrives_of_derived {x : Stage × Bytes}
    (h : (network b w coordinates known stage).Derived (emit b w coordinates) (uploaded uploads) x) :
    ∃ u ∈ uploads, Arrives b w coordinates u x := by
  obtain ⟨y,hy,hyx⟩ := h
  obtain ⟨u,hu,rfl⟩ := mem_uploaded.mp hy
  refine ⟨u,hu,?_⟩
  induction hyx with
  | refl => exact .uploaded
  | tail _ he ih => exact ih.emits he

/-- Along the way each stage sends what it should. The induction is on the way. -/
theorem derived_of_through (hdeployed : Deployed stage) (hu : u ∈ uploads) {n : Stage}
    (hn : n ≠ .resultsListener) {text : Text} (h : through b w coordinates n.way u = some text) :
    (network b w coordinates known stage).Derived (emit b w coordinates) (uploaded uploads)
      (n,u.message none text) := by
  obtain ⟨k,hk⟩ : ∃ k, k = n.way.length := ⟨_,rfl⟩
  induction k using Nat.strong_induction_on generalizing n text with
  | _ k ih =>
      rcases n.before hn with rfl | ⟨m,-,hnext,hm,hlt⟩
      · cases h
        exact ⟨_,mem_uploaded.mpr ⟨u,hu,rfl⟩,.refl⟩
      · obtain ⟨hway,htag⟩ := Stage.way_of_next hnext hn
        rw [hway,through_snoc,Option.bind_eq_some_iff] at h
        obtain ⟨before,hbefore,hsent⟩ := h
        refine (ih _ (hk ▸ hlt) hm hbefore rfl).emits ⟨?_,hnext,?_⟩
        · exact (hdeployed m).mpr (List.ne_nil_of_mem hnext)
        · have hemit := emit_eq b w coordinates m
            (receive_dataBytes u.clientId u.messageId none before)
          unfold Upload.message
          rw [hemit,hsent,htag]
          exact List.mem_singleton.mpr rfl

theorem derived_of_arrives (hdeployed : Deployed stage) (hu : u ∈ uploads) {x : Stage × Bytes}
    (h : Arrives b w coordinates u x) :
    (network b w coordinates known stage).Derived (emit b w coordinates) (uploaded uploads) x := by
  cases h with
  | uploaded => exact ⟨_,mem_uploaded.mpr ⟨u,hu,rfl⟩,.refl⟩
  | @sent m n text hnext htext =>
      rw [through_snoc,Option.bind_eq_some_iff] at htext
      obtain ⟨before,hbefore,hsent⟩ := htext
      have hm : m ≠ .resultsListener := by
        rintro rfl
        rw [Stage.next_resultsListener] at hnext
        cases hnext
      refine (derived_of_through hdeployed hu hm hbefore).emits ⟨?_,hnext,?_⟩
      · exact (hdeployed m).mpr (List.ne_nil_of_mem hnext)
      · have hemit := emit_eq b w coordinates m
          (receive_dataBytes u.clientId u.messageId none before)
        unfold Upload.message
        rw [hemit,hsent]
        exact List.mem_singleton.mpr rfl

/-- At the taggers the ids of a batch stand for its message. -/
theorem network_keyed (hc : Consistent uploads) :
    (network b w coordinates known stage).Keyed (emit b w coordinates) (uploaded uploads) := by
  intro n bytes bytes' hcatches h h' hkey
  have hn : n ≠ .resultsListener := by
    rcases hcatches with rfl | rfl <;> exact nofun
  obtain ⟨u,hu,ha⟩ := arrives_of_derived h
  obtain ⟨v,hv,ha'⟩ := arrives_of_derived h'
  obtain ⟨text,htext,rfl⟩ := ha.payload hn
  obtain ⟨text',htext',rfl⟩ := ha'.payload hn
  have hids : u.clientId = v.clientId ∧ u.messageId = v.messageId := by
    simpa [network,Upload.message] using hkey
  have hcontent := hc u hu v hv hids.1 hids.2
  have huv : u = v := by
    cases u
    cases v
    simp only [Upload.mk.injEq]
    exact ⟨hids.1,hids.2,hcontent⟩
  subst huv
  rw [htext] at htext'
  cases htext'
  rfl

variable [DecidableEq ρ] {s : State Stage ρ Bytes (Option (Word 8 × Word 8)) (Memory F)}

/-- A queue holds only what is made of an upload. -/
theorem queued_arrives (hc : Consistent uploads)
    (hs : (network b w coordinates known stage).Reached (uploaded uploads) s) {x : Stage × Bytes}
    (hx : x ∈ s.queued) : ∃ u ∈ uploads, Arrives b w coordinates u x :=
  arrives_of_derived (hs.sound (network_computes stage) (network_keyed hc) hx)

/-- In the end a queue that others read holds all that is made of an upload. -/
theorem arrives_queued (hdeployed : Deployed stage) (hc : Consistent uploads)
    (hs : (network b w coordinates known stage).Reached (uploaded uploads) s)
    (hquiet : (network b w coordinates known stage).Quiet s) (hu : u ∈ uploads) {n : Stage}
    {bytes : Bytes} (hn : n.next = []) (h : Arrives b w coordinates u (n,bytes)) :
    (n,bytes) ∈ s.queued := by
  refine hs.complete (network_computes stage) (network_keyed hc) hquiet
    (derived_of_arrives hdeployed hu h) ?_
  rintro r hr
  exact (hdeployed n).mp ⟨r,hr⟩ hn

end

section
variable {σ μ α : Type}

theorem prepend_ne_notReady {as : List α} {rest : Collected α} (h : rest ≠ .notReady) :
    rest.prepend as ≠ .notReady := by
  intro heq
  cases rest with
  | notReady => exact h rfl
  | raised | done => cases heq

theorem collect_ready {p : RowProcessor σ μ α} {ms : List μ} {s : σ}
    (h : ∀ m ∈ ms, ∀ s, (p m s).1 ≠ .answered (some .notReady)) :
    (collect p ms s).1 ≠ .notReady := by
  induction ms generalizing s with
  | nil =>
      intro heq
      cases heq
  | cons m ms ih =>
      have hm := h m List.mem_cons_self s
      have hrest := ih (s := (p m s).2) fun m hm => h m (List.mem_cons_of_mem _ hm)
      simp only [collect]
      cases hanswer : (p m s).1 with
      | raised =>
          intro heq
          cases heq
      | answered response =>
          cases response with
          | none => exact hrest
          | some response =>
              cases response with
              | notReady => exact absurd hanswer hm
              | single a | multiple as | sendEof a => exact prepend_ne_notReady hrest

theorem handle_ready {g : RowStage σ μ α} {bytes : Bytes} {c i : Word 8} {text : Text} {s : σ}
    (hreceive : receive bytes = some (c,i,text))
    (hready : (collect g.processor (g.payload text) s).1 ≠ .notReady) :
    ∃ out, (g.handle bytes s).1 = some out := by
  unfold RowStage.handle
  rw [hreceive]
  dsimp only
  cases hcollect : (collect g.processor (g.payload text) s).1 with
  | notReady => exact absurd hcollect hready
  | raised => exact ⟨_,rfl⟩
  | done as =>
      dsimp only
      split_ifs
      · exact ⟨_,rfl⟩
      · exact ⟨_,rfl⟩

end

section
variable {b : Builtins} {F : Type} {w : Measures F}
variable {coordinates : Logger.ClientId → String → Joiner.Coordinates}
variable {known : Logger.ClientId → Set String}

theorem handleStateless_ready {μ α : Type} {g : RowStage Unit μ α} {bytes : Bytes} {c i : Word 8}
    {text : Text} (hreceive : receive bytes = some (c,i,text))
    (h : ∀ m s, (g.processor m s).1 ≠ .answered (some .notReady)) (mem : Memory F) :
    ∃ out mem', handleStateless g bytes mem (some out) mem' := by
  obtain ⟨out,hout⟩ := handle_ready (g := g) (s := ()) hreceive (collect_ready fun m _ s => h m s)
  exact ⟨out,mem,hout,rfl⟩

theorem filter_ready (fields : List Text) (row : Row) (s : Unit) :
    (filter fields row s).1 ≠ .answered (some .notReady) := by
  unfold filter
  split <;> exact nofun

theorem tresEscalasOMas_ready (row : Row) (s : Unit) :
    (tresEscalasOMas row s).1 ≠ .answered (some .notReady) := by
  unfold tresEscalasOMas
  split
  · exact nofun
  · dsimp only
    split_ifs <;> exact nofun

theorem tagger_ready (tagName message : Text) (s : Unit) :
    (tagger tagName message s).1 ≠ .answered (some .notReady) := nofun

theorem compare_ready (message : Row) (x : F) :
    RowProcessors.compare w message x ≠ .answered (some .notReady) := by
  unfold RowProcessors.compare
  split
  · exact nofun
  · exact nofun
  · split
    · exact nofun
    · split_ifs
      · split <;> exact nofun
      · exact nofun

theorem distancias_ready (message : Row) (cache : Dict (Coordinates × Coordinates) F) :
    (distancias w message cache).1 ≠ .answered (some .notReady) := by
  unfold distancias
  split
  · exact nofun
  · dsimp only
    split
    · exact nofun
    · exact compare_ready message _

/-- A message is answered as without the cache. -/
theorem handle_measured {cache : Dict (Coordinates × Coordinates) F} (h : Computed w cache)
    (bytes : Bytes) : ((distanciasStage b (distancias w)).handle bytes cache).1 =
      ((distanciasStage b (stateless (measured w))).handle bytes ()).1 := by
  unfold RowStage.handle
  cases receive bytes with
  | none => rfl
  | some data =>
      have hready : (collect (distancias w) (parsePayload b joinedFields data.2.2) cache).1 ≠
          .notReady := collect_ready fun m _ s => distancias_ready m s
      have hcollect := (collect_distancias h (parsePayload b joinedFields data.2.2)).2.resolve_left
        hready
      simp only [distanciasStage,rowStage]
      rw [hcollect]
      cases (collect (stateless (measured w)) (parsePayload b joinedFields data.2.2) ()).1 with
      | raised | notReady => rfl
      | done rows => cases rows <;> rfl

theorem answers_measured {caches : Dict (Word 8) (Dict (Coordinates × Coordinates) F)}
    (h : ∀ c, Computed w (caches.getD c .empty)) (messages : List Bytes)
    (units : Dict (Word 8) Unit) :
    (distanciasStage b (distancias w)).answers .empty messages caches =
      (distanciasStage b (stateless (measured w))).answers () messages units := by
  induction messages generalizing caches units with
  | nil => rfl
  | cons bytes messages ih =>
      unfold RowStage.answers
      cases receive bytes with
      | none => exact congrArg _ (ih h units)
      | some data =>
          dsimp only
          rw [handle_measured (h data.1)]
          refine congrArg _ (ih (fun c => ?_) _)
          rw [Dict.getD_set]
          split_ifs
          · exact handleDistancias_computed (h data.1) bytes
          · exact h c

/-- Over any messages of any clients, with batches that raise in their middle among
them, a replica answers as if it measured every distance anew. -/
theorem distancias_uncached (b : Builtins) (w : Measures F) (messages : List Bytes) :
    (distanciasStage b (distancias w)).answers .empty messages .empty =
      (distanciasStage b (stateless (measured w))).answers () messages .empty :=
  answers_measured (fun _ => computed_empty w) messages .empty

/-- LatLong inserts some airports of a client. -/
def insertAll (coordinates : Logger.ClientId → String → Joiner.Coordinates) (c : Word 8) :
    List String → Joiner.State → Joiner.State
  | [],s => s
  | code :: codes,s => (insertAll coordinates c codes s).addAirport c code (coordinates c code)

theorem insertAll_inserted {c : Word 8} {codes : List String} (s : Joiner.State)
    (h : ∀ code ∈ codes, code ∈ known c) :
    Inserted coordinates known s (insertAll coordinates c codes s) := by
  induction codes with
  | nil => exact .refl s
  | cons code codes ih =>
      exact .add (h code List.mem_cons_self) (ih fun code' hcode => h code' (.tail code hcode))

theorem obtain_insertAll {c : Word 8} {code : String} {codes : List String} {s : Joiner.State}
    (hcode : code ∈ codes) :
    ((insertAll coordinates c codes s).obtainClientAirport c code).isSome = true := by
  induction codes with
  | nil => cases hcode
  | cons first codes ih =>
      unfold insertAll Joiner.State.addAirport Joiner.State.obtainClientAirport
        Joiner.State.clientAirports Dict.getD
      rw [Dict.get?_set,if_pos rfl,Option.getD_some,Dict.get?_set]
      split_ifs with heq
      · rfl
      · rcases List.mem_cons.mp hcode with rfl | hcode
        · exact absurd rfl heq
        · exact ih hcode

theorem obtainAirportLatLong_some {c : Word 8} {code : String} {state : Joiner.State}
    (h : (state.obtainClientAirport c code).isSome = true) (airports : Joiner.Airports) :
    ∃ x, (Joiner.obtainAirportLatLong c code state airports).1 = some x := by
  unfold Joiner.obtainAirportLatLong
  obtain ⟨airport,hairport⟩ := Option.isSome_iff_exists.mp h
  cases airports.get? code with
  | some x => exact ⟨x,rfl⟩
  | none =>
      rw [hairport]
      exact ⟨airport,rfl⟩

theorem joiner_ready {c : Word 8} {row : Row} {state : Joiner.State}
    (h : ∀ code ∈ codes row, (state.obtainClientAirport c code).isSome = true)
    (airports : Joiner.Airports) :
    (RowProcessors.joiner c (row,state,state) airports).1 ≠ .answered (some .notReady) := by
  unfold RowProcessors.joiner
  cases hstart : field "startingAirport" row with
  | none => exact nofun
  | some starting =>
      cases hend : field "destinationAirport" row with
      | none => exact nofun
      | some destination =>
          have hs : (state.obtainClientAirport c (.ofList starting)).isSome = true := by
            apply h
            unfold codes
            rw [hstart]
            exact List.mem_append_left _ List.mem_cons_self
          have hd : (state.obtainClientAirport c (.ofList destination)).isSome = true := by
            apply h
            unfold codes
            rw [hend]
            exact List.mem_append_right _ List.mem_cons_self
          dsimp only
          obtain ⟨x,hx⟩ := obtainAirportLatLong_some hs airports
          obtain ⟨y,hy⟩ := obtainAirportLatLong_some hd
            (Joiner.obtainAirportLatLong c (.ofList starting) state airports).2
          rw [hx,hy]
          unfold join
          dsimp only
          split <;> exact nofun

theorem isChain_replicate {s : Joiner.State} (n : ℕ) : List.IsChain (Inserted coordinates known)
    (s :: ((List.replicate n (s,s)).flatMap fun p => [p.1,p.2]) ++ [s]) := by
  have hall : s :: ((List.replicate n (s,s)).flatMap fun p => [p.1,p.2]) ++ [s] =
      List.replicate (2 * n + 2) s := by
    rw [List.eq_replicate_iff]
    refine ⟨?_,?_⟩
    · simp
      omega
    · intro t ht
      simp only [List.cons_append,List.mem_cons,List.mem_append,List.mem_flatMap,
        List.mem_replicate,List.not_mem_nil,or_false] at ht
      rcases ht with rfl | ⟨p,⟨-,rfl⟩,ht⟩ | rfl
      · rfl
      · rcases ht with rfl | rfl <;> rfl
      · rfl
  rw [hall]
  exact List.isChain_replicate_of_rel _ (.refl s)

/-- With the airports of all its rows a batch is joined. -/
theorem handleJoiner_ready {bytes : Bytes} {c i : Word 8} {text : Text}
    (hreceive : receive bytes = some (c,i,text)) {mem : Memory F}
    (hstate : ∀ row ∈ parsePayload b distanciaFields text, ∀ code ∈ codes row,
      (mem.state.obtainClientAirport c code).isSome = true) :
    ∃ out mem', handleJoiner b coordinates known bytes mem (some out) mem' := by
  have hclient := client_eq hreceive
  have hready : (collect (joinerStage b (client bytes) (List.replicate
      (parsePayload b distanciaFields text).length (mem.state,mem.state))).processor
      ((joinerStage b (client bytes) (List.replicate
        (parsePayload b distanciaFields text).length (mem.state,mem.state))).payload text)
      (mem.airports.getD (client bytes) .empty)).1 ≠ .notReady := by
    apply collect_ready
    rintro ⟨row,p⟩ hm airports
    have hzip := List.of_mem_zip (show (row,p) ∈ (parsePayload b distanciaFields text).zip
      (List.replicate (parsePayload b distanciaFields text).length (mem.state,mem.state)) from hm)
    rw [(List.mem_replicate.mp hzip.2).2,hclient]
    exact joiner_ready (hstate row hzip.1) airports
  obtain ⟨out,hout⟩ := handle_ready hreceive hready
  refine ⟨out,⟨mem.distances,mem.airports.set (client bytes) _,mem.state⟩,
    List.replicate (parsePayload b distanciaFields text).length (mem.state,mem.state),
    ?_,isChain_replicate _,hout,rfl,rfl⟩
  intro c' i' text' hreceive'
  rw [hreceive] at hreceive'
  cases hreceive'
  exact List.length_replicate

variable (b coordinates) in
/-- LatLong does its part, and the joiner answers. -/
theorem joiner_finishes {bytes : Bytes} {c i : Word 8} {text : Text}
    (hreceive : receive bytes = some (c,i,text))
    (hknown : ∀ row ∈ parsePayload b distanciaFields text, ∀ code ∈ codes row, code ∈ known c)
    (mem : Memory F) :
    ∃ state, Inserted coordinates known mem.state state ∧
      ∃ out mem', handleJoiner b coordinates known bytes {mem with state := state} (some out) mem' := by
  refine ⟨insertAll coordinates c ((parsePayload b distanciaFields text).flatMap codes) mem.state,
    insertAll_inserted _ ?_,handleJoiner_ready hreceive ?_⟩
  · intro code hcode
    obtain ⟨row,hrow,hcode⟩ := List.mem_flatMap.mp hcode
    exact hknown row hrow code hcode
  · intro row hrow code hcode
    exact obtain_insertAll (List.mem_flatMap.mpr ⟨row,hrow,hcode⟩)

variable (b w coordinates known) in
theorem stage_ready {n : Stage} (hn : n.next ≠ []) (hjoiner : n ≠ .joiner) {bytes : Bytes}
    {c i : Word 8} {text : Text} (hreceive : receive bytes = some (c,i,text)) (mem : Memory F) :
    ∃ out mem', handle b w coordinates known n bytes mem (some out) mem' := by
  cases n with
  | filterGeneral | filterAvgMax | filterMultiple | filterDistancia | filterTresEscalasOMas
  | filterDosMasRapidos => exact handleStateless_ready hreceive (filter_ready _) mem
  | tresEscalasOMas => exact handleStateless_ready hreceive tresEscalasOMas_ready mem
  | taggerTresEscalasOMas | taggerDistancias =>
      exact handleStateless_ready hreceive (tagger_ready _) mem
  | distancias =>
      obtain ⟨out,hout⟩ := handle_ready (g := distanciasStage b (distancias w))
        (s := mem.distances.getD (client bytes) .empty) hreceive
        (collect_ready fun m _ s => distancias_ready m s)
      exact ⟨out,_,hout,rfl⟩
  | joiner => exact absurd rfl hjoiner
  | loadBalancer | dosMasRapidos | resultsListener => exact absurd (by decide) hn

/-- How many stages are still to come at most. -/
def Stage.rank : Stage → ℕ
  | .resultsListener => 0
  | n => 5 - n.way.length

theorem Stage.rank_next (n k : Stage) (h : k ∈ n.next) : k.rank < n.rank := by
  have hall : ∀ n ∈ all, ∀ k ∈ n.next, k.rank < n.rank := by decide +kernel
  exact hall n n.mem_all k h

variable {uploads : List Upload} {ρ : Type} {stage : ρ → Stage}

/-- A replica answers whatever reaches its queue, as soon as LatLong has done its part. -/
theorem network_ready (hdeployed : Deployed stage)
    (hknown : ∀ u ∈ uploads, Located b w coordinates known u) (r : ρ) (bytes : Bytes) (mem : Memory F)
    (hderived : (network b w coordinates known stage).Derived (emit b w coordinates) (uploaded uploads)
      (stage r,bytes)) :
    ∃ mem', Relation.ReflTransGen ((network b w coordinates known stage).change (stage r)) mem mem' ∧
      ∃ out mem'', handle b w coordinates known (stage r) bytes mem' (some out) mem'' := by
  have hread : (stage r).next ≠ [] := (hdeployed (stage r)).mp ⟨r,rfl⟩
  obtain ⟨u,hu,ha⟩ := arrives_of_derived hderived
  have hn : stage r ≠ .resultsListener := by
    intro hstage
    rw [hstage,Stage.next_resultsListener] at hread
    exact hread rfl
  obtain ⟨text,htext,rfl⟩ := ha.payload hn
  have hreceive := receive_dataBytes u.clientId u.messageId none text
  by_cases hjoiner : stage r = .joiner
  · rw [hjoiner] at htext
    obtain ⟨state,hinserted,out,mem',hout⟩ :=
      joiner_finishes b coordinates hreceive (hknown u hu text htext) mem
    refine ⟨{mem with state := state},.single ⟨hjoiner,hinserted,rfl,rfl⟩,out,mem',?_⟩
    rw [hjoiner]
    exact hout
  · obtain ⟨out,mem',hout⟩ := stage_ready b w coordinates known hread hjoiner hreceive mem
    exact ⟨mem,.refl,out,mem',hout⟩

variable [DecidableEq ρ] [Fintype ρ]
variable {s : State Stage ρ Bytes (Option (Word 8 × Word 8)) (Memory F)}

/-- Whatever has happened, the work can be brought to its end: no message stays with
the replicas for ever, and none whose airports the client's file has is given back
for ever. -/
theorem network_finishes (hdeployed : Deployed stage) (hc : Consistent uploads)
    (hknown : ∀ u ∈ uploads, Located b w coordinates known u)
    (hs : (network b w coordinates known stage).Reached (uploaded uploads) s) :
    ∃ t, Relation.ReflTransGen (network b w coordinates known stage).Step s t ∧
      (network b w coordinates known stage).Quiet t :=
  hs.finishes (network_computes stage) (network_keyed hc) Stage.rank_next
    fun r bytes mem _ hderived => network_ready hdeployed hknown r bytes mem hderived

end
def replicas (i : Fin 11) : Stage := Stage.all.getD i .resultsListener

theorem replicas_deployed : Deployed replicas := by
  intro n
  cases n <;> decide

/-- Every airport lies on the equator, at Greenwich. -/
def nowhere (_ : Logger.ClientId) (_ : String) : Joiner.Coordinates := ("0","0")

/-- Every client's file has two airports. -/
def twoAirports (_ : Logger.ClientId) : Set String := {"A","B"}

/-- The distances between airports that are all in one place. -/
def nearby : Measures ℚ where
  float := asciiBuiltins.float
  geodesic _ _ := some 0
  exceeds total distanceBetweenAirports := decide (4 * distanceBetweenAirports < total)

/-- One flight with four stopovers. -/
def oneFlight : Upload where
  clientId := word 8 1
  messageId := word 8 1
  content := "L,,,A,B,,PT9H,,,,,,5,,7,,,,,C||D||E||F||B,,,,,,,\n".toList

def started (uploads : List Upload) :
    State Stage (Fin 11) Bytes (Option (Word 8 × Word 8)) (Memory ℚ) where
  queued := uploaded uploads
  working _ := none
  memory _ := ⟨.empty,.empty,⟨.empty⟩⟩
  stored _ := ∅

theorem started_reached (uploads : List Upload) :
    (network asciiBuiltins nearby nowhere twoAirports replicas).Reached (uploaded uploads)
      (started uploads) :=
  .init ⟨rfl,fun _ => rfl,fun _ => ⟨rfl,rfl,nofun,nofun⟩,fun _ => rfl⟩

theorem consistent_single (u : Upload) : Consistent [u] := by
  intro v hv v' hv' _ _
  rw [List.mem_singleton.mp hv,List.mem_singleton.mp hv']

theorem oneFlight_located : Located asciiBuiltins nearby nowhere twoAirports oneFlight := by
  have hcodes : ∀ text ∈ through asciiBuiltins nearby nowhere Stage.joiner.way oneFlight,
      ∀ row ∈ parsePayload asciiBuiltins distanciaFields text, ∀ code ∈ codes row,
        code = "A" ∨ code = "B" := by decide +kernel
  exact fun text htext row hrow code hcode => hcodes text htext row hrow code hcode

theorem oneFlight_finished : ∃ s,
    (network asciiBuiltins nearby nowhere twoAirports replicas).Reached (uploaded [oneFlight]) s ∧
      (network asciiBuiltins nearby nowhere twoAirports replicas).Quiet s := by
  have hstarted := started_reached [oneFlight]
  obtain ⟨s,hsteps,hquiet⟩ := hstarted.finishes (network_computes replicas)
    (network_keyed (consistent_single _)) Stage.rank_next fun r bytes mem _ hderived =>
      network_ready replicas_deployed (fun _ hu => List.mem_singleton.mp hu ▸ oneFlight_located)
        r bytes mem hderived
  exact ⟨s,hstarted.steps hsteps,hquiet⟩

theorem network_finishes_oneFlight :
    ∃ t, Relation.ReflTransGen (network asciiBuiltins nearby nowhere twoAirports replicas).Step
      (started [oneFlight]) t ∧
      (network asciiBuiltins nearby nowhere twoAirports replicas).Quiet t :=
  network_finishes replicas_deployed (consistent_single _)
    (fun _ hu => List.mem_singleton.mp hu ▸ oneFlight_located) (started_reached [oneFlight])

section
variable {b : Builtins} {F : Type} {w : Measures F}
variable {coordinates : Logger.ClientId → String → Joiner.Coordinates}
variable {known : Logger.ClientId → Set String} {uploads : List Upload}
variable {ρ : Type} {stage : ρ → Stage} [DecidableEq ρ]
variable {s : State Stage ρ Bytes (Option (Word 8 × Word 8)) (Memory F)}

/-- In whatever order the replicas handle, give back and repeat messages: a queue
holds only what is made of an upload, and in the end those that others read hold
all of it. -/
theorem network_exact (hdeployed : Deployed stage) (hc : Consistent uploads)
    (hs : (network b w coordinates known stage).Reached (uploaded uploads) s) :
    (∀ x ∈ s.queued, ∃ u ∈ uploads, Arrives b w coordinates u x) ∧
      ((network b w coordinates known stage).Quiet s → ∀ n bytes, n.next = [] →
        ((n,bytes) ∈ s.queued ↔ ∃ u ∈ uploads, Arrives b w coordinates u (n,bytes))) := by
  refine ⟨fun _ hx => queued_arrives hc hs hx,fun hquiet n bytes hn => ?_⟩
  constructor
  · exact fun hx => queued_arrives hc hs hx
  · rintro ⟨u,hu,h⟩
    exact arrives_queued hdeployed hc hs hquiet hu hn h

end

theorem network_exact_oneFlight : ∃ s,
    (network asciiBuiltins nearby nowhere twoAirports replicas).Quiet s ∧
    (∀ x ∈ s.queued, ∃ u ∈ [oneFlight], Arrives asciiBuiltins nearby nowhere u x) ∧
      ((network asciiBuiltins nearby nowhere twoAirports replicas).Quiet s →
        ∀ n bytes, n.next = [] → ((n,bytes) ∈ s.queued ↔
          ∃ u ∈ [oneFlight], Arrives asciiBuiltins nearby nowhere u (n,bytes))) := by
  obtain ⟨s,hs,hquiet⟩ := oneFlight_finished
  exact ⟨s,hquiet,network_exact replicas_deployed (consistent_single _) hs⟩

end FlightsOptimizer.RowNetwork
