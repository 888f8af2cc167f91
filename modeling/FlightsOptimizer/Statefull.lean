import Mathlib.Data.List.Sort
import Mathlib.Data.Rat.Defs
import FlightsOptimizer.LogDelete
import FlightsOptimizer.Replay

/-!
# Stateful processors and their connection log

A receiver hands the rows of a batch to the client's processor, catches what the
processor raises, and stores the whole batch in the connection log of the client.
A restarted connection builds the processors again from these logs, which it
reads from the bottom, and catches nothing.

A row is a dictionary of texts. Of the conversions of texts that the language
offers nothing is used, so they are parameters; fares and sums are exact
rationals.
-/
namespace FlightsOptimizer.Statefull
open Text LoggerText Replay

abbrev Row := Dict Text Text

/-- `float(s)`, `int(s)`, the value of a decimal digit, `c.isspace()`, and the
integers that are beyond all floats, by which no float can be divided. -/
structure Builtins where
  float : Text → Option ℚ
  int : Text → Option ℤ
  digit : Char → Option ℕ
  space : Char → Bool
  tooLarge : ℤ → Bool

/-- The conversions of ASCII integers. -/
def asciiBuiltins : Builtins where
  float s := (toInt? s).map fun z => (z : ℚ)
  int := toInt?
  digit c := if c.isDigit then some (c.toNat - 48) else none
  space := Char.isWhitespace
  tooLarge _ := false

/-- `dict(zip(input_fields, message_string.split(",")))`. -/
def parse (inputFields : List Text) (messageString : Text) : Row :=
  dict (inputFields.zip (split [','] messageString))

/-- The payload that `handle_protocol` makes of the text of a message. -/
def parsePayload (b : Builtins) (inputFields : List Text) (payload : Text) : List Row :=
  (split ['\n'] (payload.reverse.dropWhile b.space).reverse).map (parse inputFields)

section
variable (b : Builtins)

/-- `message[field]`, where a missing field raises. -/
def field (name : String) (message : Row) : Option Text := message.get? name.toList

/-- `(?:(\d+)U)?` for the letter `U`, and the rest of the text. -/
def optionalNumber (unit : Char) (s : Text) : ℕ × Text :=
  let digits := s.takeWhile fun c => (b.digit c).isSome
  match s.dropWhile fun c => (b.digit c).isSome with
  | c :: rest =>
      if digits ≠ [] ∧ c = unit then
        (digits.foldl (fun n c => 10*n + (b.digit c).getD 0) 0,rest)
      else (0,s)
  | [] => (0,s)

/-- `re.search` finds the first P; behind it every part is optional. -/
def convertTravelDuration (travelDuration : Text) : ℕ :=
  match travelDuration.dropWhile fun c => c ≠ 'P' with
  | [] => 0
  | _ :: rest =>
      let (days,rest) := optionalNumber b 'D' rest
      match rest with
      | 'T' :: rest =>
          let (hours,rest) := optionalNumber b 'H' rest
          let (minutes,_) := optionalNumber b 'M' rest
          days*24*60 + hours*60 + minutes
      | _ => days*24*60

def convertMessageToTravelDuration (message : Row) : Option ℕ :=
  (field "travelDuration" message).map (convertTravelDuration b)

def convertMessageToTrajectory (message : Row) : Option Text := do
  let start ← field "startingAirport" message
  let destination ← field "destinationAirport" message
  some (start ++ '-' :: destination)

/-- `fastest.sort(key=...)`: where a key raises the list stays as it is. -/
def sortFastest (fastest : List Row) : Outcome (List Row) :=
  if ∀ m ∈ fastest, (convertMessageToTravelDuration b m).isSome then
    .done (fastest.insertionSort fun m m' => (convertMessageToTravelDuration b m).getD 0 ≤
      (convertMessageToTravelDuration b m').getD 0)
  else .raised fastest

def addToFastest (fastest : List Row) (message : Row) : Outcome (List Row) :=
  match convertMessageToTravelDuration b message with
  | none => .raised fastest
  | some travelDuration =>
      match fastest with
      | first :: second :: rest =>
          match convertMessageToTravelDuration b second with
          | none => .raised fastest
          | some secondFastest =>
              sortFastest b
                (if travelDuration < secondFastest then first :: message :: rest else fastest)
      | _ => sortFastest b (fastest ++ [message])

/-- The trajectories with their fastest messages. -/
def dosMasRapidos : Processor Row (Dict Text (List Row)) where
  init := .empty
  process message s :=
    match convertMessageToTrajectory message with
    | none => .raised s
    | some trajectory =>
        match s.get? trajectory with
        | none => .done (s.set trajectory [message])
        | some fastest =>
            match addToFastest b fastest message with
            | .done fastest => .done (s.set trajectory fastest)
            | .raised fastest => .raised (s.set trajectory fastest)

def getRoute (message : Row) : Option Text := convertMessageToTrajectory message

def getTotalFare (message : Row) : Option ℚ := (field "totalFare" message).bind b.float

/-- The routes with their fares. -/
def grouper : Processor Row (Dict Text (List ℚ)) where
  init := .empty
  process message s :=
    match getRoute message,getTotalFare b message with
    | some route,some totalFare => .done (s.push route totalFare)
    | _,_ => .raised s

structure MediaGeneral where
  amountReceived : ℕ
  priceSum : ℚ
  amount : ℤ
  deriving DecidableEq

/-- When the last grouper has reported the division by the amount may raise. -/
def mediaGeneral (grouperReplicasCount : ℕ) : Processor Row MediaGeneral where
  init := ⟨0,0,0⟩
  process message s :=
    match field "sum" message,field "amount" message with
    | some sum,some amount =>
        match b.float sum with
        | none => .raised s
        | some sum =>
            match b.int amount with
            | none => .raised {s with priceSum := s.priceSum + sum}
            | some amount =>
                let s := ⟨s.amountReceived + 1,s.priceSum + sum,s.amount + amount⟩
                if s.amountReceived = grouperReplicasCount ∧
                    (s.amount = 0 ∨ b.tooLarge s.amount = true) then .raised s
                else .done s
    | _,_ => .raised s

/-- The airports of one client in the state that the joiner shares. -/
def latLong : Processor Row (Dict Text (Text × Text)) where
  init := .empty
  process message s :=
    match field "AirportCode" message,field "Latitude" message,field "Longitude" message with
    | some airportCode,some latitude,some longitude => .done (s.set airportCode (latitude,longitude))
    | _,_,_ => .raised s

end

/-- One message that the receiver acknowledged. -/
structure Batch where
  messageId : ℤ
  clientId : ℤ
  payload : Text

/-- What `json.dumps` is given. -/
def rowJson (message : Row) : Json := .obj (message.entries.map fun p => (p.1,.str p.2))

def rowsJson (messages : List Row) : Json := .arr (messages.map rowJson)

def textMember : Text × Json → Option (Text × Text)
  | (key,.str value) => some (key,value)
  | _ => none

def rowOfJson : Json → Option Row
  | .obj members => (members.mapM textMember).map dict
  | _ => none

def rowsOfJson : Json → Option (List Row)
  | .arr items => items.mapM rowOfJson
  | _ => none

section
variable {σ : Type} (P : Processor Row σ)

structure Connection (σ : Type) where
  processors : Dict ℤ σ
  files : Files

/-- A client without a processor gets a new one. -/
def Connection.getProcessor (c : ℤ) (k : Connection σ) : σ := k.processors.getD c P.init

/-- `handle_protocol` and `finish_storing_message`: whatever the processor raises,
the batch is saved. -/
def Connection.handle (rows : Text → List Row) (k : Connection σ) (d : Batch) : Connection σ where
  processors := k.processors.set d.clientId
    (P.run (rows d.payload) (k.getProcessor P d.clientId)).state
  files := saveConnection d.messageId d.clientId (rowsJson (rows d.payload)) k.files

/-- A connection after the batches, from an empty log. -/
def received (rows : Text → List Row) (ds : List Batch) : Connection σ :=
  ds.foldl (Connection.handle P rows) ⟨.empty,LogRestore.noFiles⟩

/-- `search_for_all_connection_messages` and the two loops over its answer. -/
def restoreStatefullProcessor (c : ℤ) (f : Files) : Option σ := do
  let allMessages ← obtainAllConnectionMessages c f
  let batches ← allMessages.mapM rowsOfJson
  (P.run batches.flatten P.init).done?

/-- The ids that the names of the connection logs begin with. -/
def obtainAllActiveConnectionClients (names : List Text) : Option (List ℤ) := names.mapM toInt?

/-- `Connection.__init__`, when the directory lists the connection logs in the
order of `names`. -/
def construct (names : List Text) (f : Files) : Option (Dict ℤ σ) := do
  let clientsIds ← obtainAllActiveConnectionClients names
  clientsIds.foldlM (fun d c => (restoreStatefullProcessor P c f).map (d.set c)) .empty

end

theorem rowOfJson_rowJson (message : Row) : rowOfJson (rowJson message) = some message := by
  have hmembers : (message.entries.map fun p => (p.1,Json.str p.2)).mapM textMember =
      some message.entries :=
    mapM_map_eq_some (f := fun p => (p.1,Json.str p.2)) (g := textMember) (fun _ => rfl) _
  exact (congrArg (Option.map dict) hmembers).trans (congrArg some (dict_self message))

theorem rowsOfJson_rowsJson (messages : List Row) :
    rowsOfJson (rowsJson messages) = some messages :=
  mapM_map_eq_some rowOfJson_rowJson messages

theorem dumpItems_last (vs : List Json) : ∃ t, Json.dumpItems vs = t ++ [']'] := by
  induction vs with
  | nil => exact ⟨[],rfl⟩
  | cons v vs ih =>
      obtain ⟨t,ht⟩ := ih
      refine ⟨',' :: ' ' :: (v.dumps ++ t),?_⟩
      rw [Json.dumpItems,ht]
      simp only [List.cons_append,List.append_assoc]

theorem strip_ends {x y : Char} (hx : x.isWhitespace = false) (hy : y.isWhitespace = false)
    (s : Text) : strip (x :: (s ++ [y])) = x :: (s ++ [y]) := by
  unfold strip
  rw [List.dropWhile_cons_of_neg (by simp [hx])]
  have hreverse : (x :: (s ++ [y])).reverse = y :: (s.reverse ++ [x]) := by simp
  rw [hreverse,List.dropWhile_cons_of_neg (by simp [hy])]
  simp

/-- A written list begins and ends with its brackets. -/
theorem strip_dumps_arr (items : List Json) :
    strip (Json.arr items).dumps = (Json.arr items).dumps := by
  cases items with
  | nil => rfl
  | cons v vs =>
      obtain ⟨t,ht⟩ := dumpItems_last vs
      have hdumps : (Json.arr (v :: vs)).dumps = '[' :: ((v.dumps ++ t) ++ [']']) := by
        rw [Json.dumps,ht,List.append_assoc]
      rw [hdumps]
      exact strip_ends rfl rfl _

theorem splitMax_connectionLine (m : ℤ) (v : Json) :
    splitMax ['/'] 1 (connectionLine m v) = [ofInt m,v.dumps] := by
  have hclean : Framing.Clean ['/'] (ofInt m) :=
    clean_of_not_mem (a := []) (b := []) (not_mem_ofInt (by decide) rfl m) List.not_mem_nil
  have hline : connectionLine m v = ofInt m ++ ['/'] ++ v.dumps := by
    unfold connectionLine
    rw [List.append_assoc]
    rfl
  rw [hline,splitMax,Framing.splitFirst_clean hclean]
  rfl

open LogDelete LineFile in
/-- A client's file yields what was saved, from the last to the first. -/
theorem obtainAllConnectionMessages_of_holds {c : ℤ} {f : Files} {saved : List (ℤ × List Json)}
    (h : Holds (f.connection.get? (ofInt c))
      (connectionLines (saved.map fun e => (e.1,Json.arr e.2)))) :
    obtainAllConnectionMessages c f = some (saved.reverse.map fun e => Json.arr e.2) := by
  have hclean : ∀ l ∈ connectionLines (saved.map fun e => (e.1,Json.arr e.2)), Clean l := by
    intro l hl
    obtain ⟨e,-,rfl⟩ := List.mem_map.mp hl
    exact clean_connectionLine e.1 e.2
  unfold obtainAllConnectionMessages
  cases hfile : f.connection.get? (ofInt c) with
  | none =>
      rw [hfile] at h
      cases saved with
      | nil => rfl
      | cons e es =>
          unfold connectionLines at h
          rw [List.map_cons,List.map_cons,Holds,unlines_cons] at h
          exact absurd h.symm (by simp)
  | some file =>
      rw [hfile] at h
      have hlines : file = unlines _ := h
      simp only [hlines]
      unfold readLines
      rw [readBottomToTop_unlines (by decide) hclean]
      unfold connectionLines
      rw [← List.map_reverse,← List.map_reverse,List.map_map]
      apply mapM_map
      intro e
      simp only [Function.comp_apply,splitMax_connectionLine,strip_dumps_arr,Json.loads_dumps]

section
variable {σ : Type} (P : Processor Row σ) (rows : Text → List Row) (c : ℤ) (ds : List Batch)

/-- The batches of a client in the order of their arrival. -/
def batchesOf : List (List Row) :=
  (ds.filter fun d => d.clientId = c).map fun d => rows d.payload

/-- What `save_connection` was given for the client. -/
def savedOf : List (ℤ × List Json) :=
  (ds.filter fun d => d.clientId = c).map fun d => (d.messageId,(rows d.payload).map rowJson)

variable {rows c ds} in
theorem received_append_singleton (d : Batch) :
    received P rows (ds ++ [d]) = (received P rows ds).handle P rows d := by
  unfold received
  rw [List.foldl_append]
  rfl

theorem filter_concat_of_eq {d : Batch} (h : d.clientId = c) :
    (ds ++ [d]).filter (fun d => d.clientId = c) = ds.filter (fun d => d.clientId = c) ++ [d] := by
  simp [h]

theorem filter_concat_of_ne {d : Batch} (h : d.clientId ≠ c) :
    (ds ++ [d]).filter (fun d => d.clientId = c) = ds.filter (fun d => d.clientId = c) := by
  simp [h]

open LogDelete LineFile in
theorem holds_received : Holds ((received P rows ds).files.connection.get? (ofInt c))
    (connectionLines ((savedOf rows c ds).map fun e => (e.1,Json.arr e.2))) := by
  induction ds using List.reverseRecOn with
  | nil => rfl
  | append_singleton ds d ih =>
      have hstep : (received P rows (ds ++ [d])).files.connection =
          appendLine d.clientId (connectionLine d.messageId (rowsJson (rows d.payload)))
            (received P rows ds).files.connection := by
        rw [received_append_singleton]
        rfl
      unfold Holds at ih ⊢
      rw [hstep]
      unfold appendLine savedOf
      by_cases hc : d.clientId = c
      · rw [filter_concat_of_eq c ds hc,hc,Dict.get?_set_self,Option.getD_some,List.map_append,
          List.map_append]
        unfold connectionLines at ih ⊢
        rw [List.map_append,unlines_append]
        exact congrArg (· ++ _) ih
      · have hne : ofInt d.clientId ≠ ofInt c := fun he => hc (ofInt_injective he)
        rw [filter_concat_of_ne c ds hc,Dict.get?_set_ne _ hne]
        exact ih

/-- A restart hands the processor the rows of the last batch first; so it does a
processor that has not saved them. -/
theorem restore_received {τ : Type} (Q : Processor Row τ) :
    restoreStatefullProcessor Q c (received P rows ds).files =
      (Q.run (batchesOf rows c ds).reverse.flatten Q.init).done? := by
  have hlog := obtainAllConnectionMessages_of_holds (holds_received P rows c ds)
  have hmessages : ((savedOf rows c ds).reverse.map fun e => Json.arr e.2) =
      (batchesOf rows c ds).reverse.map rowsJson := by
    unfold savedOf batchesOf rowsJson
    simp only [← List.map_reverse,List.map_map]
    rfl
  unfold restoreStatefullProcessor
  rw [hlog,hmessages]
  simp only [Option.bind_eq_bind,Option.bind_some,mapM_map_eq_some rowsOfJson_rowsJson]

variable {P rows c} in
/-- A client whose processor is not there yet has sent no batch. -/
theorem getProcessor_of_processors {k : Connection σ} {batches : List (List Row)}
    (h : k.processors.get? c = if batches = [] then none else some (P.live batches)) :
    k.getProcessor P c = P.live batches := by
  unfold Connection.getProcessor Dict.getD
  rw [h]
  split_ifs with hnil
  · rw [hnil]
    rfl
  · rfl

/-- The live processor has read the batches of its client in their order. -/
theorem processors_received : (received P rows ds).processors.get? c =
    if batchesOf rows c ds = [] then none else some (P.live (batchesOf rows c ds)) := by
  induction ds using List.reverseRecOn with
  | nil => rfl
  | append_singleton ds d ih =>
      rw [received_append_singleton]
      unfold Connection.handle batchesOf
      by_cases hc : d.clientId = c
      · rw [filter_concat_of_eq c ds hc,List.map_append]
        simp only [hc,getProcessor_of_processors ih,Dict.get?_set_self]
        rw [if_neg (by simp)]
        unfold Processor.live
        rw [List.foldl_append]
        rfl
      · rw [filter_concat_of_ne c ds hc]
        exact (Dict.get?_set_ne _ hc _).trans ih

end

end FlightsOptimizer.Statefull
