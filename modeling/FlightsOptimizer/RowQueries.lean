import FlightsOptimizer.RowNetwork

/-!
# What the queries of rows answer

Between two stages a batch is a text with the fields of the rows, and the stage
behind parses what the stage before has joined. Over well-formed flights the way
through all stages then comes down to one selection of the uploaded rows.
-/
namespace FlightsOptimizer.RowQueries
open Framing Text LoggerText Statefull Connection Hop RowProcessors RowNetwork

/-- The row with these fields only; a missing value counts as empty. -/
def project (fields : List Text) (row : Row) : Row :=
  dict (fields.map fun f => (f,(row.get? f).getD []))

def line (fields : List Text) (row : Row) : Text := [','].intercalate (cells id fields row)

/-- A payload. -/
def wire (fields : List Text) (rows : List Row) : Text := ['\n'].intercalate (rows.map (line fields))

/-- The text does not end in white space. -/
def Trimmed (b : Builtins) (s : Text) : Prop := ∀ c, s.getLast? = some c → b.space c = false

/-- The row can be sent as a line with these fields. -/
structure Sendable (b : Builtins) (fields : List Text) (row : Row) : Prop where
  plain : Plain id fields row
  ends : ∃ c, (line fields row).getLast? = some c ∧ b.space c = false

section
variable {b : Builtins} {fields fields' : List Text} {row : Row} {rows : List Row}

theorem get?_project (hfields : fields.Nodup) (row : Row) (f : Text) :
    (project fields row).get? f = if f ∈ fields then some ((row.get? f).getD []) else none := by
  have hfst : (fields.map fun f => (f,(row.get? f).getD [])).map Prod.fst = fields := by
    rw [List.map_map]
    exact List.map_id fields
  have hentries : (dict (fields.map fun f => (f,(row.get? f).getD []))).entries =
      fields.map fun f => (f,(row.get? f).getD []) := dict_entries (by rw [hfst]; exact hfields)
  unfold project
  split_ifs with hf
  · rw [Dict.get?_eq_some_iff,hentries]
    exact List.mem_map.mpr ⟨f,hf,rfl⟩
  · cases hget : (dict (fields.map fun f => (f,(row.get? f).getD []))).get? f with
    | none => rfl
    | some v =>
        rw [Dict.get?_eq_some_iff,hentries] at hget
        obtain ⟨g,hg,heq⟩ := List.mem_map.mp hget
        cases heq
        exact absurd hg hf

theorem cells_eq (fields : List Text) (row : Row) :
    cells id fields row = fields.map fun f => (row.get? f).getD [] := by
  unfold cells
  simp only [Option.map_id,id_eq]

theorem line_project (hfields : fields'.Nodup) (hsub : fields ⊆ fields') (row : Row) :
    line fields (project fields' row) = line fields row := by
  unfold line
  rw [cells_eq,cells_eq]
  congr 1
  apply List.map_congr_left
  intro f hf
  rw [get?_project hfields,if_pos (hsub hf)]
  rfl

theorem wire_project (hfields : fields'.Nodup) (hsub : fields ⊆ fields') (rows : List Row) :
    wire fields (rows.map (project fields')) = wire fields rows := by
  unfold wire
  rw [List.map_map]
  congr 1
  exact List.map_congr_left fun row _ => line_project hfields hsub row

theorem plain_mono (hsub : fields ⊆ fields') (h : Plain id fields' row) : Plain id fields row :=
  fun f hf => h f (hsub hf)

theorem plain_project (hfields : fields'.Nodup) (hsub : fields ⊆ fields') (h : Plain id fields row) :
    Plain id fields (project fields' row) := by
  intro f hf
  obtain ⟨v,hv,hcomma,hfeed⟩ := h f hf
  refine ⟨v,?_,hcomma,hfeed⟩
  rw [get?_project hfields,if_pos (hsub hf),hv]
  rfl

/-- A line ends as its last value, or in a comma. -/
theorem sendable_of_trimmed (hcomma : b.space ',' = false) {last v : Text}
    (hlength : 2 ≤ fields.length) (hend : fields.getLast? = some last)
    (h : Plain id fields row) (hv : row.get? last = some v) (ht : Trimmed b v) :
    Sendable b fields row := by
  refine ⟨h,?_⟩
  obtain ⟨front,rfl⟩ := List.getLast?_eq_some_iff.mp hend
  obtain ⟨first,between,rfl⟩ : ∃ first between, front = first :: between := by
    cases front with
    | nil => simp at hlength
    | cons first between => exact ⟨first,between,rfl⟩
  have hcells : cells id (first :: between ++ [last]) row =
      cells id (first :: between) row ++ [v] := by
    rw [cells_eq,cells_eq,List.map_append,List.map_singleton,hv]
    rfl
  have hinter : ∀ (first : Text) (rest : List Text), [','].intercalate (first :: rest ++ [v]) =
      [','].intercalate (first :: rest) ++ ',' :: v := by
    intro first rest
    induction rest generalizing first with
    | nil => simp [List.intercalate_cons_cons]
    | cons second rest ih =>
        rw [List.cons_append,List.cons_append,List.intercalate_cons_cons,← List.cons_append,
          ih second,List.intercalate_cons_cons]
        simp
  unfold line
  rw [hcells]
  have hfirst : cells id (first :: between) row = (row.get? first).getD [] ::
      cells id between row := by
    rw [cells_eq,cells_eq,List.map_cons]
  rw [hfirst,hinter,List.getLast?_append_cons]
  cases hlast : v.getLast? with
  | none =>
      rw [List.getLast?_eq_none_iff] at hlast
      subst hlast
      exact ⟨',',rfl,hcomma⟩
  | some c =>
      refine ⟨c,?_,ht c hlast⟩
      rw [List.getLast?_cons,hlast]
      rfl

theorem line_no_feed (h : Plain id fields row) : '\n' ∉ line fields row := line_of_plain h

theorem parse_line (hne : fields ≠ []) (h : Plain id fields row) :
    parse fields (line fields row) = project fields row := by
  have hcellsne : cells id fields row ≠ [] := fun hnil => hne (List.map_eq_nil_iff.mp hnil)
  have hsplit := split_intercalate hcellsne fun cell hcell => (not_mem_cells h cell hcell).1
  unfold parse line project
  rw [hsplit,cells_eq,zip_map_self]

/-- Nothing is stripped of a payload that was sent. -/
theorem lines_wire (hne : rows ≠ []) (h : ∀ row ∈ rows, Sendable b fields row) :
    lines b (wire fields rows) = rows.map (line fields) := by
  obtain ⟨c,hc,hspace⟩ := (h _ (List.getLast_mem hne)).ends
  have hlast : (rows.map (line fields)).getLast? = some (line fields (rows.getLast hne)) := by
    rw [List.getLast?_map,List.getLast?_eq_some_getLast hne,Option.map_some]
  have hend : (['\n'].intercalate (rows.map (line fields))).getLast? = some c :=
    getLast?_intercalate hlast hc
  unfold lines wire
  rw [rstrip_eq hend hspace]
  apply split_intercalate
  · exact fun hnil => hne (List.map_eq_nil_iff.mp hnil)
  · intro text htext
    obtain ⟨row,hrow,rfl⟩ := List.mem_map.mp htext
    exact line_no_feed (h row hrow).plain

theorem parsePayload_eq (payload : Text) :
    parsePayload b fields payload = (lines b payload).map (parse fields) := rfl

theorem parsePayload_wire (hfieldsne : fields ≠ []) (hne : rows ≠ [])
    (h : ∀ row ∈ rows, Sendable b fields row) :
    parsePayload b fields (wire fields rows) = rows.map (project fields) := by
  rw [parsePayload_eq,lines_wire hne h,List.map_map]
  exact List.map_congr_left fun row hrow => parse_line hfieldsne (h row hrow).plain

theorem joinRows_wire (h : ∀ row ∈ rows, Plain id fields row) :
    joinRows fields rows = some (wire fields rows) := by
  unfold joinRows
  rw [serialize_rows h,Option.map_some]
  rfl

/-- The processor answers each message with at most one. -/
theorem collect_rows {ι μ α : Type} {f : μ → Answer α} {k : ι → μ} {g : ι → Option α} {is : List ι}
    (h : ∀ i ∈ is, f (k i) = .answered ((g i).map .single)) :
    collect (stateless f) (is.map k) () = (.done (is.filterMap g),()) := by
  induction is with
  | nil => rfl
  | cons i is ih =>
      have hrest := ih fun j hj => h j (List.mem_cons_of_mem i hj)
      have hf : (stateless f (k i) ()).1 = .answered ((g i).map .single) := h i List.mem_cons_self
      have hu : (stateless f (k i) ()).2 = () := rfl
      rw [List.map_cons]
      simp only [collect]
      rw [hf,hu]
      cases hg : g i with
      | none =>
          rw [List.filterMap_cons_none hg]
          exact hrest
      | some a =>
          rw [List.filterMap_cons_some hg]
          simp only [Option.map_some,hrest]
          rfl

/-- One row that raises costs the whole batch. -/
theorem collect_raised {μ α : Type} {f : μ → Answer α} {ms : List μ}
    (hready : ∀ m ∈ ms, f m ≠ .answered (some .notReady)) (h : ∃ m ∈ ms, f m = .raised) :
    (collect (stateless f) ms ()).1 = .raised := by
  induction ms with
  | nil => simp at h
  | cons m ms ih =>
      have hu : (stateless f m ()).2 = () := rfl
      have hf : (stateless f m ()).1 = f m := rfl
      have hm := hready m List.mem_cons_self
      simp only [collect]
      rw [hf,hu]
      cases hfm : f m with
      | raised => rfl
      | answered response =>
          obtain ⟨m',hmem,hraised⟩ := h
          have hin : m' ∈ ms := by
            rcases List.mem_cons.mp hmem with rfl | hin
            · rw [hfm] at hraised
              cases hraised
            · exact hin
          have hrest := ih (fun m hm => hready m (List.mem_cons_of_mem _ hm)) ⟨m',hin,hraised⟩
          cases response with
          | none => exact hrest
          | some response =>
              cases response with
              | notReady => exact absurd hfm hm
              | single a | multiple as | sendEof a =>
                  simp only [hrest]
                  rfl

/-- What is sent of some rows. -/
def sent (fields : List Text) (rows : List Row) : Option Text :=
  if rows = [] then none else some (wire fields rows)

theorem sent_project (hfields : fields'.Nodup) (hsub : fields ⊆ fields') (rows : List Row) :
    sent fields (rows.map (project fields')) = sent fields rows := by
  unfold sent
  simp only [wire_project hfields hsub,List.map_eq_nil_iff]

/-- A stage in terms of what its messages were made of. -/
theorem output_rows {ι μ : Type} {payload : Text → List μ} {f : μ → Answer Row} {text : Text}
    {k : ι → μ} {g : ι → Option Row} {is : List ι} (hpayload : payload text = is.map k)
    (hf : ∀ i ∈ is, f (k i) = .answered ((g i).map .single))
    (hplain : ∀ i ∈ is, ∀ row, g i = some row → Plain id fields row) :
    (rowStage payload fields (stateless f)).output text () = sent fields (is.filterMap g) := by
  have hall : ∀ row ∈ is.filterMap g, Plain id fields row := by
    intro row hrow
    obtain ⟨i,hi,hg⟩ := List.mem_filterMap.mp hrow
    exact hplain i hi row hg
  unfold RowStage.output rowStage sent
  simp only [hpayload,collect_rows hf]
  cases hrows : is.filterMap g with
  | nil => rfl
  | cons row rows =>
      rw [hrows] at hall
      rw [if_neg (List.cons_ne_nil _ _)]
      exact joinRows_wire hall

theorem mapM_fields (h : Plain id fields row) :
    (fields.mapM fun f => (row.get? f).map fun v => (f,v)) =
      some (fields.map fun f => (f,(row.get? f).getD [])) := by
  induction fields with
  | nil => rfl
  | cons f fs ih =>
      obtain ⟨v,hv,-⟩ := h f List.mem_cons_self
      have hrest := ih fun g hg => h g (List.mem_cons_of_mem f hg)
      rw [List.mapM_cons,hv,hrest]
      simp [hv]

theorem filter_eq (fields : List Text) :
    filter fields = stateless fun row => (filter fields row ()).1 := by
  funext row s
  rfl

theorem filter_plain (h : Plain id fields row) :
    (filter fields row ()).1 = .answered (some (.single (project fields row))) := by
  unfold filter
  rw [mapM_fields h]
  rfl

/-- A filter behind another stage keeps all rows. -/
theorem filterStage_wire (hfields : fields.Nodup) (hfieldsne : fields ≠ [])
    (hfields' : fields'.Nodup) (hsub : fields' ⊆ fields) (hne : rows ≠ [])
    (h : ∀ row ∈ rows, Sendable b fields row) :
    (filterStage b fields fields').output (wire fields rows) () = sent fields' rows := by
  have hplain : ∀ row ∈ rows, Plain id fields' (project fields row) :=
    fun row hrow => plain_project hfields hsub (plain_mono hsub (h row hrow).plain)
  have hmap : rows.filterMap (fun row => some (project fields' (project fields row))) =
      (rows.map (project fields)).map (project fields') := by
    rw [List.map_map]
    exact congrFun List.filterMap_eq_map' rows
  unfold filterStage
  rw [filter_eq,output_rows (g := fun row => some (project fields' (project fields row)))
    (parsePayload_wire hfieldsne hne h)]
  · rw [hmap,sent_project hfields' (List.Subset.refl _),sent_project hfields hsub]
  · exact fun row hrow => filter_plain (hplain row hrow)
  · intro row hrow r hr
    cases hr
    exact plain_project hfields' (List.Subset.refl _) (hplain row hrow)

/-- A line of the result. -/
def tagged (tagName : String) (fields : List Text) (row : Row) : Text :=
  '[' :: tagName.toList ++ ']' :: line fields row

/-- The result of a batch, if any of its rows is left. -/
def result (tagName : String) (fields : List Text) (rows : List Row) : Option Text :=
  if rows = [] then none else some (['\n'].intercalate (rows.map (tagged tagName fields)))

theorem taggerStage_wire (tagName : String) (tagId : Word 1) (hne : rows ≠ [])
    (h : ∀ row ∈ rows, Sendable b fields row) :
    (taggerStage b tagName tagId).output (wire fields rows) () = result tagName fields rows := by
  have hcollect : collect (tagger tagName.toList) (rows.map (line fields)) () =
      (.done (rows.filterMap fun row => some (tagged tagName fields row)),()) :=
    collect_rows (f := fun text => (tagger tagName.toList text ()).1) fun _ _ => rfl
  have hmap : rows.filterMap (fun row => some (tagged tagName fields row)) =
      rows.map (tagged tagName fields) := congrFun List.filterMap_eq_map' rows
  unfold RowStage.output taggerStage result
  simp only [lines_wire hne h,hcollect,hmap]
  rw [if_neg hne]
  cases rows with
  | nil => exact absurd rfl hne
  | cons row rows => rfl

def value (name : String) (row : Row) : Text := (field name row).getD []

/-- The flight has the values that the queries read, and those with which a line may
end do not end in white space. -/
structure Complete (b : Builtins) (row : Row) : Prop where
  fields : ∀ f ∈ filteredFields, (row.get? f).isSome = true
  totalFare : Trimmed b (value "totalFare" row)
  totalTravelDistance : Trimmed b (value "totalTravelDistance" row)
  segmentsArrivalAirportCode : Trimmed b (value "segmentsArrivalAirportCode" row)

/-- The rows of an upload. -/
def flights (b : Builtins) (u : Upload) : List Row := parsePayload b flightFields u.content

theorem mem_of_get?_dict {κ α : Type} [DecidableEq κ] {ps : List (κ × α)} {k : κ} {v : α}
    (h : (dict ps).get? k = some v) : (k,v) ∈ ps := by
  induction ps using List.reverseRecOn with
  | nil => cases h
  | append_singleton ps p ih =>
      have hset : dict (ps ++ [p]) = (dict ps).set p.1 p.2 := by
        unfold dict
        rw [List.foldl_append]
        rfl
      rw [hset,Dict.get?_set] at h
      split_ifs at h with hk
      · cases h
        subst hk
        exact List.mem_append_right _ List.mem_cons_self
      · exact List.mem_append_left _ (ih h)

/-- No part has a separator in it, and nothing is added to the text. -/
theorem mem_splitMax {c : Char} {n : ℕ} {s p : Text} (hn : s.length ≤ n)
    (hp : p ∈ splitMax [c] n s) : c ∉ p ∧ ∀ d ∈ p, d ∈ s := by
  induction n generalizing s with
  | zero =>
      rw [List.eq_nil_of_length_eq_zero (Nat.le_zero.mp hn)] at hp ⊢
      rw [List.mem_singleton.mp hp]
      exact ⟨List.not_mem_nil,fun _ h => h⟩
  | succ n ih =>
      unfold splitMax at hp
      cases hfirst : splitFirst [c] s with
      | none =>
          simp only [hfirst] at hp
          rw [List.mem_singleton.mp hp]
          refine ⟨fun hc => splitFirst_none hfirst ?_,fun _ h => h⟩
          obtain ⟨pre,post,rfl⟩ := List.append_of_mem hc
          exact ⟨pre,post,by simp⟩
      | some parts =>
          obtain ⟨before,after⟩ := parts
          obtain ⟨hs,hleast⟩ := splitFirst_some hfirst
          simp only [hfirst] at hp
          have hlength : after.length ≤ n := by
            rw [hs] at hn
            simp only [List.length_append,List.length_singleton] at hn
            omega
          rcases List.mem_cons.mp hp with rfl | hp
          · refine ⟨fun hc => ?_,fun d hd => by rw [hs]; simp [hd]⟩
            obtain ⟨pre,post,rfl⟩ := List.append_of_mem hc
            have hle := hleast pre (post ++ [c] ++ after) (by rw [hs]; simp)
            simp only [List.length_append,List.length_cons] at hle
            omega
          · obtain ⟨hno,hsub⟩ := ih hlength hp
            exact ⟨hno,fun d hd => by rw [hs]; simp [hsub d hd]⟩

theorem splitMax_ne_nil (sep : Text) (n : ℕ) (s : Text) : splitMax sep n s ≠ [] := by
  cases n with
  | zero => exact List.cons_ne_nil _ _
  | succ n =>
      unfold splitMax
      cases splitFirst sep s <;> exact List.cons_ne_nil _ _

variable {u : Upload}

theorem flights_ne_nil : flights b u ≠ [] := by
  unfold flights parsePayload
  exact fun h => splitMax_ne_nil _ _ _ (List.map_eq_nil_iff.mp h)

/-- A value of an uploaded row can be joined again. -/
theorem value_plain (hrow : row ∈ flights b u) {f v : Text} (hv : row.get? f = some v) :
    ',' ∉ v ∧ '\n' ∉ v := by
  obtain ⟨text,htext,rfl⟩ := List.mem_map.mp hrow
  have hcell := (List.of_mem_zip (mem_of_get?_dict hv)).2
  obtain ⟨hcomma,hsub⟩ := mem_splitMax le_rfl hcell
  exact ⟨hcomma,fun hfeed => (mem_splitMax le_rfl htext).1 (hsub _ hfeed)⟩

theorem Complete.plain (h : Complete b row) (hrow : row ∈ flights b u) :
    Plain id filteredFields row := by
  intro f hf
  obtain ⟨v,hv⟩ := Option.isSome_iff_exists.mp (h.fields f hf)
  obtain ⟨hcomma,hfeed⟩ := value_plain hrow hv
  exact ⟨v,hv,hcomma,hfeed⟩

theorem Complete.field (h : Complete b row) {name : String} (hname : name.toList ∈ filteredFields) :
    Statefull.field name row = some (value name row) := by
  obtain ⟨v,hv⟩ := Option.isSome_iff_exists.mp (h.fields _ hname)
  have hfield : Statefull.field name row = some v := hv
  unfold value
  rw [hfield]
  rfl

theorem Complete.sendable (hcomma : b.space ',' = false) (h : Complete b row)
    (hrow : row ∈ flights b u) (hlength : 2 ≤ fields.length) {last : String}
    (hend : fields.getLast? = some last.toList) (hsub : fields ⊆ filteredFields)
    (hlast : Trimmed b (value last row)) : Sendable b fields row :=
  sendable_of_trimmed hcomma hlength hend (plain_mono hsub (h.plain hrow))
    (h.field (hsub (List.mem_of_getLast? hend))) hlast

/-- The flights of the batch are complete. -/
def CompleteBatch (b : Builtins) (u : Upload) : Prop := ∀ row ∈ flights b u, Complete b row

section
variable (hcomma : b.space ',' = false) (h : CompleteBatch b u)
include hcomma h

theorem sendable_filtered : ∀ row ∈ flights b u, Sendable b filteredFields row :=
  fun row hrow => (h row hrow).sendable hcomma hrow (by decide) rfl (List.Subset.refl _)
    (h row hrow).segmentsArrivalAirportCode

theorem sendable_multiple : ∀ row ∈ flights b u, Sendable b multipleFields row :=
  fun row hrow => (h row hrow).sendable hcomma hrow (by decide) rfl (by decide)
    (h row hrow).segmentsArrivalAirportCode

theorem sendable_tresEscalas : ∀ row ∈ flights b u, Sendable b tresEscalasFields row :=
  fun row hrow => (h row hrow).sendable hcomma hrow (by decide) rfl (by decide)
    (h row hrow).segmentsArrivalAirportCode

theorem sendable_dosMasRapidos : ∀ row ∈ flights b u, Sendable b dosMasRapidosFields row :=
  fun row hrow => (h row hrow).sendable hcomma hrow (by decide) rfl (by decide)
    (h row hrow).segmentsArrivalAirportCode

theorem sendable_distancia : ∀ row ∈ flights b u, Sendable b distanciaFields row :=
  fun row hrow => (h row hrow).sendable hcomma hrow (by decide) rfl (by decide)
    (h row hrow).totalTravelDistance

end

theorem nodup_filtered : filteredFields.Nodup := by decide

/-- The first filter keeps all flights of a batch. -/
theorem filterGeneral_output (h : CompleteBatch b u) :
    (filterStage b flightFields filteredFields).output u.content () =
      some (wire filteredFields (flights b u)) := by
  have hpayload : parsePayload b flightFields u.content = (flights b u).map id :=
    (List.map_id _).symm
  have hplain : ∀ row ∈ flights b u, Plain id filteredFields row :=
    fun row hrow => (h row hrow).plain hrow
  have hmap : (flights b u).filterMap (fun row => some (project filteredFields row)) =
      (flights b u).map (project filteredFields) := congrFun List.filterMap_eq_map' _
  unfold filterStage
  rw [filter_eq,output_rows (g := fun row => some (project filteredFields row)) hpayload]
  · rw [hmap,sent_project nodup_filtered (List.Subset.refl _)]
    exact if_neg flights_ne_nil
  · exact fun row hrow => filter_plain (hplain row hrow)
  · intro row hrow r hr
    cases hr
    exact plain_project nodup_filtered (List.Subset.refl _) (hplain row hrow)

/-- So do those behind it. -/
theorem filter_flights (fields : List Text) (hcomma : b.space ',' = false) (h : CompleteBatch b u)
    (hfields : fields.Nodup) (hsub : fields ⊆ filteredFields) :
    (filterStage b filteredFields fields).output (wire filteredFields (flights b u)) () =
      some (wire fields (flights b u)) := by
  rw [filterStage_wire nodup_filtered (by decide) hfields hsub flights_ne_nil
    (sendable_filtered hcomma h)]
  exact if_neg flights_ne_nil

theorem filterMap_ite {α β : Type} (keep : α → Prop) [DecidablePred keep] (f : α → β)
    (as : List α) : (as.filterMap fun a => if keep a then some (f a) else none) =
      (as.filter fun a => keep a).map f := by
  induction as with
  | nil => rfl
  | cons a as ih =>
      rw [List.filterMap_cons,List.filter_cons]
      by_cases hkeep : keep a <;> simp [hkeep,ih]

/-- What `TresEscalasOMas` counts. -/
def stopover (row : Row) : ℕ :=
  (split ['|','|'] (value "segmentsArrivalAirportCode" row)).length - 1

def withStopovers (rows : List Row) : List Row := rows.filter fun row => 3 ≤ stopover row

theorem tresEscalasOMas_project (row : Row) :
    (tresEscalasOMas (project multipleFields row) ()).1 = .answered
      ((if 3 ≤ stopover row then some (project multipleFields row) else none).map .single) := by
  have hget : Statefull.field "segmentsArrivalAirportCode" (project multipleFields row) =
      some (value "segmentsArrivalAirportCode" row) := by
    have hnodup : multipleFields.Nodup := by decide
    unfold Statefull.field
    rw [get?_project hnodup,if_pos (by decide)]
    rfl
  unfold tresEscalasOMas
  rw [hget]
  unfold stopover
  dsimp only
  split_ifs <;> rfl

theorem tresEscalasOMasStage_wire (hcomma : b.space ',' = false) (h : CompleteBatch b u) :
    (tresEscalasOMasStage b).output (wire multipleFields (flights b u)) () =
      sent multipleFields (withStopovers (flights b u)) := by
  have hnodup : multipleFields.Nodup := by decide
  have hsendable := sendable_multiple hcomma h
  have hmap : (flights b u).filterMap (fun row =>
      if 3 ≤ stopover row then some (project multipleFields row) else none) =
      (withStopovers (flights b u)).map (project multipleFields) := filterMap_ite _ _ _
  have hstage : tresEscalasOMas = stateless fun row => (tresEscalasOMas row ()).1 := rfl
  unfold tresEscalasOMasStage
  rw [hstage,output_rows (g := fun row =>
      if 3 ≤ stopover row then some (project multipleFields row) else none)
    (parsePayload_wire (by decide) flights_ne_nil hsendable)]
  · rw [hmap,sent_project hnodup (List.Subset.refl _)]
  · exact fun row _ => tresEscalasOMas_project row
  · intro row hrow r hr
    split_ifs at hr
    cases hr
    exact plain_project hnodup (List.Subset.refl _) (hsendable row hrow).plain

theorem mem_withStopovers {rows : List Row} (hrow : row ∈ withStopovers rows) : row ∈ rows :=
  List.mem_of_mem_filter hrow

section
variable {F : Type} {w : Measures F}
variable {coordinates : Logger.ClientId → String → Joiner.Coordinates}

variable (w coordinates) in
/-- The whole way to the tagger of three stopovers and through it. -/
theorem through_tresEscalas (hcomma : b.space ',' = false) (h : CompleteBatch b u) :
    through b w coordinates (Stage.taggerTresEscalasOMas.way ++ [.taggerTresEscalasOMas]) u =
      result "TRES_ESCALAS" tresEscalasFields (withStopovers (flights b u)) := by
  have hfirst := filterGeneral_output h
  have hsecond := filter_flights multipleFields hcomma h (by decide) (by decide)
  have hthird := tresEscalasOMasStage_wire hcomma h
  unfold through
  change (((filterStage b flightFields filteredFields).output u.content ()).bind fun text =>
    ((filterStage b filteredFields multipleFields).output text ()).bind fun text =>
    ((tresEscalasOMasStage b).output text ()).bind fun text =>
    ((filterStage b multipleFields tresEscalasFields).output text ()).bind fun text =>
    ((taggerStage b "TRES_ESCALAS" (word 1 2)).output text ()).bind some) = _
  rw [hfirst,Option.bind_some,hsecond,Option.bind_some,hthird]
  by_cases hkept : withStopovers (flights b u) = []
  · rw [hkept]
    rfl
  · have hfourth : (filterStage b multipleFields tresEscalasFields).output
        (wire multipleFields (withStopovers (flights b u))) () =
        sent tresEscalasFields (withStopovers (flights b u)) :=
      filterStage_wire (by decide) (by decide) (by decide) (by decide) hkept
        fun row hrow => sendable_multiple hcomma h row (mem_withStopovers hrow)
    have hfifth := taggerStage_wire "TRES_ESCALAS" (word 1 2) hkept
      fun row hrow => sendable_tresEscalas hcomma h row (mem_withStopovers hrow)
    have hsent : ∀ fields, sent fields (withStopovers (flights b u)) =
        some (wire fields (withStopovers (flights b u))) := fun _ => if_neg hkept
    rw [hsent,Option.bind_some,hfourth,hsent,Option.bind_some,hfifth,Option.bind_fun_some]

end

section
variable {F : Type} (w : Measures F)
variable (coordinates : Logger.ClientId → String → Joiner.Coordinates)

/-- Where an airport of a row lies. -/
def airport (c : Word 8) (name : String) (row : Row) : Joiner.Coordinates :=
  coordinates c (.ofList (value name row))

/-- The row that the joiner makes of a flight. -/
def located (c : Word 8) (row : Row) : Row :=
  joinedRow (Joiner.processFlight ⟨.ofList (value "legId" row),
    .ofList (value "startingAirport" row),.ofList (value "destinationAirport" row),
    .ofList (value "totalTravelDistance" row)⟩ (airport coordinates c "startingAirport" row)
    (airport coordinates c "destinationAirport" row))

def place (c : Word 8) (name : String) (row : Row) : Coordinates :=
  ((airport coordinates c name row).1.toList,(airport coordinates c name row).2.toList)

/-- Whether the flight is more than four times as long as its distance. Computing it
may raise. A flight without a length is not. -/
def far (c : Word 8) (row : Row) : Option Bool :=
  match w.geodesic (place coordinates c "startingAirport" row)
    (place coordinates c "destinationAirport" row) with
  | none => none
  | some distanceBetweenAirports =>
      match value "totalTravelDistance" row with
      | [] => some false
      | totalDistance => (w.float totalDistance).map fun total =>
          w.exceeds total distanceBetweenAirports

/-- The coordinates can be sent in a line, and at its end. -/
structure PlainCoordinates (b : Builtins) (x : Joiner.Coordinates) : Prop where
  latitude : ',' ∉ x.1.toList ∧ '\n' ∉ x.1.toList
  longitude : ',' ∉ x.2.toList ∧ '\n' ∉ x.2.toList
  ends : Trimmed b x.2.toList

variable {w coordinates}

theorem field_project {name : String} (hfields : fields.Nodup) (hname : name.toList ∈ fields)
    (row : Row) : Statefull.field name (project fields row) = some (value name row) := by
  unfold Statefull.field
  rw [get?_project hfields,if_pos hname]
  rfl

theorem joined_project (c : Word 8) (row : Row) :
    joined coordinates c (project distanciaFields row) =
      .answered (some (.single (located coordinates c row))) := by
  have hnodup : distanciaFields.Nodup := by decide
  unfold joined join
  rw [field_project hnodup (by decide),field_project hnodup (by decide),
    field_project hnodup (by decide),field_project hnodup (by decide)]
  rfl

variable (coordinates) in
theorem value_located (c : Word 8) (row : Row) :
    value "legId" (located coordinates c row) = value "legId" row ∧
      value "startingAirport" (located coordinates c row) = value "startingAirport" row ∧
      value "destinationAirport" (located coordinates c row) = value "destinationAirport" row ∧
      value "totalTravelDistance" (located coordinates c row) = value "totalTravelDistance" row := by
  have hlist : ∀ s : Text, (String.ofList s).toList = s := fun _ => String.toList_ofList
  refine ⟨hlist _,hlist _,hlist _,hlist _⟩

/-- The values of a complete flight can be joined. -/
theorem Complete.value_plain (h : Complete b row) (hrow : row ∈ flights b u) (name : String)
    (hname : name.toList ∈ filteredFields) :
    ',' ∉ value name row ∧ '\n' ∉ value name row :=
  RowQueries.value_plain hrow (h.field hname)

theorem located_sendable (hcomma : b.space ',' = false) (h : Complete b row)
    (hrow : row ∈ flights b u) {c : Word 8} (hc : ∀ code, PlainCoordinates b (coordinates c code)) :
    Sendable b joinedFields (located coordinates c row) := by
  have hlist : ∀ s : Text, (String.ofList s).toList = s := fun _ => String.toList_ofList
  have hplain : Plain id joinedFields (located coordinates c row) := by
    intro f hf
    simp only [joinedFields,List.map_cons,List.map_nil,List.mem_cons,List.not_mem_nil,
      or_false] at hf
    rcases hf with rfl | rfl | rfl | rfl | rfl | rfl | rfl | rfl
    · exact ⟨_,congrArg some (hlist _),h.value_plain hrow "legId" (by decide)⟩
    · exact ⟨_,congrArg some (hlist _),h.value_plain hrow "startingAirport" (by decide)⟩
    · exact ⟨_,congrArg some (hlist _),h.value_plain hrow "destinationAirport" (by decide)⟩
    · exact ⟨_,congrArg some (hlist _),h.value_plain hrow "totalTravelDistance" (by decide)⟩
    · exact ⟨_,rfl,(hc _).latitude⟩
    · exact ⟨_,rfl,(hc _).longitude⟩
    · exact ⟨_,rfl,(hc _).latitude⟩
    · exact ⟨_,rfl,(hc _).longitude⟩
  exact sendable_of_trimmed hcomma (by decide) rfl hplain rfl (hc _).ends

theorem joinedStage_wire (hcomma : b.space ',' = false) (h : CompleteBatch b u) {c : Word 8}
    (hc : ∀ code, PlainCoordinates b (coordinates c code)) :
    (joinedStage b coordinates c).output (wire distanciaFields (flights b u)) () =
      some (wire joinedFields ((flights b u).map (located coordinates c))) := by
  have hmap : (flights b u).filterMap (fun row => some (located coordinates c row)) =
      (flights b u).map (located coordinates c) := congrFun List.filterMap_eq_map' _
  unfold joinedStage
  rw [output_rows (g := fun row => some (located coordinates c row))
    (parsePayload_wire (by decide) flights_ne_nil (sendable_distancia hcomma h)),hmap]
  · exact if_neg fun hnil => flights_ne_nil (List.map_eq_nil_iff.mp hnil)
  · exact fun row _ => joined_project c row
  · intro row hrow r hr
    cases hr
    exact (located_sendable hcomma (h row hrow) hrow hc).plain

/-- What the processor makes of a row of the joiner. -/
theorem measured_project (c : Word 8) (row : Row) :
    measured w (project joinedFields (located coordinates c row)) =
      match far w coordinates c row with
      | none => .raised
      | some true => .answered (some (.single (project distanciaFields row)))
      | some false => .answered none := by
  have hnodup : joinedFields.Nodup := by decide
  obtain ⟨hleg,hstart,hdestination,htotal⟩ := value_located coordinates c row
  have hairports : airports (project joinedFields (located coordinates c row)) =
      some (place coordinates c "startingAirport" row,
        place coordinates c "destinationAirport" row) := by
    unfold airports
    rw [field_project hnodup (by decide),field_project hnodup (by decide),
      field_project hnodup (by decide),field_project hnodup (by decide)]
    rfl
  have hrow : distanceRow (project joinedFields (located coordinates c row)) =
      some (project distanciaFields row) := by
    unfold distanceRow
    rw [field_project hnodup (by decide),field_project hnodup (by decide),
      field_project hnodup (by decide),field_project hnodup (by decide),hleg,hstart,hdestination,
      htotal]
    rfl
  have hfield : Statefull.field "totalTravelDistance"
      (project joinedFields (located coordinates c row)) = some (value "totalTravelDistance" row) := by
    rw [field_project hnodup (by decide),htotal]
  unfold measured far
  rw [hairports]
  dsimp only
  cases w.geodesic (place coordinates c "startingAirport" row)
      (place coordinates c "destinationAirport" row) with
  | none => rfl
  | some distanceBetweenAirports =>
      dsimp only
      unfold RowProcessors.compare
      rw [hfield,hrow]
      cases value "totalTravelDistance" row with
      | nil => rfl
      | cons d ds =>
          dsimp only
          cases w.float (d :: ds) with
          | none => rfl
          | some total =>
              cases hexceeds : w.exceeds total distanceBetweenAirports <;> simp [hexceeds]

def farFlights (w : Measures F) (coordinates : Logger.ClientId → String → Joiner.Coordinates)
    (c : Word 8) (rows : List Row) : List Row :=
  rows.filter fun row => far w coordinates c row = some true

theorem distanciasStage_wire (hcomma : b.space ',' = false) (h : CompleteBatch b u) {c : Word 8}
    (hc : ∀ code, PlainCoordinates b (coordinates c code)) :
    (distanciasStage b (stateless (measured w))).output
        (wire joinedFields ((flights b u).map (located coordinates c))) () =
      if ∃ row ∈ flights b u, far w coordinates c row = none then none
      else sent distanciaFields (farFlights w coordinates c (flights b u)) := by
  have hnodup : distanciaFields.Nodup := by decide
  have hpayload : parsePayload b joinedFields
      (wire joinedFields ((flights b u).map (located coordinates c))) =
      (flights b u).map (fun row => project joinedFields (located coordinates c row)) := by
    rw [parsePayload_wire (by decide),List.map_map]
    · rfl
    · exact fun hnil => flights_ne_nil (List.map_eq_nil_iff.mp hnil)
    · intro r hr
      obtain ⟨row,hrow,rfl⟩ := List.mem_map.mp hr
      exact located_sendable hcomma (h row hrow) hrow hc
  split_ifs with hraise
  · obtain ⟨row,hrow,hnone⟩ := hraise
    have hcollect : (collect (stateless (measured w)) ((flights b u).map fun row =>
        project joinedFields (located coordinates c row)) ()).1 = .raised := by
      apply collect_raised
      · intro r hr
        obtain ⟨row,-,rfl⟩ := List.mem_map.mp hr
        rw [measured_project]
        cases far w coordinates c row with
        | none => exact nofun
        | some far => cases far <;> exact nofun
      · exact ⟨_,List.mem_map.mpr ⟨row,hrow,rfl⟩,by rw [measured_project,hnone]⟩
    unfold RowStage.output distanciasStage rowStage
    simp only [hpayload,hcollect]
  · have hfilter : (flights b u).filterMap (fun row =>
        if far w coordinates c row = some true then some (project distanciaFields row) else none) =
        (farFlights w coordinates c (flights b u)).map (project distanciaFields) :=
      filterMap_ite _ _ _
    unfold distanciasStage
    rw [output_rows (g := fun row =>
        if far w coordinates c row = some true then some (project distanciaFields row) else none)
      hpayload,hfilter,sent_project hnodup (List.Subset.refl _)]
    · intro row hrow
      rw [measured_project]
      cases hfar : far w coordinates c row with
      | none => exact absurd ⟨row,hrow,hfar⟩ hraise
      | some far => cases far <;> simp
    · intro row hrow r hr
      split_ifs at hr
      cases hr
      exact plain_project hnodup (List.Subset.refl _) ((sendable_distancia hcomma h) row hrow).plain

variable (w coordinates) in
/-- The whole way to the tagger of distances and through it. -/
theorem through_distancias (hcomma : b.space ',' = false) (h : CompleteBatch b u)
    (hc : ∀ code, PlainCoordinates b (coordinates u.clientId code)) :
    through b w coordinates (Stage.taggerDistancias.way ++ [.taggerDistancias]) u =
      if ∃ row ∈ flights b u, far w coordinates u.clientId row = none then none
      else result "DISTANCIAS" distanciaFields
        (farFlights w coordinates u.clientId (flights b u)) := by
  have hfirst := filterGeneral_output h
  have hsecond := filter_flights distanciaFields hcomma h (by decide) (by decide)
  have hthird := joinedStage_wire hcomma h hc
  have hfourth := distanciasStage_wire (w := w) hcomma h hc
  unfold through
  change (((filterStage b flightFields filteredFields).output u.content ()).bind fun text =>
    ((filterStage b filteredFields distanciaFields).output text ()).bind fun text =>
    ((joinedStage b coordinates u.clientId).output text ()).bind fun text =>
    ((distanciasStage b (stateless (measured w))).output text ()).bind fun text =>
    ((taggerStage b "DISTANCIAS" (word 1 3)).output text ()).bind some) = _
  rw [hfirst,Option.bind_some,hsecond,Option.bind_some,hthird,Option.bind_some,hfourth]
  split_ifs with hraise
  · rfl
  · by_cases hkept : farFlights w coordinates u.clientId (flights b u) = []
    · rw [hkept]
      rfl
    · have hfifth := taggerStage_wire "DISTANCIAS" (word 1 3) hkept
        fun row hrow => sendable_distancia hcomma h row (List.mem_of_mem_filter hrow)
      have hsent : sent distanciaFields (farFlights w coordinates u.clientId (flights b u)) =
          some (wire distanciaFields (farFlights w coordinates u.clientId (flights b u))) :=
        if_neg hkept
      rw [hsent,Option.bind_some,hfifth,Option.bind_fun_some]

variable (w coordinates) in
/-- What the load balancer of the averages is sent of a batch. -/
theorem through_filterAvgMax (hcomma : b.space ',' = false) (h : CompleteBatch b u) :
    through b w coordinates (Stage.filterAvgMax.way ++ [.filterAvgMax]) u =
      some (wire avgMaxFields (flights b u)) := by
  have hfirst := filterGeneral_output h
  have hsecond := filter_flights avgMaxFields hcomma h (by decide) (by decide)
  unfold through
  change (((filterStage b flightFields filteredFields).output u.content ()).bind fun text =>
    ((filterStage b filteredFields avgMaxFields).output text ()).bind some) = _
  rw [hfirst,Option.bind_some,hsecond,Option.bind_fun_some]

variable (w coordinates) in
/-- What the processor of the two fastest is sent of it. -/
theorem through_filterDosMasRapidos (hcomma : b.space ',' = false) (h : CompleteBatch b u) :
    through b w coordinates (Stage.filterDosMasRapidos.way ++ [.filterDosMasRapidos]) u =
      sent dosMasRapidosFields (withStopovers (flights b u)) := by
  have hfirst := filterGeneral_output h
  have hsecond := filter_flights multipleFields hcomma h (by decide) (by decide)
  have hthird := tresEscalasOMasStage_wire hcomma h
  unfold through
  change (((filterStage b flightFields filteredFields).output u.content ()).bind fun text =>
    ((filterStage b filteredFields multipleFields).output text ()).bind fun text =>
    ((tresEscalasOMasStage b).output text ()).bind fun text =>
    ((filterStage b multipleFields dosMasRapidosFields).output text ()).bind some) = _
  rw [hfirst,Option.bind_some,hsecond,Option.bind_some,hthird]
  by_cases hkept : withStopovers (flights b u) = []
  · rw [hkept]
    rfl
  · have hfourth : (filterStage b multipleFields dosMasRapidosFields).output
        (wire multipleFields (withStopovers (flights b u))) () =
        sent dosMasRapidosFields (withStopovers (flights b u)) :=
      filterStage_wire (by decide) (by decide) (by decide) (by decide) hkept
        fun row hrow => sendable_multiple hcomma h row (mem_withStopovers hrow)
    have hsent : sent multipleFields (withStopovers (flights b u)) =
        some (wire multipleFields (withStopovers (flights b u))) := if_neg hkept
    rw [hsent,Option.bind_some,hfourth,Option.bind_fun_some]

theorem Arrives.sender {n : Stage} {bytes : Bytes} (h : Arrives b w coordinates u (n,bytes))
    (hn : n.next = []) : ∃ m text, n ∈ m.next ∧
      through b w coordinates (m.way ++ [m]) u = some text ∧
      bytes = u.message m.resultTagId text := by
  cases h with
  | uploaded => exact absurd hn (by decide)
  | @sent m _ text hnext htext => exact ⟨m,text,hnext,htext,rfl⟩

theorem senders : (∀ m : Stage, .resultsListener ∈ m.next ↔
    m = .taggerTresEscalasOMas ∨ m = .taggerDistancias) ∧
    (∀ m : Stage, .loadBalancer ∈ m.next ↔ m = .filterAvgMax) ∧
    ∀ m : Stage, .dosMasRapidos ∈ m.next ↔ m = .filterDosMasRapidos := by
  refine ⟨?_,?_,?_⟩ <;> intro m <;> cases m <;> decide

variable {uploads : List Upload} {ρ : Type} {stage : ρ → Stage} [DecidableEq ρ]
variable {known : Logger.ClientId → Set String}
variable {s : Redelivery.State Stage ρ Bytes (Option (Word 8 × Word 8)) (Memory F)}

/-- The answer of the query for three stopovers to a batch, and of the one for
distances, as the listener is to read them. -/
inductive ResultOf (b : Builtins) (w : Measures F)
    (coordinates : Logger.ClientId → String → Joiner.Coordinates) (u : Upload) : Bytes → Prop
  | tresEscalas {text} :
      result "TRES_ESCALAS" tresEscalasFields (withStopovers (flights b u)) = some text →
        ResultOf b w coordinates u (u.message (some (word 1 2)) text)
  | distancias {text} :
      (∀ row ∈ flights b u, far w coordinates u.clientId row ≠ none) →
      result "DISTANCIAS" distanciaFields
        (farFlights w coordinates u.clientId (flights b u)) = some text →
        ResultOf b w coordinates u (u.message (some (word 1 3)) text)

theorem arrives_resultsListener (hcomma : b.space ',' = false) (h : CompleteBatch b u)
    (hcoordinates : ∀ c code, PlainCoordinates b (coordinates c code)) {bytes : Bytes} :
    Arrives b w coordinates u (.resultsListener,bytes) ↔ ResultOf b w coordinates u bytes := by
  have htres := through_tresEscalas w coordinates hcomma h
  have hdistancias := through_distancias w coordinates hcomma h (hcoordinates u.clientId)
  constructor
  · intro ha
    obtain ⟨m,text,hnext,htext,rfl⟩ := Arrives.sender ha (by decide)
    rcases (senders.1 m).mp hnext with rfl | rfl
    · rw [htres] at htext
      exact .tresEscalas htext
    · rw [hdistancias] at htext
      split_ifs at htext with hraise
      exact .distancias (fun row hrow hnone => hraise ⟨row,hrow,hnone⟩) htext
  · intro hresult
    cases hresult with
    | tresEscalas htext =>
        exact .sent (m := .taggerTresEscalasOMas) (by decide) (htres.trans htext)
    | distancias hraise htext =>
        refine .sent (m := .taggerDistancias) (by decide) (hdistancias.trans ?_)
        rw [if_neg fun ⟨row,hrow,hnone⟩ => hraise row hrow hnone]
        exact htext

/-- In whatever order the batches of all clients are handled, and however often: the
queue of the listener holds only the answers of the two queries to uploaded batches,
and in the end all of them. -/
theorem results_exact (hcomma : b.space ',' = false)
    (hbatches : ∀ u ∈ uploads, CompleteBatch b u)
    (hcoordinates : ∀ c code, PlainCoordinates b (coordinates c code))
    (hdeployed : Deployed stage) (hc : Consistent uploads)
    (hs : (network b w coordinates known stage).Reached (uploaded uploads) s) :
    (∀ bytes, (.resultsListener,bytes) ∈ s.queued →
      ∃ u ∈ uploads, ResultOf b w coordinates u bytes) ∧
      ((network b w coordinates known stage).Quiet s →
        ∀ u ∈ uploads, ∀ bytes, ResultOf b w coordinates u bytes →
          (.resultsListener,bytes) ∈ s.queued) := by
  constructor
  · intro bytes hbytes
    obtain ⟨u,hu,ha⟩ := queued_arrives hc hs hbytes
    exact ⟨u,hu,(arrives_resultsListener hcomma (hbatches u hu) hcoordinates).mp ha⟩
  · intro hquiet u hu bytes hresult
    exact arrives_queued hdeployed hc hs hquiet hu (by decide)
      ((arrives_resultsListener hcomma (hbatches u hu) hcoordinates).mpr hresult)

theorem arrives_dosMasRapidos (hcomma : b.space ',' = false) (h : CompleteBatch b u)
    {bytes : Bytes} : Arrives b w coordinates u (.dosMasRapidos,bytes) ↔
      withStopovers (flights b u) ≠ [] ∧
        bytes = u.message none (wire dosMasRapidosFields (withStopovers (flights b u))) := by
  have hdos := through_filterDosMasRapidos w coordinates hcomma h
  constructor
  · intro ha
    obtain ⟨m,text,hnext,htext,rfl⟩ := Arrives.sender ha (by decide)
    obtain rfl := (senders.2.2 m).mp hnext
    rw [hdos] at htext
    unfold sent at htext
    split_ifs at htext with hkept
    rw [Option.some.injEq] at htext
    exact ⟨hkept,by rw [htext]; rfl⟩
  · rintro ⟨hkept,rfl⟩
    exact .sent (m := .filterDosMasRapidos) (by decide) (hdos.trans (if_neg hkept))

/-- The same of the flights that the load balancer and the processor of the two
fastest get. -/
theorem flights_exact (hcomma : b.space ',' = false)
    (hbatches : ∀ u ∈ uploads, CompleteBatch b u) (hdeployed : Deployed stage)
    (hc : Consistent uploads)
    (hs : (network b w coordinates known stage).Reached (uploaded uploads) s) :
    (∀ bytes, (.loadBalancer,bytes) ∈ s.queued →
      ∃ u ∈ uploads, bytes = u.message none (wire avgMaxFields (flights b u))) ∧
    (∀ bytes, (.dosMasRapidos,bytes) ∈ s.queued →
      ∃ u ∈ uploads, withStopovers (flights b u) ≠ [] ∧
        bytes = u.message none (wire dosMasRapidosFields (withStopovers (flights b u)))) ∧
    ((network b w coordinates known stage).Quiet s → ∀ u ∈ uploads,
      (.loadBalancer,u.message none (wire avgMaxFields (flights b u))) ∈ s.queued ∧
      (withStopovers (flights b u) ≠ [] →
        (.dosMasRapidos,u.message none
          (wire dosMasRapidosFields (withStopovers (flights b u)))) ∈ s.queued)) := by
  have havg := fun u hu => through_filterAvgMax w coordinates hcomma (hbatches u hu)
  refine ⟨?_,?_,?_⟩
  · intro bytes hbytes
    obtain ⟨u,hu,ha⟩ := queued_arrives hc hs hbytes
    obtain ⟨m,text,hnext,htext,rfl⟩ := Arrives.sender ha (by decide)
    obtain rfl := (senders.2.1 m).mp hnext
    rw [havg u hu,Option.some.injEq] at htext
    exact ⟨u,hu,by rw [htext]; rfl⟩
  · intro bytes hbytes
    obtain ⟨u,hu,ha⟩ := queued_arrives hc hs hbytes
    exact ⟨u,hu,(arrives_dosMasRapidos hcomma (hbatches u hu)).mp ha⟩
  · intro hquiet u hu
    constructor
    · exact arrives_queued hdeployed hc hs hquiet hu (by decide)
        (.sent (m := .filterAvgMax) (by decide) (havg u hu))
    · intro hkept
      exact arrives_queued hdeployed hc hs hquiet hu (by decide)
        ((arrives_dosMasRapidos hcomma (hbatches u hu)).mpr ⟨hkept,rfl⟩)

end
end

theorem oneFlight_complete : CompleteBatch asciiBuiltins oneFlight := by
  intro row hrow
  have hrows : flights asciiBuiltins oneFlight = [dict ((flightFields.zip
      (split [','] oneFlight.content.dropLast)))] := by decide +kernel
  rw [hrows,List.mem_singleton] at hrow
  subst hrow
  refine ⟨by decide +kernel,?_,?_,?_⟩
  · intro c hc
    have hlast : (some '5' : Option Char) = some c := hc
    cases hlast
    rfl
  · intro c hc
    have hlast : (some '7' : Option Char) = some c := hc
    cases hlast
    rfl
  · intro c hc
    have hlast : (some 'B' : Option Char) = some c := hc
    cases hlast
    rfl

theorem nowhere_plain (c : Logger.ClientId) (code : String) :
    PlainCoordinates asciiBuiltins (nowhere c code) := by
  have hzero : ',' ∉ "0".toList ∧ '\n' ∉ "0".toList := by decide
  have hlast : "0".toList.getLast? = some '0' := by decide
  refine ⟨hzero,hzero,?_⟩
  intro d hd
  obtain rfl : '0' = d := Option.some.inj (hlast.symm.trans hd)
  rfl

theorem results_exact_oneFlight : ∃ s,
    (network asciiBuiltins nearby nowhere twoAirports replicas).Quiet s ∧
    (∀ bytes, (.resultsListener,bytes) ∈ s.queued →
      ∃ u ∈ [oneFlight], ResultOf asciiBuiltins nearby nowhere u bytes) ∧
      ((network asciiBuiltins nearby nowhere twoAirports replicas).Quiet s →
        ∀ u ∈ [oneFlight], ∀ bytes, ResultOf asciiBuiltins nearby nowhere u bytes →
          (.resultsListener,bytes) ∈ s.queued) := by
  obtain ⟨s,hs,hquiet⟩ := oneFlight_finished
  exact ⟨s,hquiet,results_exact rfl (by simpa using oneFlight_complete) nowhere_plain
    replicas_deployed (consistent_single _) hs⟩

theorem flights_exact_oneFlight : ∃ s,
    (network asciiBuiltins nearby nowhere twoAirports replicas).Quiet s ∧
    (∀ bytes, (.loadBalancer,bytes) ∈ s.queued →
      ∃ u ∈ [oneFlight],
        bytes = u.message none (wire avgMaxFields (flights asciiBuiltins u))) ∧
    (∀ bytes, (.dosMasRapidos,bytes) ∈ s.queued →
      ∃ u ∈ [oneFlight], withStopovers (flights asciiBuiltins u) ≠ [] ∧
        bytes = u.message none
          (wire dosMasRapidosFields (withStopovers (flights asciiBuiltins u)))) ∧
    ((network asciiBuiltins nearby nowhere twoAirports replicas).Quiet s → ∀ u ∈ [oneFlight],
      (.loadBalancer,u.message none (wire avgMaxFields (flights asciiBuiltins u))) ∈ s.queued ∧
      (withStopovers (flights asciiBuiltins u) ≠ [] →
        (.dosMasRapidos,u.message none
          (wire dosMasRapidosFields (withStopovers (flights asciiBuiltins u)))) ∈ s.queued)) := by
  obtain ⟨s,hs,hquiet⟩ := oneFlight_finished
  exact ⟨s,hquiet,flights_exact rfl (by simpa using oneFlight_complete) replicas_deployed
    (consistent_single _) hs⟩

end FlightsOptimizer.RowQueries
