import FlightsOptimizer.QueueMessage
import FlightsOptimizer.Statefull

/-!
# A batch of rows from one processor to the next

The sender joins the values of a row with commas and the rows with line feeds;
the receiver strips the end of the text, splits it again and pairs the values
with its own fields. Nothing on the way reports a row that is lost or shifted,
so the two have to undo each other.
-/
namespace FlightsOptimizer.Hop
open Text LoggerText Statefull

/-- A data message between processors, a result if it has a tag. -/
structure Batch (V : Type) where
  clientId : Word 8
  messageId : Word 8
  tagId : Option (Word 1)
  payload : List (Dict Text V)

section
variable {V : Type} (str : V → Text)

/-- `FlightParser.serialize`. A missing key raises. -/
def serialize (outputFields : List Text) (message : Dict Text V) : Option Text :=
  (outputFields.mapM fun key => (message.get? key).map str).map [','].intercalate

/-- The message that is sent, with its payload as text. -/
def Batch.message (m : Batch V) (payload : Text) : Queue.Message :=
  ⟨m.clientId,match m.tagId with
    | none => .protocol m.messageId (String.ofList payload)
    | some tagId => .protocolResult tagId m.messageId (String.ofList payload)⟩

/-- `send_all`, up to the bytes that are published. Without output fields the rows
are joined as they are, which raises unless there are none. -/
def sendAll (outputFields : List Text) (m : Batch V) : Option Bytes := do
  if outputFields = [] ∧ m.payload ≠ [] then none
  else
    let messagesSerialized ← m.payload.mapM (serialize str outputFields)
    (m.message (['\n'].intercalate messagesSerialized)).toBytes

/-- The data branch of `callback` up to the call of `input_callback`, for a
receiver with input fields. -/
def handleProtocol (b : Builtins) (inputFields : List Text) (bytes : Bytes) : Option (Batch Text) := do
  let message ← Queue.Message.fromBytes bytes
  match message.body with
  | .protocol messageId payload =>
      some ⟨message.clientId,messageId,none,parsePayload b inputFields payload.toList⟩
  | .protocolResult tagId messageId payload =>
      some ⟨message.clientId,messageId,some tagId,parsePayload b inputFields payload.toList⟩
  | _ => none

/-- The row has these fields, each with a value that can be joined. -/
def Plain (fields : List Text) (row : Dict Text V) : Prop :=
  ∀ f ∈ fields, ∃ v, row.get? f = some v ∧ ',' ∉ str v ∧ '\n' ∉ str v

/-- The row restricted to the fields, with its values as strings. -/
def Restricted (fields : List Text) (row : Dict Text V) (parsed : Row) : Prop :=
  ∀ f, parsed.get? f = if f ∈ fields then (row.get? f).map str else none

variable {str} {fields : List Text} {row : Dict Text V}

/-- The values of a row, one for each field. -/
def cells (str : V → Text) (fields : List Text) (row : Dict Text V) : List Text :=
  fields.map fun f => ((row.get? f).map str).getD []

theorem serialize_plain (h : Plain str fields row) :
    serialize str fields row = some ([','].intercalate (cells str fields row)) := by
  have hcells : fields.mapM (fun key => (row.get? key).map str) = some (cells str fields row) := by
    unfold cells
    induction fields with
    | nil => rfl
    | cons f fs ih =>
        obtain ⟨v,hv,-⟩ := h f List.mem_cons_self
        have hrest := ih fun g hg => h g (List.mem_cons_of_mem f hg)
        rw [List.mapM_cons,hv,hrest]
        simp [hv]
  unfold serialize
  rw [hcells,Option.map_some]

theorem not_mem_cells (h : Plain str fields row) :
    ∀ cell ∈ cells str fields row, ',' ∉ cell ∧ '\n' ∉ cell := by
  intro cell hcell
  obtain ⟨f,hf,rfl⟩ := List.mem_map.mp hcell
  obtain ⟨v,hv,hcomma,hfeed⟩ := h f hf
  rw [hv]
  exact ⟨hcomma,hfeed⟩

theorem mem_intercalate {sep : Text} {parts : List Text} {c : Char}
    (h : c ∈ sep.intercalate parts) : c ∈ sep ∨ ∃ p ∈ parts, c ∈ p := by
  induction parts with
  | nil => cases h
  | cons p ps ih =>
      cases ps with
      | nil =>
          rw [List.intercalate_singleton] at h
          exact Or.inr ⟨p,List.mem_cons_self,h⟩
      | cons q qs =>
          rw [List.intercalate_cons_cons] at h
          rcases List.mem_append.mp h with h | h
          · rcases List.mem_append.mp h with h | h
            · exact Or.inr ⟨p,List.mem_cons_self,h⟩
            · exact Or.inl h
          · rcases ih h with h | ⟨r,hr,hc⟩
            · exact Or.inl h
            · exact Or.inr ⟨r,List.mem_cons_of_mem p hr,hc⟩

/-- A row is one line. -/
theorem line_of_plain (h : Plain str fields row) :
    '\n' ∉ [','].intercalate (cells str fields row) := by
  intro hmem
  rcases mem_intercalate hmem with hmem | ⟨cell,hcell,hmem⟩
  · exact absurd (List.mem_singleton.mp hmem) (by decide)
  · exact (not_mem_cells h cell hcell).2 hmem

theorem zip_map_self {α β : Type} (g : α → β) (as : List α) :
    as.zip (as.map g) = as.map fun a => (a,g a) := by
  induction as with
  | nil => rfl
  | cons a as ih => rw [List.map_cons,List.zip_cons_cons,ih,List.map_cons]

/-- The values are paired with the fields that they were taken from. -/
theorem restricted_parse (hfields : fields.Nodup) (hne : fields ≠ []) (h : Plain str fields row) :
    Restricted str fields row (parse fields ([','].intercalate (cells str fields row))) := by
  have hcellsne : cells str fields row ≠ [] := fun hnil => hne (List.map_eq_nil_iff.mp hnil)
  have hsplit := split_intercalate hcellsne fun cell hcell => (not_mem_cells h cell hcell).1
  have hzip : fields.zip (cells str fields row) =
      fields.map fun f => (f,((row.get? f).map str).getD []) := zip_map_self _ fields
  have hdistinct : ((fields.zip (cells str fields row)).map Prod.fst).Nodup := by
    have hfst : (Prod.fst ∘ fun f => (f,((row.get? f).map str).getD [])) = (id : Text → Text) := rfl
    rw [hzip,List.map_map,hfst,List.map_id]
    exact hfields
  intro f
  unfold parse
  rw [hsplit]
  split_ifs with hf
  · obtain ⟨v,hv,-⟩ := h f hf
    rw [hv,Option.map_some,Dict.get?_eq_some_iff,dict_entries hdistinct,hzip]
    exact List.mem_map.mpr ⟨f,hf,by rw [hv]; rfl⟩
  · cases hget : (dict (fields.zip (cells str fields row))).get? f with
    | none => rfl
    | some cell =>
        rw [Dict.get?_eq_some_iff,dict_entries hdistinct,hzip] at hget
        obtain ⟨g,hg,heq⟩ := List.mem_map.mp hget
        cases heq
        exact absurd hg hf

/-- Nothing is stripped of a text that does not end in white space. -/
theorem rstrip_eq {b : Builtins} {s : Text} {c : Char} (hs : s.getLast? = some c)
    (hc : b.space c = false) : (s.reverse.dropWhile b.space).reverse = s := by
  rw [← List.head?_reverse] at hs
  cases hr : s.reverse with
  | nil =>
      rw [hr] at hs
      cases hs
  | cons d rest =>
      rw [hr] at hs
      cases hs
      rw [List.dropWhile_cons_of_neg (by simp [hc]),← hr,List.reverse_reverse]

/-- A joined text ends as its last part does. -/
theorem getLast?_intercalate {sep : Text} {parts : List Text} {last : Text} {c : Char}
    (hlast : parts.getLast? = some last) (hc : last.getLast? = some c) :
    (sep.intercalate parts).getLast? = some c := by
  induction parts with
  | nil => cases hlast
  | cons p ps ih =>
      cases ps with
      | nil =>
          rw [List.getLast?_singleton] at hlast
          cases hlast
          rw [List.intercalate_singleton]
          exact hc
      | cons q qs =>
          rw [List.getLast?_cons_cons] at hlast
          rw [List.intercalate_cons_cons,List.getLast?_append,ih hlast]
          rfl

theorem countsFit_message (m : Batch V) (payload : Text) : (m.message payload).body.CountsFit := by
  obtain ⟨clientId,messageId,tagId,rows⟩ := m
  cases tagId <;> trivial

theorem handleProtocol_message {b : Builtins} {inputFields : List Text} {m : Batch V}
    {payload : Text} {bytes : Bytes} (h : (m.message payload).toBytes = some bytes) :
    handleProtocol b inputFields bytes =
      some ⟨m.clientId,m.messageId,m.tagId,parsePayload b inputFields payload⟩ := by
  obtain ⟨written,hwritten,hread⟩ :=
    Queue.Message.fromBytes_toBytes (countsFit_message m payload)
  obtain ⟨clientId,messageId,tagId,rows⟩ := m
  rw [h] at hwritten
  cases hwritten
  unfold handleProtocol
  rw [hread]
  cases tagId with
  | none =>
      simp only [Option.bind_eq_bind,Option.bind_some,Batch.message,String.toList_ofList]
  | some tag =>
      simp only [Option.bind_eq_bind,Option.bind_some,Batch.message,String.toList_ofList]

theorem forall₂_map_restricted (hfields : fields.Nodup) (hne : fields ≠ [])
    {rows : List (Dict Text V)} (hrows : ∀ row ∈ rows, Plain str fields row) :
    List.Forall₂ (Restricted str fields) rows
      (rows.map fun row => parse fields ([','].intercalate (cells str fields row))) := by
  rw [List.forall₂_map_right_iff,List.forall₂_same]
  exact fun row hrow => restricted_parse hfields hne (hrows row hrow)

theorem serialize_rows {rows : List (Dict Text V)} (hrows : ∀ row ∈ rows, Plain str fields row) :
    rows.mapM (serialize str fields) =
      some (rows.map fun row => [','].intercalate (cells str fields row)) := by
  induction rows with
  | nil => rfl
  | cons row rows ih =>
      have hrest := ih fun r hr => hrows r (List.mem_cons_of_mem row hr)
      rw [List.mapM_cons,serialize_plain (hrows row List.mem_cons_self),hrest]
      rfl

/-- The receiver gets the rows that were sent, each restricted to the fields, in
the order they had. -/
theorem handleProtocol_sendAll {b : Builtins} {m : Batch V} (hfields : fields.Nodup)
    (hne : m.payload ≠ []) (hrows : ∀ row ∈ m.payload, Plain str fields row)
    (hlast : ∃ text c, serialize str fields (m.payload.getLast hne) = some text ∧
      text.getLast? = some c ∧ b.space c = false) :
    ∃ bytes rows, sendAll str fields m = some bytes ∧
      handleProtocol b fields bytes = some ⟨m.clientId,m.messageId,m.tagId,rows⟩ ∧
      List.Forall₂ (Restricted str fields) m.payload rows := by
  obtain ⟨text,c,htext,hc,hspace⟩ := hlast
  have hlastrow := hrows _ (List.getLast_mem hne)
  have htexteq : [','].intercalate (cells str fields (m.payload.getLast hne)) = text :=
    Option.some.inj ((serialize_plain hlastrow).symm.trans htext)
  have hfieldsne : fields ≠ [] := by
    rintro rfl
    rw [← htexteq] at hc
    cases hc
  obtain ⟨lines,hlines⟩ : ∃ lines, lines =
      m.payload.map fun row => [','].intercalate (cells str fields row) := ⟨_,rfl⟩
  have hlinesne : lines ≠ [] := by
    rw [hlines]
    exact fun hnil => hne (List.map_eq_nil_iff.mp hnil)
  have hfeed : ∀ line ∈ lines, '\n' ∉ line := by
    intro line hline
    rw [hlines] at hline
    obtain ⟨row,hrow,rfl⟩ := List.mem_map.mp hline
    exact line_of_plain (hrows row hrow)
  have hlinelast : lines.getLast? = some text := by
    rw [hlines,List.getLast?_map,List.getLast?_eq_some_getLast hne,Option.map_some,htexteq]
  have hend : (['\n'].intercalate lines).getLast? = some c := getLast?_intercalate hlinelast hc
  have hstrip := rstrip_eq hend hspace
  obtain ⟨bytes,hbytes,-⟩ :=
    Queue.Message.fromBytes_toBytes (countsFit_message m (['\n'].intercalate lines))
  refine ⟨bytes,lines.map (parse fields),?_,?_,?_⟩
  · unfold sendAll
    rw [if_neg fun h => hfieldsne h.1,serialize_rows hrows,← hlines]
    exact hbytes
  · rw [handleProtocol_message hbytes]
    unfold parsePayload
    rw [hstrip,split_intercalate hlinesne hfeed]
  · rw [hlines,List.map_map]
    exact forall₂_map_restricted hfields hfieldsne hrows

end

/-- Two rows, the first with an empty last value, and a field that is not sent. -/
def twoRows : List (Dict Text Text) :=
  [dict [("legId".toList,"l1".toList),("seats".toList,"3".toList),("distance".toList,[])],
    dict [("legId".toList,"l2".toList),("distance".toList,"800".toList)]]

def legFields : List Text := ["legId".toList,"distance".toList]

theorem handleProtocol_sendAll_twoRows :
    ∃ bytes rows, sendAll (fun s => s) legFields ⟨5,9,none,twoRows⟩ = some bytes ∧
      handleProtocol asciiBuiltins legFields bytes = some ⟨5,9,none,rows⟩ ∧
      List.Forall₂ (Restricted (fun s => s) legFields) twoRows rows := by
  have hrows : ∀ row ∈ twoRows, Plain (fun s => s) legFields row := by
    have hvalue : ∀ row ∈ twoRows, ∀ f ∈ legFields,
        row.get? f = some (row.getD f []) ∧ ',' ∉ row.getD f [] ∧ '\n' ∉ row.getD f [] := by decide
    exact fun row hrow f hf => ⟨_,hvalue row hrow f hf⟩
  exact handleProtocol_sendAll (by decide) (List.cons_ne_nil _ _) hrows
    ⟨"l2,800".toList,'0',rfl,rfl,rfl⟩

end FlightsOptimizer.Hop
