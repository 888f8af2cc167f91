import FlightsOptimizer.FileQueries
import FlightsOptimizer.StatefullReplica

/-!
# The query of the two fastest, from the file to the answer

The batches of the flights with stopovers reach the processor of the two fastest in
any order. It handles each once in effect, whatever is repeated and whenever it is
killed where the restart takes no saved batch away, and what it answers in the end
does not depend on the order, except between flights that last as long.
-/
namespace FlightsOptimizer.FastestQuery
open Text Statefull RowProcessors RowNetwork RowQueries FileQueries FileUploader ResultFiles

section
variable {α β : Type} {key : α → ℕ} {key' : β → ℕ} {l l' : List α}

theorem twoLeast_perm {kept : List α} (h : TwoLeast key kept l) (hp : l.Perm l') :
    TwoLeast key kept l' := by
  obtain ⟨others,hothers,hle⟩ := h.others
  exact ⟨⟨others,hothers.trans hp,hle⟩,h.sorted,by rw [h.length,hp.length_eq]⟩

/-- Two least of the values are those of two least. -/
theorem twoLeast_map {f : α → β} {kept : List β} (hkey : ∀ x ∈ l, key' (f x) = key x)
    (h : TwoLeast key' kept (l.map f)) : ∃ kept', kept'.map f = kept ∧ TwoLeast key kept' l := by
  obtain ⟨others,hothers,hle⟩ := h.others
  obtain ⟨order,horder,hmap⟩ := exists_order hothers
  obtain ⟨kept',others',rfl,rfl,rfl⟩ := List.append_eq_map_iff.mp hmap
  have hkept : ∀ x ∈ kept', key' (f x) = key x :=
    fun x hx => hkey x (horder.subset (List.mem_append_left _ hx))
  have hrest : ∀ x ∈ others', key' (f x) = key x :=
    fun x hx => hkey x (horder.subset (List.mem_append_right _ hx))
  refine ⟨kept',rfl,⟨others',horder,?_⟩,?_,?_⟩
  · intro m hm x hx
    have hmx := hle (f m) (List.mem_map_of_mem hm) (f x) (List.mem_map_of_mem hx)
    rwa [hkept x hx,hrest m hm] at hmx
  · refine (List.pairwise_map.mp h.sorted).imp_of_mem ?_
    intro x y hx hy hxy
    rwa [hkept x hx,hkept y hy] at hxy
  · have hlength := h.length
    rwa [List.length_map,List.length_map] at hlength

end

section
variable {b : Builtins} {rows rows' out : List Row}

/-- For each trajectory of the flights its two fastest, or its only one. -/
def TwoFastest (b : Builtins) (rows out : List Row) : Prop :=
  ∃ (trajectories : List Text) (fastest : Text → List Row), trajectories.Nodup ∧
    (∀ t, t ∈ trajectories ↔ ofTrajectory rows t ≠ []) ∧
    (∀ t ∈ trajectories, TwoLeast (duration b) (fastest t) (ofTrajectory rows t)) ∧
    trajectories.flatMap fastest = out

/-- `finish_processing` answers the query. -/
theorem finishProcessing_twoFastest {s : Dict Text (List Row)} (h : KeepsTwo b rows s) :
    TwoFastest b rows (finishProcessing s) := by
  refine ⟨s.keys,fun t => (s.get? t).getD [],s.distinct,?_,?_,(finishProcessing_eq s).symm⟩
  · intro t
    rw [Dict.mem_keys_iff]
    rcases h t with ⟨hnone,hnil⟩ | ⟨fastest,hsome,hne,-⟩
    · simp [hnone,hnil]
    · simp [hsome,hne]
  · intro t ht
    rw [Dict.mem_keys_iff] at ht
    rcases h t with ⟨hnone,-⟩ | ⟨fastest,hsome,-,htwo⟩
    · rw [hnone] at ht
      cases ht
    · dsimp only
      rw [hsome]
      exact htwo

theorem TwoFastest.perm (h : TwoFastest b rows out) (hp : rows.Perm rows') :
    TwoFastest b rows' out := by
  obtain ⟨trajectories,fastest,hnodup,hmem,htwo,hout⟩ := h
  have hflights : ∀ t, (ofTrajectory rows t).Perm (ofTrajectory rows' t) := fun t => hp.filter _
  refine ⟨trajectories,fastest,hnodup,fun t => ?_,fun t ht => ?_,hout⟩
  · rw [hmem,← List.length_pos_iff,← List.length_pos_iff,(hflights t).length_eq]
  · exact twoLeast_perm (htwo t ht) (hflights t)

theorem TwoFastest.mem (h : TwoFastest b rows out) : ∀ row ∈ out, row ∈ rows := by
  obtain ⟨trajectories,fastest,-,-,htwo,rfl⟩ := h
  intro row hrow
  obtain ⟨t,ht,hmem⟩ := List.mem_flatMap.mp hrow
  exact List.mem_of_mem_filter ((htwo t ht).mem row hmem)

/-- The answer to some rows of the flights is made of an answer to the flights. -/
theorem TwoFastest.of_map {f : Row → Row}
    (htrajectory : ∀ row ∈ rows, convertMessageToTrajectory (f row) = convertMessageToTrajectory row)
    (hduration : ∀ row ∈ rows, duration b (f row) = duration b row)
    (h : TwoFastest b (rows.map f) out) : ∃ out', out'.map f = out ∧ TwoFastest b rows out' := by
  obtain ⟨trajectories,fastest,hnodup,hmem,htwo,rfl⟩ := h
  have hflights : ∀ t, ofTrajectory (rows.map f) t = (ofTrajectory rows t).map f := by
    intro t
    unfold ofTrajectory
    rw [List.filter_map]
    congr 1
    apply List.filter_congr
    intro row hrow
    rw [Function.comp_apply,htrajectory row hrow]
  have hchoose : ∀ t, ∃ kept, t ∈ trajectories →
      kept.map f = fastest t ∧ TwoLeast (duration b) kept (ofTrajectory rows t) := by
    intro t
    by_cases ht : t ∈ trajectories
    · have htwo := htwo t ht
      rw [hflights] at htwo
      obtain ⟨kept,hkept⟩ := twoLeast_map
        (fun row hrow => hduration row (List.mem_of_mem_filter hrow)) htwo
      exact ⟨kept,fun _ => hkept⟩
    · exact ⟨[],fun h => absurd h ht⟩
  choose kept hkept using hchoose
  refine ⟨trajectories.flatMap kept,?_,trajectories,kept,hnodup,fun t => ?_,
    fun t ht => (hkept t ht).2,rfl⟩
  · rw [List.map_flatMap]
    exact List.flatMap_congr fun t ht => (hkept t ht).1
  · rw [hmem,hflights,ne_eq,ne_eq,List.map_eq_nil_iff]

end

section
variable {b : Builtins} {F : Type} {w : Measures F}
variable {coordinates : Logger.ClientId → String → Joiner.Coordinates}
variable {known : Logger.ClientId → Set String} {lower : Text → Text}
variable {ρ : Type} [DecidableEq ρ] {stage : ρ → Stage} {us vs : List Upload} {c : Word 8}
variable {s : Redelivery.State Stage ρ Bytes (Option (Word 8 × Word 8)) (Memory F)}

section
variable {row : Row}

theorem field_project {name : String} (hname : name.toList ∈ dosMasRapidosFields) (row : Row) :
    field name (project dosMasRapidosFields row) = some (value name row) := by
  have hnodup : dosMasRapidosFields.Nodup := by decide
  unfold Statefull.field
  rw [get?_project hnodup,if_pos hname]
  rfl

theorem flightMessage_project (row : Row) : FlightMessage (project dosMasRapidosFields row) := by
  refine ⟨?_,?_,?_⟩
  · rw [field_project (by decide)]
    rfl
  · rw [field_project (by decide)]
    rfl
  · rw [field_project (by decide)]
    rfl

theorem duration_project (h : Complete b row) :
    duration b (project dosMasRapidosFields row) = duration b row := by
  unfold duration convertMessageToTravelDuration
  rw [field_project (by decide),h.field (by decide)]

theorem trajectory_project (h : Complete b row) :
    convertMessageToTrajectory (project dosMasRapidosFields row) =
      convertMessageToTrajectory row := by
  unfold convertMessageToTrajectory
  rw [field_project (by decide),field_project (by decide),h.field (by decide),h.field (by decide)]

end

/-- The rows that a batch of the queue has of an upload. -/
def fastRows (b : Builtins) (v : Upload) : List Row :=
  (withStopovers (flights b v)).map (project dosMasRapidosFields)

variable (b) in
/-- A delivery of a message that the queue of the processor has. -/
def Queued (s : Redelivery.State Stage ρ Bytes (Option (Word 8 × Word 8)) (Memory F))
    (d : Receiver.Delivery (List Row)) : Prop :=
  ∃ bytes c i text, (.dosMasRapidos,bytes) ∈ s.queued ∧ receive bytes = some (c,i,text) ∧
    d.clientId = c.val ∧ d.messageId = i.val ∧ d.payload = parsePayload b dosMasRapidosFields text

/-- The queue has nothing left of a client: a message that comes again is turned away. -/
def Taken (s : Redelivery.State Stage ρ Bytes (Option (Word 8 × Word 8)) (Memory F)) (c : Word 8)
    (k : StatefullReplica.State Row (Dict Text (List Row))) : Prop :=
  ∀ bytes i text, (.dosMasRapidos,bytes) ∈ s.queued → receive bytes = some (c,i,text) →
    i.val ∈ (k.replica.memory.duplicateCatcher c.val).messagesId

section
variable (hcomma : b.space ',' = false) (hbatches : ∀ v ∈ us, CompleteBatch b v)
variable (hdeployed : Deployed stage) (hc : Consistent us)
variable (hs : (network b w coordinates known stage).Reached (uploaded us) s)
include hcomma hbatches hc hs

theorem queued_upload {d : Receiver.Delivery (List Row)} (hd : Queued b s d) : ∃ v ∈ us,
    fastRows b v ≠ [] ∧ d.clientId = v.clientId.val ∧ d.messageId = v.messageId.val ∧
      d.payload = fastRows b v := by
  obtain ⟨bytes,c,i,text,hqueued,hreceive,hclient,hid,hpayload⟩ := hd
  obtain ⟨v,hv,ha⟩ := queued_arrives hc hs hqueued
  obtain ⟨hkept,rfl⟩ := (arrives_dosMasRapidos hcomma (hbatches v hv)).mp ha
  unfold Upload.message at hreceive
  rw [receive_dataBytes,Option.some.injEq,Prod.mk.injEq,Prod.mk.injEq] at hreceive
  obtain ⟨rfl,rfl,rfl⟩ := hreceive
  refine ⟨v,hv,fun hnil => hkept (List.map_eq_nil_iff.mp hnil),hclient,hid,?_⟩
  rw [hpayload,parsePayload_wire (by decide) hkept]
  · rfl
  · exact fun row hrow =>
      sendable_dosMasRapidos hcomma (hbatches v hv) row (mem_withStopovers hrow)

theorem queued_flightMessage {d : Receiver.Delivery (List Row)} (hd : Queued b s d) :
    ∀ row ∈ d.payload, FlightMessage row := by
  obtain ⟨v,-,-,-,-,hpayload⟩ := queued_upload hcomma hbatches hc hs hd
  intro row hrow
  rw [hpayload] at hrow
  obtain ⟨r,-,rfl⟩ := List.mem_map.mp hrow
  exact flightMessage_project r

section
variable {k : StatefullReplica.State Row (Dict Text (List Row))}
variable {ds : List (Receiver.Delivery (List Row))}
variable (hown : ∀ v : Upload, v.clientId = c → (v ∈ us ↔ v ∈ vs))
variable (hexact : StatefullReplica.Exact (dosMasRapidos b) k c.val ds)
variable (hfed : ∀ d ∈ ds, Queued b s d)
include hown hexact hfed

/-- What the processor was given is a batch of the client's file. -/
theorem upload_of_exact {d : Receiver.Delivery (List Row)} (hd : d ∈ ds) : ∃ v ∈ vs,
    fastRows b v ≠ [] ∧ d.messageId = v.messageId.val ∧ d.payload = fastRows b v := by
  obtain ⟨v,hv,hkept,hclient,hid,hpayload⟩ := queued_upload hcomma hbatches hc hs (hfed d hd)
  have hvc : v.clientId = c := Fin.ext (hclient.symm.trans (hexact.delivered d hd).2)
  exact ⟨v,(hown v hvc).mp hv,hkept,hid,hpayload⟩

omit hfed in
include hdeployed in
/-- A batch with such a flight was given to it, if nothing of the client is left. -/
theorem exact_of_upload (hquiet : (network b w coordinates known stage).Quiet s)
    (htaken : Taken s c k) {v : Upload} (hv : v ∈ vs) (hvc : v.clientId = c)
    (hne : fastRows b v ≠ []) : ∃ d ∈ ds, d.messageId = v.messageId.val := by
  have hus := (hown v hvc).mpr hv
  have hqueued := arrives_queued hdeployed hc hs hquiet hus (by decide)
    ((arrives_dosMasRapidos hcomma (hbatches v hus)).mpr
      ⟨fun hnil => hne (List.map_eq_nil_iff.mpr hnil),rfl⟩)
  have hreceive := receive_dataBytes v.clientId v.messageId none
    (wire dosMasRapidosFields (withStopovers (flights b v)))
  rw [hvc] at hreceive
  have hcaught := htaken _ _ _ hqueued (by
    unfold Upload.message
    rw [hvc]
    exact hreceive)
  exact List.mem_map.mp ((hexact.caught _).mp hcaught)

include hdeployed in
/-- Each batch of a client is in the processor once. -/
theorem batches_perm (hquiet : (network b w coordinates known stage).Quiet s)
    (hvs : ∀ v ∈ vs, v.clientId = c) (hids : (vs.map Upload.messageId).Nodup)
    (htaken : Taken s c k) :
    (ds.map Receiver.Delivery.payload).flatten.Perm (vs.flatMap (fastRows b)) := by
  have hkept : ∀ v, v ∈ vs.filter (fun v => fastRows b v ≠ []) ↔ v ∈ vs ∧ fastRows b v ≠ [] := by
    intro v
    simp [List.mem_filter]
  have hnodup : ((vs.filter fun v => fastRows b v ≠ []).map fun v =>
      (v.messageId.val,fastRows b v)).Nodup := by
    apply List.Nodup.of_map Prod.fst
    have hfilter := hids.sublist (List.filter_sublist (p := fun v => fastRows b v ≠ []).map
      Upload.messageId)
    have hmap := hfilter.map Fin.val_injective
    rwa [List.map_map] at hmap ⊢
  have hdistinct : (ds.map fun d => (d.messageId,d.payload)).Nodup := by
    apply List.Nodup.of_map Prod.fst
    rw [List.map_map]
    exact hexact.distinct
  have hperm : (ds.map fun d => (d.messageId,d.payload)).Perm
      ((vs.filter fun v => fastRows b v ≠ []).map fun v => (v.messageId.val,fastRows b v)) := by
    apply (List.perm_ext_iff_of_nodup hdistinct hnodup).mpr
    intro x
    rw [List.mem_map,List.mem_map]
    constructor
    · rintro ⟨d,hd,rfl⟩
      obtain ⟨v,hv,hne,hid,hpayload⟩ :=
        upload_of_exact hcomma hbatches hc hs hown hexact hfed hd
      exact ⟨v,(hkept v).mpr ⟨hv,hne⟩,by rw [hid,hpayload]⟩
    · rintro ⟨v,hv,rfl⟩
      obtain ⟨hv,hne⟩ := (hkept v).mp hv
      obtain ⟨d,hd,hid⟩ := exact_of_upload hcomma hbatches hdeployed hc hs hown hexact hquiet htaken
        hv (hvs v hv) hne
      obtain ⟨v',hv',-,hid',hpayload⟩ := upload_of_exact hcomma hbatches hc hs hown hexact hfed hd
      have heq : v' = v :=
        List.inj_on_of_nodup_map hids hv' hv (Fin.ext (hid'.symm.trans hid))
      exact ⟨d,hd,by rw [hid,hpayload,heq]⟩
  have hpayloads := hperm.map Prod.snd
  rw [List.map_map,List.map_map] at hpayloads
  have hflatten := hpayloads.flatten
  rw [← flatMap_filter_ne_nil (fastRows b) vs]
  exact hflatten

end

end

/-- A run of the processor on what the queue has, with EOFs between. -/
abbrev Runs (cfg : Eof.Config) (b : Builtins)
    (s : Redelivery.State Stage ρ Bytes (Option (Word 8 × Word 8)) (Memory F)) :
    Interruptible.Config (StatefullReplica.State Row (Dict Text (List Row)))
      (StatefullReplica.Act Row) → Prop :=
  (StatefullReplica.process cfg (dosMasRapidos b) StatefullReplica.finishFastest).Run
    (StatefullReplica.Fed (dosMasRapidos b) StatefullReplica.finishFastest (Queued b s))

/-- The processor has come to the end of its queue, and takes an EOF of the client
that makes it call `finish_processing`. -/
structure Finishing (cfg : Eof.Config) (b : Builtins)
    (s : Redelivery.State Stage ρ Bytes (Option (Word 8 × Word 8)) (Memory F)) (c : Word 8)
    (k : Interruptible.Config (StatefullReplica.State Row (Dict Text (List Row)))
      (StatefullReplica.Act Row)) (t : Eof.Token) : Prop where
  runs : Runs cfg b s k
  idle : k.pending = []
  taken : Taken s c k.state
  client : t.clientId = c.val
  finishes : .finishProcessing c.val ∈ StatefullReplica.callbackEof cfg (dosMasRapidos b)
    StatefullReplica.finishFastest t k.state

variable {u : FileUploader} {cfg : Eof.Config} {token : Eof.Token}
variable {k : Interruptible.Config (StatefullReplica.State Row (Dict Text (List Row)))
  (StatefullReplica.Act Row)}

/-- A client's file, as the server has put it into the first queue. -/
structure FileRows (b : Builtins) (u : FileUploader) (us : List Upload) (c : Word 8)
    (vs : List Upload) : Prop where
  own : ∀ v : Upload, v.clientId = c → (v ∈ us ↔ v ∈ vs)
  client : ∀ v ∈ vs, v.clientId = c ∧ '\r' ∉ v.content
  ids : (vs.map Upload.messageId).Nodup
  rows : fileRows u = vs.flatMap (flights b)
  fast : vs.flatMap (fastRows b) =
    (withStopovers (fileRows u)).map (project dosMasRapidosFields)

theorem exists_fileRows (hfeed : b.space '\n' = true) (hsize : 1 ≤ u.batchSize)
    (hheader : u.removeFileHeader = true → u.text ≠ []) (hshort : u.bodyLines.length < 256^8)
    (hsolid : ∀ l ∈ u.bodyLines, Solid b l) (hfile : FileUploaded c u us) :
    ∃ vs, FileRows b u us c vs := by
  obtain ⟨groups,queued,hgroups,hstart,huploads⟩ := uploads_start hsize hheader c
  obtain ⟨queued',hstart',hown⟩ := hfile
  rw [hstart,Option.some.injEq] at hstart'
  subst hstart'
  rw [huploads] at hown
  refine ⟨_,hown,uploads_client hgroups c,nodup_ids hgroups hshort c,?_,?_⟩
  · have hall := flatMap_answers hfeed hsolid hgroups c (fun _ => true) id
    simp only [List.filter_true,List.map_id] at hall
    exact hall.symm
  · exact flatMap_answers hfeed hsolid hgroups c (fun row => 3 ≤ stopover row) _

theorem FileRows.upload (hf : FileRows b u us c vs) {row : Row} (hrow : row ∈ fileRows u) :
    ∃ v ∈ us, '\r' ∉ v.content ∧ row ∈ flights b v := by
  rw [hf.rows] at hrow
  obtain ⟨v,hv,hmem⟩ := List.mem_flatMap.mp hrow
  exact ⟨v,(hf.own v (hf.client v hv).1).mpr hv,(hf.client v hv).2,hmem⟩

section
variable (hcomma : b.space ',' = false) (hbatches : ∀ v ∈ us, CompleteBatch b v)
variable (hf : FileRows b u us c vs) (hdeployed : Deployed stage) (hc : Consistent us)
variable (hs : (network b w coordinates known stage).Reached (uploaded us) s)
variable (hquiet : (network b w coordinates known stage).Quiet s)
variable (hstatefull : cfg.hasStatefullProcessor = true) (hcatcher : cfg.useDuplicateCatcher = true)
include hcomma hbatches hf hdeployed hc hs hquiet hstatefull hcatcher

/-- Whatever way the processor has come to the end of its queue. -/
theorem finishes_fastest (hk : Finishing cfg b s c k token) :
    ∃ out, TwoFastest b (withStopovers (fileRows u)) out ∧
      finishProcessing (k.state.getProcessor (dosMasRapidos b) c.val) =
        out.map (project dosMasRapidosFields) := by
  have hok := StatefullReplica.dosMasRapidos_done b
  have hfeed : ∀ d, Queued b s d → ∀ row ∈ d.payload, FlightMessage row :=
    fun d hd => queued_flightMessage hcomma hbatches hc hs hd
  obtain ⟨ds,hexact⟩ := (hk.runs.idle
    (StatefullReplica.processors_survive _ hstatefull hcatcher hok hfeed) hk.idle).exact c.val
  have hfed : ∀ d ∈ ds, Queued b s d := fun d hd =>
    StatefullReplica.delivered_fed hstatefull hcatcher hok hfeed hk.runs d (hexact.delivered d hd).1
  have hperm := batches_perm hcomma hbatches hdeployed hc hs hf.own hexact hfed hquiet
    (fun v hv => (hf.client v hv).1) hf.ids hk.taken
  have hrows : ∀ row ∈ (ds.map Receiver.Delivery.payload).flatten, FlightMessage row := by
    intro row hrow
    obtain ⟨rows,hrows,hmem⟩ := List.mem_flatten.mp hrow
    obtain ⟨d,hd,rfl⟩ := List.mem_map.mp hrows
    exact hfeed d (hfed d hd) row hmem
  obtain ⟨t,ht,hkeeps⟩ := keepsTwo_run (b := b) hrows
  cases hexact.processed.symm.trans ht
  rw [hf.fast] at hperm
  obtain ⟨out,hmap,hout⟩ := ((finishProcessing_twoFastest hkeeps).perm hperm).of_map
    (fun row hrow => by
      obtain ⟨v,hv,-,hmem⟩ := hf.upload (mem_withStopovers hrow)
      exact trajectory_project (hbatches v hv row hmem))
    (fun row hrow => by
      obtain ⟨v,hv,-,hmem⟩ := hf.upload (mem_withStopovers hrow)
      exact duration_project (hbatches v hv row hmem))
  exact ⟨out,hout,hmap.symm⟩

end

/-- What `Connection.handle_eof` sends of a client, with the id of its replica. -/
def finishMessage (replicaId : ℕ) (c : Word 8) (messages : List Row) : Option Bytes :=
  if messages.isEmpty then none
  else (joinRows dosMasRapidosFields messages).map (dataBytes c (word 8 replicaId) none)

/-- The message that the processor sends when it finishes. -/
def Finishes (cfg : Eof.Config) (b : Builtins)
    (s : Redelivery.State Stage ρ Bytes (Option (Word 8 × Word 8)) (Memory F)) (c : Word 8)
    (bytes : Bytes) : Prop :=
  ∃ k token, Finishing cfg b s c k token ∧ finishMessage cfg.replicaId c
    (finishProcessing (k.state.getProcessor (dosMasRapidos b) c.val)) = some bytes

/-- What the tagger makes of a message. -/
def Tags (b : Builtins) (bytes answer : Bytes) : Prop :=
  ∃ out, ((taggerStage b "DOS_MAS_RAPIDOS" (word 1 1)).handle bytes ()).1 = some out ∧ answer ∈ out

/-- The client has received what the tagger has made of a message of the processor,
perhaps of several: one that is killed behind its last batch finishes anew. -/
structure Answered (cfg : Eof.Config) (b : Builtins)
    (s : Redelivery.State Stage ρ Bytes (Option (Word 8 × Word 8)) (Memory F)) (c : Word 8)
    (messages : List Message) (h : ResultHandler) : Prop where
  handled : ResultHandler.receiveResults messages ResultHandler.start = some h
  sound : ∀ i text, .result (word 1 1) i text ∈ messages → ∃ bytes, Finishes cfg b s c bytes ∧
    Tags b bytes (dataBytes c i (some (word 1 1)) text.toList)
  complete : ∀ bytes, Finishes cfg b s c bytes →
    word 8 cfg.replicaId ∈ h.resultsReceived.getD (word 1 1) ∅

/-- The lines of the answer. -/
def taggedRows (out : List Row) : List Text := out.map (tagged "DOS_MAS_RAPIDOS" dosMasRapidosFields)

section
variable {out : List Row}

theorem finishMessage_project (hne : out ≠ []) (hsendable : ∀ row ∈ out,
    Sendable b dosMasRapidosFields row) (replicaId : ℕ) (c : Word 8) :
    finishMessage replicaId c (out.map (project dosMasRapidosFields)) =
      some (dataBytes c (word 8 replicaId) none (wire dosMasRapidosFields out)) := by
  have hnodup : dosMasRapidosFields.Nodup := by decide
  have hempty : (out.map (project dosMasRapidosFields)).isEmpty = false := by
    rw [List.isEmpty_eq_false_iff]
    exact fun hnil => hne (List.map_eq_nil_iff.mp hnil)
  have hplain : ∀ row ∈ out.map (project dosMasRapidosFields),
      Hop.Plain id dosMasRapidosFields row := by
    intro row hrow
    obtain ⟨r,hr,rfl⟩ := List.mem_map.mp hrow
    exact plain_project hnodup (List.Subset.refl _) (hsendable r hr).plain
  unfold finishMessage
  rw [hempty,joinRows_wire hplain,wire_project hnodup (List.Subset.refl _)]
  rfl

theorem tags_wire (hne : out ≠ []) (hsendable : ∀ row ∈ out, Sendable b dosMasRapidosFields row)
    {i : Word 8} {answer : Bytes} : Tags b (dataBytes c i none (wire dosMasRapidosFields out)) answer ↔
      answer = dataBytes c i (some (word 1 1)) (['\n'].intercalate (taggedRows out)) := by
  have houtput := taggerStage_wire "DOS_MAS_RAPIDOS" (word 1 1) hne hsendable
  have hready := handle_ready (g := taggerStage b "DOS_MAS_RAPIDOS" (word 1 1)) (s := ())
    (receive_dataBytes c i none (wire dosMasRapidosFields out))
    (collect_ready fun m _ s => tagger_ready _ m s)
  obtain ⟨bytes,hbytes⟩ := hready
  obtain ⟨c',i',text,hreceive,-,hout⟩ := RowStage.handle_eq hbytes
  rw [receive_dataBytes,Option.some.injEq,Prod.mk.injEq,Prod.mk.injEq] at hreceive
  obtain ⟨rfl,rfl,rfl⟩ := hreceive
  rw [houtput] at hout
  have hresult : result "DOS_MAS_RAPIDOS" dosMasRapidosFields out =
      some (['\n'].intercalate (taggedRows out)) := if_neg hne
  rw [hresult,Option.map_some,Option.toList_some] at hout
  subst hout
  constructor
  · rintro ⟨out',hout',hmem⟩
    rw [hbytes,Option.some.injEq] at hout'
    rw [← hout'] at hmem
    exact List.mem_singleton.mp hmem
  · rintro rfl
    exact ⟨_,hbytes,List.mem_cons_self⟩

end

variable {messages : List Message} {h : ResultHandler} {merged : Text}

theorem FileRows.sendable (hf : FileRows b u us c vs) (hcomma : b.space ',' = false)
    (hbatches : ∀ v ∈ us, CompleteBatch b v) {out : List Row}
    (hout : TwoFastest b (withStopovers (fileRows u)) out) :
    ∀ row ∈ out, Sendable b dosMasRapidosFields row := by
  intro row hrow
  obtain ⟨v,hv,-,hmem⟩ := hf.upload (mem_withStopovers (hout.mem row hrow))
  exact sendable_dosMasRapidos hcomma (hbatches v hv) row hmem

theorem FileRows.return_not_mem (hf : FileRows b u us c vs) {out : List Row}
    (hout : TwoFastest b (withStopovers (fileRows u)) out) :
    '\r' ∉ ['\n'].intercalate (taggedRows out) := by
  intro hmem
  rcases Hop.mem_intercalate hmem with hmem | ⟨l,hl,hmem⟩
  · exact absurd (List.mem_singleton.mp hmem) (by decide)
  · obtain ⟨row,hrow,rfl⟩ := List.mem_map.mp hl
    obtain ⟨v,-,hcontent,hrow⟩ := hf.upload (mem_withStopovers (hout.mem row hrow))
    exact return_not_mem_tagged hrow hcontent (by decide) _ hmem

section
variable (hcomma : b.space ',' = false) (hbatches : ∀ v ∈ us, CompleteBatch b v)
variable (hf : FileRows b u us c vs) (hdeployed : Deployed stage) (hc : Consistent us)
variable (hs : (network b w coordinates known stage).Reached (uploaded us) s)
variable (hquiet : (network b w coordinates known stage).Quiet s)
variable (hstatefull : cfg.hasStatefullProcessor = true) (hcatcher : cfg.useDuplicateCatcher = true)
include hcomma hbatches hf hdeployed hc hs hquiet hstatefull hcatcher

/-- Each answer is the lines of a selection, under the id of the replica. -/
theorem Answered.selected (hanswered : Answered cfg b s c messages h) {i : Word 8} {text : String}
    (hmem : .result (word 1 1) i text ∈ messages) : i = word 8 cfg.replicaId ∧
    ∃ out, TwoFastest b (withStopovers (fileRows u)) out ∧ out ≠ [] ∧
      text.toList = ['\n'].intercalate (taggedRows out) := by
  obtain ⟨bytes,⟨k,token,hk,hbytes⟩,htags⟩ := hanswered.sound i text hmem
  obtain ⟨out,hout,heq⟩ :=
    finishes_fastest hcomma hbatches hf hdeployed hc hs hquiet hstatefull hcatcher hk
  have hsendable := hf.sendable hcomma hbatches hout
  rw [heq] at hbytes
  have hne : out ≠ [] := by
    rintro rfl
    cases hbytes
  rw [finishMessage_project hne hsendable,Option.some.injEq] at hbytes
  subst hbytes
  rw [tags_wire hne hsendable] at htags
  obtain ⟨-,hid,-,htext⟩ := dataBytes_inj htags
  exact ⟨hid,out,hout,hne,htext⟩

/-- A processor with something to answer has been heard. -/
theorem Answered.heard (hanswered : Answered cfg b s c messages h)
    (hk : Finishing cfg b s c k token) : ∃ out, TwoFastest b (withStopovers (fileRows u)) out ∧
    (out ≠ [] → word 8 cfg.replicaId ∈ h.resultsReceived.getD (word 1 1) ∅) := by
  obtain ⟨out,hout,heq⟩ :=
    finishes_fastest hcomma hbatches hf hdeployed hc hs hquiet hstatefull hcatcher hk
  refine ⟨out,hout,?_⟩
  intro hne
  have hmessage := finishMessage_project hne (hf.sendable hcomma hbatches hout) cfg.replicaId c
  rw [← heq] at hmessage
  exact hanswered.complete _ ⟨k,token,hk,hmessage⟩

/-- The results are tagged, those of this query by its tagger. -/
theorem Answered.tagged (hanswered : Answered cfg b s c messages h) (hlower : AsciiLower lower)
    (hothers : OthersTagged lower (word 1 1) messages) :
    ∀ message ∈ messages, Tagged lower message := by
  rintro message hmem t i text rfl
  by_cases ht : t = word 1 1
  · subst ht
    obtain ⟨-,out,-,hne,htext⟩ :=
      hanswered.selected hcomma hbatches hf hdeployed hc hs hquiet hstatefull hcatcher hmem
    refine ⟨"dos_mas_rapidos".toList,rfl,?_⟩
    rw [htext]
    exact getMessageTag_lines hlower (by decide) (by decide) rfl _
      fun hnil => hne (List.map_eq_nil_iff.mp hnil)
  · exact hothers t i text ht hmem t i text rfl

end

/-- Whatever the batch size, whatever order the batches are handled, given back, lost
and repeated in, whenever the processor is killed where the restart takes no saved
batch away, and however often its answer is sent: the client has, of each trajectory
in its file, the two fastest of the flights with three stopovers or more, one line
for each. -/
theorem file_dosMasRapidos (hcomma : b.space ',' = false) (hfeed : b.space '\n' = true)
    (hsize : 1 ≤ u.batchSize) (hheader : u.removeFileHeader = true → u.text ≠ [])
    (hshort : u.bodyLines.length < 256^8) (hsolid : ∀ l ∈ u.bodyLines, Solid b l)
    (hbatches : ∀ v ∈ us, CompleteBatch b v) (hfile : FileUploaded c u us)
    (hdeployed : Deployed stage) (hc : Consistent us)
    (hs : (network b w coordinates known stage).Reached (uploaded us) s)
    (hquiet : (network b w coordinates known stage).Quiet s)
    (hstatefull : cfg.hasStatefullProcessor = true) (hcatcher : cfg.useDuplicateCatcher = true)
    (hk : Finishing cfg b s c k token) (hanswered : Answered cfg b s c messages h)
    (hlower : AsciiLower lower) (hothers : OthersTagged lower (word 1 1) messages)
    (hleaves : Leaves lower h (word 1 1) merged) :
    ∃ out, TwoFastest b (withStopovers (fileRows u)) out ∧
      merged = (taggedRows out).flatMap fun l => l ++ ['\n'] := by
  obtain ⟨vs,hf⟩ := exists_fileRows hfeed hsize hheader hshort hsolid hfile
  obtain ⟨p,hpart,-,hp⟩ := handed hanswered.handled
  have htagged : ∀ message ∈ p, Tagged lower message := fun message hmem =>
    hanswered.tagged hcomma hbatches hf hdeployed hc hs hquiet hstatefull hcatcher hlower hothers
      message (hpart.subset hmem)
  obtain ⟨processes,sv,m,hsv,hjoined,hm,hfinished⟩ := hleaves
  obtain ⟨order,hnodup,hids,hsound,rfl⟩ := hp.merged htagged hsv hjoined hm rfl hfinished
  have horder : ∀ x ∈ order, x.1 = word 8 cfg.replicaId ∧
      ∃ out, TwoFastest b (withStopovers (fileRows u)) out ∧ out ≠ [] ∧
        x.2 = ['\n'].intercalate (taggedRows out) := by
    intro x hx
    have hselected := hanswered.selected hcomma hbatches hf hdeployed hc hs hquiet hstatefull
      hcatcher (hpart.subset (hsound x hx))
    rwa [String.toList_ofList] at hselected
  cases order with
  | nil =>
      obtain ⟨out,hout,hheard⟩ :=
        hanswered.heard hcomma hbatches hf hdeployed hc hs hquiet hstatefull hcatcher hk
      have hnil : out = [] := by
        by_contra hne
        have hreceived := hheard hne
        rw [hp.results,← hids] at hreceived
        cases hreceived
      subst hnil
      exact ⟨[],hout,rfl⟩
  | cons x rest =>
      obtain ⟨hid,out,hout,hne,htext⟩ := horder x List.mem_cons_self
      -- all the answers come under the one id of the replica
      have hrest : rest = [] := by
        rw [List.eq_nil_iff_forall_not_mem]
        intro y hy
        have hsame := (horder y (List.mem_cons_of_mem x hy)).1
        rw [List.map_cons,List.nodup_cons] at hnodup
        exact hnodup.1 (List.mem_map.mpr ⟨y,hy,hsame.trans hid.symm⟩)
      have hlines : taggedRows out ≠ [] := fun hnil => hne (List.map_eq_nil_iff.mp hnil)
      refine ⟨out,hout,?_⟩
      rw [hrest,List.flatMap_singleton,htext,universalNewlines_of_not_mem (hf.return_not_mem hout),
        intercalate_feed hlines]

end

section
open Interruptible

def oneDelivery : Receiver.Delivery (List Row) where
  tag := 0
  messageId := 1
  clientId := 1
  payload := fastRows asciiBuiltins oneFlight
  redelivered := false

/-- The processor has handled the flight. -/
def oneTaken : StatefullReplica.State Row (Dict Text (List Row)) :=
  (StatefullReplica.process Receiver.grouper (dosMasRapidos asciiBuiltins)
    StatefullReplica.finishFastest).execAll (StatefullReplica.callback Receiver.grouper oneDelivery)
    ⟨Receiver.deliver oneDelivery (Receiver.fresh Receiver.grouper),.empty⟩

variable {s : Redelivery.State Stage (Fin 11) Bytes (Option (Word 8 × Word 8)) (Memory ℚ)}

theorem oneFlight_stopovers : withStopovers (flights asciiBuiltins oneFlight) ≠ [] := by
  decide +kernel

theorem oneTaken_finishing
    (hs : (network asciiBuiltins nearby nowhere twoAirports replicas).Reached (uploaded [oneFlight]) s)
    (hquiet : (network asciiBuiltins nearby nowhere twoAirports replicas).Quiet s) :
    Finishing Receiver.grouper asciiBuiltins s (word 8 1) (.idle oneTaken) (.eof ⟨1,1,[]⟩) := by
  refine ⟨?_,rfl,?_,rfl,?_⟩
  · have harrives : Arrives asciiBuiltins nearby nowhere oneFlight (.dosMasRapidos,
        oneFlight.message none
          (wire dosMasRapidosFields (withStopovers (flights asciiBuiltins oneFlight)))) :=
      (arrives_dosMasRapidos rfl oneFlight_complete).mpr ⟨oneFlight_stopovers,rfl⟩
    have hqueued := arrives_queued replicas_deployed (consistent_single _) hs hquiet
      List.mem_cons_self (by decide) harrives
    have hd : Queued asciiBuiltins s oneDelivery := by
      refine ⟨_,_,_,_,hqueued,receive_dataBytes _ _ _ _,rfl,rfl,?_⟩
      rw [parsePayload_wire (by decide) oneFlight_stopovers]
      · rfl
      · exact fun row hrow =>
          sendable_dosMasRapidos rfl oneFlight_complete row (mem_withStopovers hrow)
    exact Process.Run.drain (fun _ => trivial) (.step (e := .begin (.data oneDelivery)) .init hd rfl)
  · intro bytes i text hqueued hreceive
    obtain ⟨v,hv,ha⟩ := queued_arrives (consistent_single _) hs hqueued
    rw [List.mem_singleton] at hv
    subst hv
    obtain ⟨-,rfl⟩ := (arrives_dosMasRapidos rfl oneFlight_complete).mp ha
    unfold Upload.message at hreceive
    rw [receive_dataBytes,Option.some.injEq,Prod.mk.injEq,Prod.mk.injEq] at hreceive
    obtain ⟨-,rfl,-⟩ := hreceive
    decide +kernel
  · decide +kernel

theorem file_dosMasRapidos_oneFile : ∃ out,
    TwoFastest asciiBuiltins (withStopovers (fileRows oneFile)) out ∧
      "[DOS_MAS_RAPIDOS]L,A,B,PT9H,C||D||E||F||B\n".toList =
        (taggedRows out).flatMap fun l => l ++ ['\n'] := by
  obtain ⟨s,hs,hquiet⟩ := oneFlight_finished
  have hk := oneTaken_finishing hs hquiet
  have hsendable : ∀ row ∈ withStopovers (flights asciiBuiltins oneFlight),
      Sendable asciiBuiltins dosMasRapidosFields row := fun row hrow =>
    sendable_dosMasRapidos rfl oneFlight_complete row (mem_withStopovers hrow)
  have hfinish : finishProcessing (oneTaken.getProcessor (dosMasRapidos asciiBuiltins) 1) =
      fastRows asciiBuiltins oneFlight := by decide +kernel
  have hlines : ['\n'].intercalate (taggedRows (withStopovers (flights asciiBuiltins oneFlight))) =
      "[DOS_MAS_RAPIDOS]L,A,B,PT9H,C||D||E||F||B".toList := by decide +kernel
  have hcopied : copied "[DOS_MAS_RAPIDOS]L,A,B,PT9H,C||D||E||F||B".toList =
      "[DOS_MAS_RAPIDOS]L,A,B,PT9H,C||D||E||F||B\n".toList := by decide +kernel
  have hname : getTagNameById (word 1 1) = some "dos_mas_rapidos".toList := rfl
  obtain ⟨h,hh,hreceived,htagged,hleaves⟩ :=
    oneResult_left "[DOS_MAS_RAPIDOS]L,A,B,PT9H,C||D||E||F||B".toList hname (by decide)
  rw [hcopied] at hleaves
  refine file_dosMasRapidos rfl rfl (by decide) (fun _ => by decide)
    (by rw [oneFile_rows.1]; decide) oneFile_solid (by simpa using oneFlight_complete)
    oneFile_uploaded replicas_deployed (consistent_single _) hs hquiet rfl rfl hk ⟨hh,?_,?_⟩
    (fun _ _ => rfl) htagged hleaves
  · intro i text hmem
    obtain ⟨rfl,rfl⟩ : i = word 8 1 ∧
        text = .ofList "[DOS_MAS_RAPIDOS]L,A,B,PT9H,C||D||E||F||B".toList := by simpa using hmem
    refine ⟨dataBytes (word 8 1) (word 8 1) none (wire dosMasRapidosFields
      (withStopovers (flights asciiBuiltins oneFlight))),⟨_,_,hk,?_⟩,
      (tags_wire oneFlight_stopovers hsendable).mpr ?_⟩
    · exact (congrArg (finishMessage 1 (word 8 1)) hfinish).trans
        (finishMessage_project oneFlight_stopovers hsendable 1 (word 8 1))
    · rw [hlines,String.toList_ofList]
  · intro bytes _
    rw [hreceived]
    exact Finset.mem_singleton_self _

end

end FlightsOptimizer.FastestQuery
