import FlightsOptimizer.ConnectionRestart
import FlightsOptimizer.ExactlyOnce
import FlightsOptimizer.TwoFastest

/-!
# A replica with the processors of its clients

The receiver, the storer and the stateful processors as one process. A crash loses
the processors. The constructor of `Connection` builds them again, from the
connection log as the restart has left it, the last batch first; a message that was
not saved is not in it and comes again. Whenever the replica is idle, a processor is
as if each saved batch had been given to it once, and nothing had ever crashed.

The processors are those that answer nothing while they take rows in, DosMasRapidos,
Grouper and LatLong; rows on which they raise are left out. An EOF calls
`finish_processing`, and is left out where that changes the processor, as it does
with a Grouper. A crash is left out where the restart would take a saved line away.
It does so after the SENT record of an EOF, and where the id of the last saved
message begins with that of the unfinished one.
-/
namespace FlightsOptimizer.StatefullReplica
open Logger LogGrammar Eof Interruptible Receiver Replay

structure State (ρ σ : Type) where
  replica : Replica (List ρ)
  processors : Dict ClientId σ

/-- `input_callback` and `eof_callback` among the actions of the receiver. -/
inductive Act (ρ : Type) where
  | receiver (a : Action (List ρ))
  | process (c : ClientId) (messages : List ρ)
  | finishProcessing (c : ClientId)
  deriving DecidableEq

def Act.ofReceiver {ρ : Type} : Act ρ → Option (Action (List ρ))
  | .receiver a => some a
  | .process _ _ | .finishProcessing _ => none

inductive Work (ρ : Type) where
  | data (d : Delivery (List ρ))
  | eof (t : Token)

section
variable {ρ σ : Type} (cfg : Config) (P : Processor ρ σ)

-- what `finish_processing` leaves, and whether it answers with messages
variable (finish : σ → σ × Bool)

def State.getProcessor (c : ClientId) (s : State ρ σ) : σ := s.processors.getD c P.init

/-- `Connection.process` on a batch. -/
def State.process (c : ClientId) (messages : List ρ) (s : State ρ σ) : State ρ σ :=
  {s with processors := s.processors.set c (P.run messages (s.getProcessor P c)).state}

def State.finishProcessing (c : ClientId) (s : State ρ σ) : State ρ σ :=
  {s with processors := s.processors.set c (finish (s.getProcessor P c)).1}

def exec (a : Act ρ) (s : State ρ σ) : State ρ σ :=
  match a with
  | .receiver a => {s with replica := Receiver.exec a s.replica}
  | .process c messages => s.process P c messages
  | .finishProcessing c => s.finishProcessing P finish c

/-- What comes before `input_callback`. -/
def opening (d : Delivery (List ρ)) : List (Action (List ρ)) :=
  (if cfg.useDuplicateCatcher then [.checkDuplicate d.messageId d.clientId] else []) ++
    ([.newMessageReceived d.messageId d.clientId] ++
      if d.redelivered then [.addPossibleDuplicate d.messageId d.clientId] else [])

/-- What comes after it. -/
def closing (d : Delivery (List ρ)) : List (Action (List ρ)) :=
  .countReceived d.clientId :: (finishStoringMessage cfg d ++
    .basicAck d.messageId d.clientId ::
      if d.isResult then [] else [.commitMessage d.messageId d.clientId])

def callback (d : Delivery (List ρ)) : List (Act ρ) :=
  (opening cfg d).map .receiver ++ .process d.clientId d.payload :: (closing cfg d).map .receiver

/-- `Connection.handle_eof` begins with `finish_processing`. -/
def eofActions : Action (List ρ) → List (Act ρ)
  | .eofCallback c => [.finishProcessing c,.receiver (.eofCallback c)]
  | a => [.receiver a]

def callbackEof (t : Token) (s : State ρ σ) : List (Act ρ) :=
  (Receiver.callbackEof cfg s.replica (finish (s.getProcessor P t.clientId)).2 t).flatMap eofActions

def begin (w : Work ρ) (s : State ρ σ) : Option (State ρ σ × List (Act ρ)) :=
  match w with
  | .data d =>
      let s' := {s with replica := deliver d s.replica}
      if cfg.useDuplicateCatcher && s.replica.memory.isDuplicate d.messageId d.clientId then
        some (s',[.receiver .basicNack])
      else some (s',callback cfg d)
  | .eof t => some (s,callbackEof cfg P finish t s)

/-- `restore_statefull_processor`: the lines of the log from the bottom. -/
def restoreStatefullProcessor (f : Files (List ρ)) (c : ClientId) : Option σ :=
  (P.run ((f.connection.getD c []).flatMap Prod.snd) P.init).done?

/-- The loop of the constructor. -/
def restoreProcessors (f : Files (List ρ)) : Option (Dict ClientId σ) :=
  f.connection.keys.foldlM
    (fun ps c => (restoreStatefullProcessor P f c).map (ps.set c)) .empty

def recover (s : State ρ σ) : Option (State ρ σ) := do
  let replica ← Receiver.recover cfg startsWithId s.replica
  let processors ← restoreProcessors P replica.files
  some ⟨replica,processors⟩

def process : Process (State ρ σ) (Work ρ) (Act ρ) :=
  ⟨⟨fresh cfg,.empty⟩,begin cfg P finish,exec P finish,recover cfg P⟩

/-- The messages that the queue has, EOFs that leave the processor of their client as
it is, and crashes whose restart takes no saved line away. -/
def Fed (Feed : Delivery (List ρ) → Prop) (k : Interruptible.Config (State ρ σ) (Act ρ)) :
    Event (Work ρ) → Prop
  | .begin (.data d) => Feed d
  | .begin (.eof t) =>
      (finish (k.state.getProcessor P t.clientId)).1 = k.state.getProcessor P t.clientId
  | .tick => True
  | .crash => keepsSaved startsWithId k.state.replica.files = true

/-- The processor of a client is that of some deliveries, none with the id of
another, among them all that were acknowledged; the catcher turns their ids away and
no others. -/
structure Exact (s : State ρ σ) (c : ClientId) (ds : List (Delivery (List ρ))) : Prop where
  delivered : ∀ d ∈ ds, d ∈ s.replica.history.delivered ∧ d.clientId = c
  distinct : (ds.map Delivery.messageId).Nodup
  acked : ∀ m, (m,c) ∈ s.replica.history.acked → m ∈ ds.map Delivery.messageId
  caught : ∀ m, m ∈ (s.replica.memory.duplicateCatcher c).messagesId ↔
    m ∈ ds.map Delivery.messageId
  processed : P.run (ds.map Delivery.payload).flatten P.init = .done (s.getProcessor P c)

end

section
variable {ρ σ : Type} {cfg : Config} {P : Processor ρ σ} {finish : σ → σ × Bool}

/-- The receiver inside. -/
def hosts : (process cfg P finish).Hosts (Receiver.process (β := List ρ) cfg startsWithId) where
  state := State.replica
  action := Act.ofReceiver
  exec := fun a s => by cases a <;> rfl

theorem filterMap_receiver (as : List (Action (List ρ))) :
    (as.map Act.receiver).filterMap Act.ofReceiver = as := by
  rw [List.filterMap_map]
  exact List.filterMap_some

/-- The handling of a processor that answers nothing. -/
theorem receiver_callback (d : Delivery (List ρ)) :
    (callback cfg d).filterMap Act.ofReceiver = Receiver.callback cfg d (.done 0 false) := by
  have hprocess : (Act.process d.clientId d.payload :: (closing cfg d).map .receiver).filterMap
      Act.ofReceiver = closing cfg d := filterMap_receiver _
  rw [callback_eq,callback,List.filterMap_append,filterMap_receiver,hprocess]
  rfl

theorem receiver_eofActions (as : List (Action (List ρ))) :
    (as.flatMap eofActions).filterMap Act.ofReceiver = as := by
  induction as with
  | nil => rfl
  | cons a as ih =>
      rw [List.flatMap_cons,List.filterMap_append,ih]
      cases a <;> rfl

theorem receiver_callbackEof (t : Token) (s : State ρ σ) :
    (callbackEof cfg P finish t s).filterMap Act.ofReceiver =
      Receiver.callbackEof cfg s.replica (finish (s.getProcessor P t.clientId)).2 t :=
  receiver_eofActions _

variable (cfg P finish) in
theorem replica_callback (d : Delivery (List ρ)) (s : State ρ σ) :
    ((process cfg P finish).execAll (callback cfg d) {s with replica := deliver d s.replica}).replica =
      (Receiver.process cfg startsWithId).execAll (Receiver.callback cfg d (.done 0 false))
        (deliver d s.replica) := by
  rw [← receiver_callback]
  exact hosts.execAll _ _

variable (cfg P finish) in
/-- A batch goes to the processor of its client. -/
theorem processors_callback (d : Delivery (List ρ)) (s : State ρ σ) :
    ((process cfg P finish).execAll (callback cfg d)
      {s with replica := deliver d s.replica}).processors =
      (s.process P d.clientId d.payload).processors := by
  have hreceiver : ∀ (as : List (Action (List ρ))) (t : State ρ σ),
      ((process cfg P finish).execAll (as.map .receiver) t).processors = t.processors := by
    intro as
    induction as with
    | nil => exact fun _ => rfl
    | cons a as ih =>
        intro t
        rw [List.map_cons,Process.execAll_cons,ih]
        rfl
  unfold callback
  rw [Process.execAll_append,Process.execAll_cons,hreceiver]
  change ((State.process P d.clientId d.payload) _).processors = _
  unfold State.process State.getProcessor
  rw [hreceiver]

theorem mem_callbackEof {t : Token} {s : State ρ σ} {a : Act ρ}
    (ha : a ∈ callbackEof cfg P finish t s) :
    a = .finishProcessing t.clientId ∨ ∃ b, a = .receiver b := by
  obtain ⟨b,hb,ha⟩ := List.mem_flatMap.mp ha
  have hof := (callbackEof_hop cfg s.replica _ t).ofEof b hb
  cases b with
  | eofCallback c =>
      obtain rfl : c = t.clientId := hof
      rcases List.mem_cons.mp ha with rfl | ha
      · exact Or.inl rfl
      · exact Or.inr ⟨_,List.mem_singleton.mp ha⟩
  | _ => exact Or.inr ⟨_,List.mem_singleton.mp ha⟩

variable (cfg) in
/-- An EOF leaves the processors as they are, if `finish_processing` does. -/
theorem processors_callbackEof {t : Token} {s : State ρ σ}
    (h : (finish (s.getProcessor P t.clientId)).1 = s.getProcessor P t.clientId) (c : ClientId) :
    ((process cfg P finish).execAll (callbackEof cfg P finish t s) s).getProcessor P c =
      s.getProcessor P c := by
  have hthrough : (process cfg P finish).Throughout
      (fun u => ∀ c, u.getProcessor P c = s.getProcessor P c) (callbackEof cfg P finish t s) s := by
    refine Process.throughout_of_forall (fun _ => rfl) ?_
    intro a ha u hu c
    rcases mem_callbackEof ha with rfl | ⟨b,rfl⟩
    · change (u.processors.set t.clientId (finish (u.getProcessor P t.clientId)).1).getD c P.init = _
      rw [Dict.getD_set,hu,h]
      split_ifs with hc
      · rw [hc]
      · exact hu c
    · exact hu c
  exact hthrough _ List.prefix_rfl c

variable (cfg P finish) in
theorem replica_callbackEof (t : Token) (s : State ρ σ) :
    EofTouched t.clientId s.replica
      ((process cfg P finish).execAll (callbackEof cfg P finish t s) s).replica := by
  have hreplica : ((process cfg P finish).execAll (callbackEof cfg P finish t s) s).replica =
      (Receiver.process cfg startsWithId).execAll
        ((callbackEof cfg P finish t s).filterMap Act.ofReceiver) s.replica := hosts.execAll _ _
  rw [hreplica,receiver_callbackEof]
  exact callbackEof_touched cfg startsWithId s.replica _ t

theorem begin_cases {d : Delivery (List ρ)} {s t : State ρ σ} {program : List (Act ρ)}
    (hb : (process cfg P finish).begin (.data d) s = some (t,program)) :
    t = {s with replica := deliver d s.replica} ∧
      ((cfg.useDuplicateCatcher = true ∧ program = [.receiver .basicNack]) ∨
        (cfg.useDuplicateCatcher = true →
          s.replica.memory.isDuplicate d.messageId d.clientId = false) ∧
        program = callback cfg d) := by
  simp only [process,begin] at hb
  split_ifs at hb with hdup
  · obtain ⟨hcatcher,-⟩ := Bool.and_eq_true_iff.mp hdup
    cases hb
    exact ⟨rfl,Or.inl ⟨hcatcher,rfl⟩⟩
  · cases hb
    refine ⟨rfl,Or.inr ⟨?_,rfl⟩⟩
    intro hcatcher
    rw [hcatcher,Bool.true_and,Bool.not_eq_true] at hdup
    exact hdup

section
variable (Feed : Delivery (List ρ) → Prop)

/-- The batches in the connection logs were delivered. -/
structure Stored (r : Replica (List ρ)) : Prop where
  fed : ∀ d ∈ r.history.delivered, Feed d
  connection : ∀ c, ∀ e ∈ r.files.connection.getD c [], ∃ d ∈ r.history.delivered,
    d.clientId = c ∧ (d.messageId,d.payload) = e

variable {Feed} {r t : Replica (List ρ)} {d : Delivery (List ρ)}

theorem Stored.deliver (h : Stored Feed r) (hd : Feed d) : Stored Feed (deliver d r) where
  fed := fun d' hd' => by
    rcases List.mem_cons.mp hd' with rfl | hd'
    · exact hd
    · exact h.fed d' hd'
  connection := fun c e he => by
    obtain ⟨d',hd',h'⟩ := h.connection c e he
    exact ⟨d',List.mem_cons_of_mem d hd',h'⟩

theorem Stored.eof {c : ClientId} (h : Stored Feed r) (ht : EofTouched c r t) : Stored Feed t where
  fed := by
    rw [ht.delivered]
    exact h.fed
  connection := by
    obtain ⟨k,hk⟩ := ht.files
    rw [hk,ht.delivered]
    exact h.connection

/-- The one line that a callback writes is that of its delivery. -/
theorem stored_callback (h : Stored Feed r) (hd : Feed d) :
    (Receiver.process cfg startsWithId).Throughout (Stored Feed)
      (Receiver.callback cfg d (.done 0 false)) (deliver d r) := by
  have hall : (Receiver.process cfg startsWithId).Throughout
      (fun t => Stored Feed t ∧ d ∈ t.history.delivered)
      (Receiver.callback cfg d (.done 0 false)) (deliver d r) := by
    refine Process.throughout_of_forall ⟨h.deliver hd,List.mem_cons_self⟩ ?_
    rintro a ha t ⟨ht,hmem⟩
    rcases mem_callback cfg ha with rfl | rfl | rfl | rfl | rfl | rfl | rfl | rfl | rfl | rfl | rfl |
      rfl | rfl
    case inr.inr.inr.inr.inr.inr.inr.inl =>
      refine ⟨⟨ht.fed,?_⟩,hmem⟩
      intro c e he
      change e ∈ (appendLine d.clientId (d.messageId,d.payload) t.files.connection).getD c [] at he
      rw [getD_appendLine] at he
      split_ifs at he with hc
      · rcases List.mem_cons.mp he with rfl | he
        · exact ⟨d,hmem,hc,rfl⟩
        · exact ht.connection c e he
      · exact ht.connection c e he
    all_goals exact ⟨⟨ht.fed,ht.connection⟩,hmem⟩
  exact hall.mono fun _ ht => ht.1

theorem connection_restore (f : Files (List ρ)) (c : ClientId) :
    (Logger.restore startsWithId f).2.connection.getD c [] ⊆ f.connection.getD c [] := by
  rcases restore_snd startsWithId f with ⟨m,d,s,-,hf⟩ | ⟨-,hf⟩
  · rw [hf]
    change (deleteLastLine startsWithId Prod.fst m d f.connection).getD c [] ⊆ _
    unfold deleteLastLine
    split
    · next line rest hfile =>
        split_ifs
        · rw [Dict.getD_set]
          split_ifs with hc
          · subst hc
            unfold Dict.getD
            rw [hfile]
            exact List.subset_cons_self line rest
          · exact List.Subset.refl _
        · exact List.Subset.refl _
    · exact List.Subset.refl _
  · rw [hf]
    exact List.Subset.refl _

theorem Stored.recover (h : Stored Feed r) (hr : Receiver.recover cfg startsWithId r = some t) :
    Stored Feed t := by
  unfold Receiver.recover at hr
  obtain ⟨s,-,rfl⟩ := Option.map_eq_some_iff.mp hr
  exact ⟨h.fed,fun c e he => h.connection c e (connection_restore r.files c he)⟩

end

/-- The constructor brings all clients up that have a log, each with its batches. -/
theorem restoreProcessors_done {f : Files (List ρ)} (h : ∀ c, ∃ t,
    P.run ((f.connection.getD c []).flatMap Prod.snd) P.init = .done t) :
    ∃ ps, restoreProcessors P f = some ps ∧ ∀ c : ClientId,
      P.run ((f.connection.getD c []).flatMap Prod.snd) P.init = .done (ps.getD c P.init) := by
  have hsome : ∀ c ∈ f.connection.keys, (restoreStatefullProcessor P f c).isSome = true := by
    intro c _
    obtain ⟨t,ht⟩ := h c
    unfold restoreStatefullProcessor
    rw [ht]
    rfl
  obtain ⟨ps,hps,hget⟩ := Statefull.foldlM_set hsome .empty
  refine ⟨ps,hps,fun c => ?_⟩
  unfold Dict.getD
  rw [hget]
  split_ifs with hc
  · obtain ⟨t,ht⟩ := h c
    unfold restoreStatefullProcessor
    rw [ht]
    exact ht
  · have hnone : f.connection.get? c = none := by
      rw [Dict.mem_keys_iff,Bool.not_eq_true,Option.isSome_eq_false_iff,Option.isNone_iff_eq_none] at hc
      exact hc
    rw [hnone]
    rfl

section
variable (P)

/-- The processor has been given the saved batches. -/
def Processed (s : State ρ σ) (c : ClientId) : Prop :=
  ∃ batches : List (List ρ),
    batches.Perm ((s.replica.files.connection.getD c []).map Prod.snd) ∧
      P.run batches.flatten P.init = .done (s.getProcessor P c)

variable {P} {s : State ρ σ} {d : Delivery (List ρ)} {Feed : Delivery (List ρ) → Prop}

theorem Processed.of_eq {t : State ρ σ} {c : ClientId} (h : Processed P s c)
    (hprocessor : t.getProcessor P c = s.getProcessor P c)
    (hconnection : t.replica.files.connection.getD c [] = s.replica.files.connection.getD c []) :
    Processed P t c := by
  obtain ⟨batches,hp,hrun⟩ := h
  exact ⟨batches,by rw [hconnection]; exact hp,by rw [hprocessor]; exact hrun⟩

theorem mem_batches {rows : List ρ} {batches : List (List ρ)} {entries : List (MessageId × List ρ)}
    (hp : batches.Perm (entries.map Prod.snd)) (hrows : rows ∈ batches) :
    ∃ e ∈ entries, e.2 = rows := by
  obtain ⟨e,he,rfl⟩ := List.mem_map.mp (hp.subset hrows)
  exact ⟨e,he,rfl⟩

variable {Ok : ρ → Prop}

theorem rows_ok (hfeed : ∀ d, Feed d → ∀ row ∈ d.payload, Ok row)
    (h : Stored Feed s.replica) {c : ClientId} {batches : List (List ρ)}
    (hp : batches.Perm ((s.replica.files.connection.getD c []).map Prod.snd)) :
    ∀ row ∈ batches.flatten, Ok row := by
  intro row hrow
  obtain ⟨rows,hrows,hmem⟩ := List.mem_flatten.mp hrow
  obtain ⟨e,he,rfl⟩ := mem_batches hp hrows
  obtain ⟨d,hd,-,rfl⟩ := h.connection c e he
  exact hfeed d (h.fed d hd) row hmem

/-- One batch more. -/
theorem Processed.process (h : Processed P s d.clientId) (hs : Stored Feed s.replica)
    (hok : ∀ rows : List ρ, (∀ row ∈ rows, Ok row) → ∃ t, P.run rows P.init = .done t)
    (hfeed : ∀ d, Feed d → ∀ row ∈ d.payload, Ok row) (hd : Feed d) {t : State ρ σ}
    (hprocessor : t.processors = (s.process P d.clientId d.payload).processors)
    (hconnection : t.replica.files.connection.getD d.clientId [] =
      (d.messageId,d.payload) :: s.replica.files.connection.getD d.clientId []) :
    Processed P t d.clientId := by
  obtain ⟨batches,hp,hrun⟩ := h
  obtain ⟨u,hu⟩ := hok (batches.flatten ++ d.payload) fun row hrow => by
    rcases List.mem_append.mp hrow with hrow | hrow
    · exact rows_ok hfeed hs hp row hrow
    · exact hfeed d hd row hrow
  obtain ⟨v,hv,hpayload⟩ := (Processor.run_append _ _).mp hu
  obtain rfl : s.getProcessor P d.clientId = v := Outcome.done.inj (hrun.symm.trans hv)
  have hget : t.getProcessor P d.clientId = u := by
    unfold State.getProcessor
    rw [hprocessor]
    unfold State.process
    rw [Dict.getD_set_self,hpayload]
    rfl
  refine ⟨batches ++ [d.payload],?_,?_⟩
  · rw [hconnection,List.map_cons]
    exact (List.perm_append_singleton d.payload batches).trans (hp.cons d.payload)
  · rw [hget,List.flatten_append,List.flatten_singleton]
    exact hu

end

section
variable (P) (Feed : Delivery (List ρ) → Prop)

structure Good (s : State ρ σ) : Prop where
  settled : Settled True s.replica
  stored : Stored Feed s.replica
  caught : ∀ m c, m ∈ (s.replica.memory.duplicateCatcher c).messagesId →
    m ∈ savedIds c s.replica.log
  processed : ∀ c, Processed P s c

/-- What a killed replica keeps. -/
structure Kept (s : State ρ σ) : Prop where
  unfinished : Unfinished True s.replica.files s.replica.history.acked
  stored : Stored Feed s.replica

variable {P Feed} {s : State ρ σ} {d : Delivery (List ρ)} {Ok : ρ → Prop}

theorem connection_finish (hs : cfg.hasStatefullProcessor = true) (d : Delivery (List ρ))
    (h : Handling) (r : Replica (List ρ)) (c : ClientId) :
    (d.finish cfg h r).connection.getD c [] =
      if d.clientId = c then (d.messageId,d.payload) :: r.files.connection.getD c []
      else r.files.connection.getD c [] := by
  have hsaved : (d.finish cfg h r).connection = (d.stored cfg h r.files).connection := by
    unfold Delivery.finish
    split_ifs <;> rfl
  have hstored : (d.stored cfg h r.files).connection =
      appendLine d.clientId (d.messageId,d.payload) r.files.connection := by
    unfold Delivery.stored Delivery.storeDuplicateCatcher Delivery.storeConnection
    rw [if_pos hs]
    split_ifs <;> rfl
  rw [hsaved,hstored,getD_appendLine]

/-- The catcher has let the message through once, and it is saved. -/
theorem caught_processed (hd : cfg.useDuplicateCatcher = true) {h : Handling}
    {r : Replica (List ρ)}
    (hcaught : ∀ m c, m ∈ (r.memory.duplicateCatcher c).messagesId → m ∈ savedIds c r.log)
    (m : MessageId) (c : ClientId)
    (hm : m ∈ ((r.memory.processed cfg d h).duplicateCatcher c).messagesId) :
    m ∈ savedIds c (d.finish cfg h r).communication := by
  rw [savedIds_finish,savedIds_savedLog]
  unfold Memory.duplicateCatcher at hm
  rw [processed_eq,opening_eq] at hm
  simp only [hd,if_true,Dict.getD_set] at hm
  split_ifs at hm ⊢ with hc
  · subst hc
    rcases (mem_isDuplicate _ _ _).mp hm with rfl | hm
    · exact List.mem_cons_self
    · exact List.mem_cons_of_mem _ (hcaught m _ hm)
  · exact hcaught m c hm

section
variable (hs : cfg.hasStatefullProcessor = true) (hd : cfg.useDuplicateCatcher = true)
variable (hok : ∀ rows : List ρ, (∀ row ∈ rows, Ok row) → ∃ t, P.run rows P.init = .done t)
variable (hfeed : ∀ d, Feed d → ∀ row ∈ d.payload, Ok row)
include hs hd hok hfeed

theorem Good.callback (h : Good P Feed s) (hdelivery : Feed d)
    (hnew : s.replica.memory.isDuplicate d.messageId d.clientId = false) :
    Good P Feed ((process cfg P finish).execAll (callback cfg d)
      {s with replica := deliver d s.replica}) := by
  obtain ⟨es,hready⟩ := callback_ready cfg startsWithId (d := d) (h := .done 0 false) rfl s.replica
  have hreplica := (replica_callback cfg P finish d s).trans hready
  have hprocessors := processors_callback cfg P finish d s
  refine ⟨?_,?_,?_,fun c => ?_⟩
  · rw [replica_callback]
    exact settled_complete hs hd startsWithId h.settled
      (not_saved_of_not_duplicate h.settled hnew)
  · rw [replica_callback]
    exact stored_callback h.stored hdelivery _ List.prefix_rfl
  · rw [hreplica]
    exact caught_processed hd h.caught
  · have hconnection := connection_finish hs d (.done 0 false) s.replica c
    by_cases hc : d.clientId = c
    · subst hc
      refine (h.processed d.clientId).process h.stored hok hfeed hdelivery hprocessors ?_
      rw [hreplica]
      exact hconnection.trans (if_pos rfl)
    · refine (h.processed c).of_eq ?_ ?_
      · unfold State.getProcessor
        rw [hprocessors]
        exact Dict.getD_set_ne _ hc _ _
      · rw [hreplica]
        exact hconnection.trans (if_neg hc)

omit hs hd hok hfeed in
theorem Good.callbackEof (h : Good P Feed s) {t : Token}
    (hfinish : (finish (s.getProcessor P t.clientId)).1 = s.getProcessor P t.clientId) :
    Good P Feed ((process cfg P finish).execAll (callbackEof cfg P finish t s) s) := by
  have htouched := replica_callbackEof cfg P finish t s
  have hlog := htouched.savedIds
  refine ⟨h.settled.eof htouched,h.stored.eof htouched,fun m c hm => ?_,fun c => ?_⟩
  · unfold Memory.duplicateCatcher at hm
    rw [htouched.duplicateCatchers] at hm
    rw [hlog]
    exact h.caught m c hm
  · refine (h.processed c).of_eq (processors_callbackEof cfg hfinish c) ?_
    obtain ⟨k,hk⟩ := htouched.files
    rw [hk]
    rfl

variable (finish) in
omit hs in
theorem good_recover (h : Kept Feed s) (hkeeps : keepsSaved startsWithId s.replica.files = true) :
    ∃ t, (process cfg P finish).recover s = some t ∧ Good P Feed t := by
  obtain ⟨r,hr,hsettled,hcaught⟩ := settled_recover startsWithId_self hd h.unfinished hkeeps
  have hstored := h.stored.recover hr
  have hall : ∀ c, ∃ t, P.run ((r.files.connection.getD c []).flatMap Prod.snd) P.init = .done t := by
    intro c
    refine hok _ fun row hrow => ?_
    obtain ⟨e,he,hrow⟩ := List.mem_flatMap.mp hrow
    obtain ⟨d,hd,-,rfl⟩ := hstored.connection c e he
    exact hfeed d (hstored.fed d hd) row hrow
  obtain ⟨ps,hps,hrun⟩ := restoreProcessors_done hall
  refine ⟨⟨r,ps⟩,?_,hsettled,hstored,fun m c => (hcaught c m).mp,fun c => ?_⟩
  · change (Receiver.recover cfg startsWithId s.replica).bind (fun r =>
      (restoreProcessors P r.files).bind fun ps => some (⟨r,ps⟩ : State ρ σ)) = _
    rw [hr,Option.bind_some,hps]
    rfl
  · exact ⟨_,.refl _,hrun c⟩

variable (finish) in
theorem processors_survive : (process cfg P finish).Survives (Fed P finish Feed) (Good P Feed)
    (Kept Feed) where
  init := by
    refine ⟨settled_fresh True cfg,⟨nofun,nofun⟩,?_,fun c => ⟨[],.refl _,rfl⟩⟩
    intro m c hm
    change m ∈ ((Memory.restored cfg (.ofState none) (.empty : Files (List ρ))).duplicateCatcher
      c).messagesId at hm
    rw [duplicateCatcher_restored hd,mem_ofMessages] at hm
    exact hm
  kept := fun s h => ⟨h.settled.unfinished,h.stored⟩
  complete := by
    intro w s t program h hg hb
    cases w with
    | eof token =>
        cases hb
        exact h.callbackEof hg
    | data d =>
        obtain ⟨rfl,⟨-,rfl⟩ | ⟨hnew,rfl⟩⟩ := begin_cases hb
        · exact ⟨⟨h.settled.unfinished,h.settled.connection,h.settled.duplicates,h.settled.caught⟩,
            h.stored.deliver hg,h.caught,fun c => (h.processed c).of_eq rfl rfl⟩
        · exact h.callback hs hd hok hfeed hg (hnew hd)
  through := by
    intro w s t program h hg hb
    cases w with
    | eof token =>
        cases hb
        have hthrough := callbackEof_throughout cfg startsWithId s.replica
          (finish (s.getProcessor P token.clientId)).2 token
        rw [← receiver_eofActions (Receiver.callbackEof cfg s.replica _ token)] at hthrough
        exact (hosts.throughout hthrough).mono fun u hu =>
          ⟨h.settled.unfinished.eof hu,h.stored.eof hu⟩
    | data d =>
        obtain ⟨rfl,⟨-,rfl⟩ | ⟨hnew,rfl⟩⟩ := begin_cases hb
        · have hkept : Kept Feed {s with replica := deliver d s.replica} :=
            ⟨h.settled.unfinished,h.stored.deliver hg⟩
          exact Process.throughout_cons hkept (Process.throughout_nil hkept)
        · have hm := not_saved_of_not_duplicate h.settled (hnew hd)
          have hthrough : (Receiver.process cfg startsWithId).Throughout
              (fun r => Unfinished True r.files r.history.acked ∧ Stored Feed r)
              (Receiver.callback cfg d (.done 0 false)) (deliver d s.replica) := fun done hdone =>
            ⟨unfinished_interrupted hs hd h.settled hm
              (callback_throughout cfg startsWithId d (.done 0 false) s.replica done hdone).files,
              stored_callback h.stored hg done hdone⟩
          rw [← receiver_callback] at hthrough
          exact (hosts.throughout (s := {s with replica := deliver d s.replica}) hthrough).mono
            fun t ht => ⟨ht.1,ht.2⟩
  recovered := by
    intro k t hk hkeeps ht
    obtain ⟨u,hu,hgood⟩ := good_recover finish hd hok hfeed hk hkeeps
    cases hu.symm.trans ht
    exact hgood

end

/-- The deliveries that the log lists. -/
theorem exists_deliveries {delivered : List (Delivery (List ρ))} {c : ClientId}
    {entries : List (MessageId × List ρ)} (h : ∀ e ∈ entries, ∃ d ∈ delivered,
      d.clientId = c ∧ (d.messageId,d.payload) = e) :
    ∃ ds : List (Delivery (List ρ)), (∀ d ∈ ds, d ∈ delivered ∧ d.clientId = c) ∧
      ds.map (fun d => (d.messageId,d.payload)) = entries := by
  induction entries with
  | nil => exact ⟨[],nofun,rfl⟩
  | cons e entries ih =>
      obtain ⟨he,hentries⟩ := List.forall_mem_cons.mp h
      obtain ⟨d,hd,hc,rfl⟩ := he
      obtain ⟨ds,hds,rfl⟩ := ih hentries
      exact ⟨d :: ds,List.forall_mem_cons.mpr ⟨⟨hd,hc⟩,hds⟩,rfl⟩

theorem Good.exact (h : Good P Feed s) (c : ClientId) : ∃ ds, Exact P s c ds := by
  obtain ⟨batches,hp,hrun⟩ := h.processed c
  obtain ⟨order,hbatches,horder⟩ :=
    (congrFun (congrFun (List.eq_map_comp_perm Prod.snd) batches) _).mpr hp
  have hlisted : ∀ e ∈ order, ∃ d ∈ s.replica.history.delivered, d.clientId = c ∧
      (d.messageId,d.payload) = e := fun e he => h.stored.connection c e (horder.subset he)
  obtain ⟨ds,hds,hentries⟩ := exists_deliveries hlisted
  have hids : (ds.map Delivery.messageId).Perm (savedIds c s.replica.log) := by
    rw [← h.settled.connection c]
    have hmap := horder.map Prod.fst
    rw [← hentries,List.map_map] at hmap
    exact hmap
  have hpersisted := h.settled.persisted c
  refine ⟨ds,hds,hids.nodup_iff.mpr hpersisted.distinct,?_,?_,?_⟩
  · exact fun m hm => hids.mem_iff.mpr (hpersisted.acked m hm)
  · exact fun m => ⟨fun hm => hids.mem_iff.mpr (h.caught m c hm),
      fun hm => h.settled.caught m c (hids.mem_iff.mp hm)⟩
  · have hpayloads : ds.map Delivery.payload = batches := by
      rw [hbatches,← hentries,List.map_map]
      rfl
    rw [hpayloads]
    exact hrun

/-- Whatever was delivered, repeated and interrupted: each processor of an idle
replica is that of messages that were saved, each once. A crash at any boundary, if
the restart takes no saved line away, leaves a replica that comes up with such
processors. -/
theorem processors_exact (hs : cfg.hasStatefullProcessor = true)
    (hd : cfg.useDuplicateCatcher = true)
    (hok : ∀ rows : List ρ, (∀ row ∈ rows, Ok row) → ∃ t, P.run rows P.init = .done t)
    (hfeed : ∀ d, Feed d → ∀ row ∈ d.payload, Ok row)
    {k : Interruptible.Config (State ρ σ) (Act ρ)}
    (h : (process cfg P finish).Run (Fed P finish Feed) k) :
    (k.pending = [] → ∀ c, ∃ ds, Exact P k.state c ds) ∧
    (keepsSaved startsWithId k.state.replica.files = true →
      ∃ k', (process cfg P finish).step k .crash = some k' ∧ ∀ c, ∃ ds, Exact P k'.state c ds) := by
  have hsurvives := processors_survive (P := P) finish hs hd hok hfeed
  refine ⟨fun hi c => (h.idle hsurvives hi).exact c,fun hkeeps => ?_⟩
  obtain ⟨t,ht,hgood⟩ :=
    good_recover (P := P) finish hd hok hfeed (h.kept hsurvives) hkeeps
  exact ⟨.idle t,congrArg (Option.map Interruptible.Config.idle) ht,fun c => hgood.exact c⟩

theorem delivered_fed (hs : cfg.hasStatefullProcessor = true)
    (hd : cfg.useDuplicateCatcher = true)
    (hok : ∀ rows : List ρ, (∀ row ∈ rows, Ok row) → ∃ t, P.run rows P.init = .done t)
    (hfeed : ∀ d, Feed d → ∀ row ∈ d.payload, Ok row)
    {k : Interruptible.Config (State ρ σ) (Act ρ)}
    (h : (process cfg P finish).Run (Fed P finish Feed) k) :
    ∀ d ∈ k.state.replica.history.delivered, Feed d :=
  (h.kept (processors_survive (P := P) finish hs hd hok hfeed)).stored.fed

end

end

section
open Statefull

/-- Flights with their fields are all taken in. -/
theorem dosMasRapidos_done (b : Builtins) (rows : List Row)
    (h : ∀ row ∈ rows, FlightMessage row) :
    ∃ t, (dosMasRapidos b).run rows (dosMasRapidos b).init = .done t :=
  (keepsTwo_run h).imp fun _ ht => ht.1

def isFlightMessage (message : Row) : Bool :=
  (field "startingAirport" message).isSome && (field "destinationAirport" message).isSome &&
    (field "travelDuration" message).isSome

theorem flightMessage_of_is {message : Row} (h : isFlightMessage message = true) :
    FlightMessage message := by
  unfold isFlightMessage at h
  rw [Bool.and_eq_true,Bool.and_eq_true] at h
  exact ⟨h.1.1,h.1.2,h.2⟩

/-- `finish_processing` of the two fastest changes nothing. -/
def finishFastest (s : Dict Text (List Row)) : Dict Text (List Row) × Bool :=
  (s,!(finishProcessing s).isEmpty)

def flightsOnly (k : Interruptible.Config (State Row (Dict Text (List Row))) (Act Row)) :
    Event (Work Row) → Bool
  | .begin (.data d) => d.payload.all isFlightMessage
  | .begin (.eof _) | .tick => true
  | .crash => keepsSaved startsWithId k.state.replica.files

/-- The first batch is stored and its replica killed before the save; it comes again
and is finished, and so is the second, which comes twice. Then the EOF comes. -/
def twoDelivered : List (Event (Work Row)) :=
  .begin (.data ⟨0,7,1,fourFlights.take 2,false,false⟩) :: List.replicate 6 .tick ++ [.crash] ++
    .begin (.data ⟨0,7,1,fourFlights.take 2,true,false⟩) :: List.replicate 10 .tick ++
    .begin (.data ⟨1,8,1,fourFlights.drop 2,false,false⟩) :: List.replicate 9 .tick ++
    .begin (.data ⟨1,8,1,fourFlights.drop 2,true,false⟩) :: .tick ::
    .begin (.eof (.eof ⟨1,2,[]⟩)) :: List.replicate 9 .tick

theorem twoDelivered_replayed : ((process grouper (dosMasRapidos asciiBuiltins) finishFastest).replay
    flightsOnly (.idle ⟨fresh grouper,.empty⟩) twoDelivered).isSome = true := by
  decide +kernel

theorem processors_exact_twoDelivered :
    let k := ((process grouper (dosMasRapidos asciiBuiltins) finishFastest).replay
      flightsOnly (.idle ⟨fresh grouper,.empty⟩) twoDelivered).get twoDelivered_replayed
    (k.pending = [] → ∀ c, ∃ ds, Exact (dosMasRapidos asciiBuiltins) k.state c ds) ∧
    (keepsSaved startsWithId k.state.replica.files = true →
      ∃ k', (process grouper (dosMasRapidos asciiBuiltins) finishFastest).step k .crash = some k' ∧
        ∀ c, ∃ ds, Exact (dosMasRapidos asciiBuiltins) k'.state c ds) := by
  have hfeed : ∀ d : Delivery (List Row), d.payload.all isFlightMessage = true →
      ∀ row ∈ d.payload, FlightMessage row :=
    fun d h row hrow => flightMessage_of_is (List.all_eq_true.mp h row hrow)
  refine processors_exact rfl rfl (dosMasRapidos_done asciiBuiltins) hfeed
    (Process.run_replay ?_ twoDelivered_replayed)
  intro k e h
  cases e with
  | begin w =>
      cases w with
      | data d => exact h
      | eof t => rfl
  | tick => trivial
  | crash => exact h

end
end FlightsOptimizer.StatefullReplica
