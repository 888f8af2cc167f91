import FlightsOptimizer.Receiver

/-!
# What one callback does, and what a crash in it leaves

For a data message, `callback_ready` and `callback_notReady` give files, memory
and history after the whole program, and `callback_throughout` lists the seven
ways in which files and acknowledgements can be found by a restart.

These are the only statements about programs of data messages; the invariants of
the following modules are read off from them.
-/
namespace FlightsOptimizer.Receiver
open Logger LogGrammar Eof Interruptible

variable {β : Type}

/-- SENT records that a handling leaves between START and SAVE BEGIN. -/
def Handling.records : Handling → ℕ
  | .done (k + 1) _ => k + 2
  | h => h.sends

def opened (m : MessageId) (c : ClientId) (j : ℕ) (l : List Line) : List Line :=
  List.replicate j (.sent (some (m,c))) ++ .start m c :: l

section
variable (m : MessageId) (c : ClientId) (j : ℕ) (l : List Line)

@[simp] theorem opened_zero : opened m c 0 l = .start m c :: l := rfl

theorem opened_succ : opened m c (j + 1) l = .sent (some (m,c)) :: opened m c j l := rfl

theorem opened_open : Open m c (opened m c j l) := by
  induction j with
  | zero => exact Open.start l
  | succ j ih => exact Open.sent _ ih

@[simp] theorem savedIds_opened (d : ClientId) :
    savedIds d (opened m c j l) = savedIds d l := by
  induction j with
  | zero => exact savedIds_cons rfl d l
  | succ j ih =>
      rw [opened_succ,savedIds_cons rfl,ih]

@[simp] theorem records_opened : records (opened m c j l) = records l := by
  induction j with
  | zero => exact records_cons rfl l
  | succ j ih =>
      rw [opened_succ,records_cons rfl,ih]

theorem opened_head : ((opened m c j l).head?.any fun x => x.startsWith .sent) = decide (0 < j) := by
  cases j <;> rfl

variable {m c j l}

theorem grammar_opened {free : Prop} (h : Grammar free l) : Grammar free (opened m c j l) := by
  induction j with
  | zero => exact h.start m c
  | succ j ih => exact ih.sent _ (Or.inr ⟨m,c,opened_open m c j l⟩)

theorem saved_opened {Q : State → List Line → Prop} (h : Saved Q l) :
    Saved Q (opened m c j l) := by
  induction j with
  | zero => exact h.cons rfl
  | succ j ih => exact ih.cons rfl

end

def Delivery.opening (d : Delivery β) (j : ℕ) (f : Files β) : Files β :=
  {f with communication := opened d.messageId d.clientId j f.communication}

/-- Records of sending on top of a log. -/
def sentTimes (k : ℕ) (ids : Option (MessageId × ClientId)) (f : Files β) : Files β :=
  {f with communication := List.replicate k (.sent ids) ++ f.communication}

def Delivery.storeConnection (cfg : Config) (d : Delivery β) (f : Files β) : Files β :=
  if cfg.hasStatefullProcessor then saveConnection d.messageId d.clientId d.payload f else f

def Delivery.storeDuplicateCatcher (cfg : Config) (d : Delivery β) (f : Files β) : Files β :=
  if cfg.useDuplicateCatcher then saveDuplicateCatcher d.messageId d.clientId f else f

/-- The memory when `input_callback` is called. -/
def Memory.opening (cfg : Config) (d : Delivery β) (mem : Memory) : Memory :=
  let mem := if cfg.useDuplicateCatcher then mem.checkDuplicate d.messageId d.clientId else mem
  let mem := mem.newMessageReceived d.messageId d.clientId
  if d.redelivered then mem.addPossibleDuplicate d.messageId d.clientId else mem

def Memory.sending (cfg : Config) (d : Delivery β) (h : Handling) (mem : Memory) : Memory :=
  (Memory.send d.clientId)^[h.sends] (mem.opening cfg d)

/-- The memory that a processed message leaves. -/
def Memory.processed (cfg : Config) (d : Delivery β) (h : Handling) (mem : Memory) : Memory :=
  (mem.sending cfg d h).countReceived d.clientId

section
variable (cfg : Config) (d : Delivery β) (h : Handling)

/-- The files just before `save_communication`. -/
def Delivery.stored (f : Files β) : Files β :=
  d.storeDuplicateCatcher cfg (d.storeConnection cfg (d.opening h.records f))

/-- The files with the three lines of the save on top. -/
def Delivery.save (r : Replica β) : Files β :=
  saveCommunication d.messageId d.clientId (r.memory.processed cfg d h).currentState
    (d.stored cfg h r.files)

def Delivery.finish (r : Replica β) : Files β :=
  if d.isResult then d.save cfg h r
  else commit d.messageId d.clientId (d.save cfg h r)

/-- What a restart can find of a message: files and acknowledgements. -/
inductive Interrupted (r : Replica β) : Files β → List (MessageId × ClientId) → Prop
  | untouched : Interrupted r r.files r.history.acked
  | opened (j : ℕ) : Interrupted r (d.opening j r.files) r.history.acked
  | connection : h.ready = true →
      Interrupted r (d.storeConnection cfg (d.opening h.records r.files)) r.history.acked
  | duplicateCatcher : h.ready = true → Interrupted r (d.stored cfg h r.files) r.history.acked
  | saved : h.ready = true → Interrupted r (d.save cfg h r) r.history.acked
  | acked : h.ready = true →
      Interrupted r (d.save cfg h r) ((d.messageId,d.clientId) :: r.history.acked)
  | finished : h.ready = true →
      Interrupted r (d.finish cfg h r) ((d.messageId,d.clientId) :: r.history.acked)

/-- A crash finds one of these, and of the history one delivery more. -/
structure Crashed (r t : Replica β) : Prop where
  files : Interrupted cfg d h r t.files t.history.acked
  delivered : t.history.delivered = d :: r.history.delivered
  completed : t.history.completed = r.history.completed
  eofCallbacks : t.history.eofCallbacks = r.history.eofCallbacks

end

variable (cfg : Config) (belongs : MessageId → MessageId → Bool)

/-- The sends of a handling are seen as SENT records, counters and sent EOFs. -/
theorem execAll_connectionProcess (m : MessageId) (c : ClientId) (h : Handling) (r : Replica β) :
    ∃ es, (process cfg belongs).execAll (connectionProcess cfg m c h) r =
      ⟨sentTimes h.records (some (m,c)) r.files,(Memory.send c)^[h.sends] r.memory,
        {r.history with eofsSent := es}⟩ := by
  have sends : ∀ (k : ℕ) (r : Replica β),
      (process cfg belongs).execAll (List.replicate k (sendAll c (some (m,c)))).flatten r =
        ⟨sentTimes k (some (m,c)) r.files,(Memory.send c)^[k] r.memory,r.history⟩ := by
    intro k
    induction k with
    | zero => intro r; rfl
    | succ k ih =>
        intro r
        rw [List.replicate_succ,List.flatten_cons,Process.execAll_append,ih]
        simp only [sendAll,Process.execAll_cons,Process.execAll_nil,process,exec,Logger.sent,sentTimes,
          Function.iterate_succ,Function.comp_apply,List.replicate_succ',List.append_assoc,
          List.singleton_append]
  unfold connectionProcess
  rw [Process.execAll_append,sends]
  cases h with
  | notReady => exact ⟨r.history.eofsSent,rfl⟩
  | raised k => exact ⟨r.history.eofsSent,rfl⟩
  | done k sendEof =>
      cases k with
      | zero => exact ⟨r.history.eofsSent,rfl⟩
      | succ k =>
          cases sendEof with
          | false => exact ⟨r.history.eofsSent,rfl⟩
          | true => exact ⟨_,rfl⟩

theorem execAll_saveConnection (d : Delivery β) (r : Replica β) :
    (process cfg belongs).execAll
      (if cfg.hasStatefullProcessor then [.saveConnection d.messageId d.clientId d.payload] else [])
      r = {r with files := d.storeConnection cfg r.files} := by
  unfold Delivery.storeConnection
  split_ifs <;> rfl

theorem execAll_saveDuplicateCatcher (d : Delivery β) (r : Replica β) :
    (process cfg belongs).execAll
      (if cfg.useDuplicateCatcher then [.saveDuplicateCatcher d.messageId d.clientId] else []) r =
      {r with files := d.storeDuplicateCatcher cfg r.files} := by
  unfold Delivery.storeDuplicateCatcher
  split_ifs <;> rfl

theorem execAll_finishStoringMessage (d : Delivery β) (r : Replica β) :
    (process cfg belongs).execAll (finishStoringMessage cfg d) r =
      ⟨saveCommunication d.messageId d.clientId r.memory.currentState
        (d.storeDuplicateCatcher cfg (d.storeConnection cfg r.files)),r.memory,r.history⟩ := by
  unfold finishStoringMessage
  rw [Process.execAll_append,Process.execAll_append,execAll_saveConnection,
    execAll_saveDuplicateCatcher]
  rfl

/-- The part of the callback that precedes `input_callback`. -/
theorem execAll_opening (d : Delivery β) (r : Replica β) :
    (process cfg belongs).execAll
      ((if cfg.useDuplicateCatcher then [.checkDuplicate d.messageId d.clientId] else []) ++
        ([.newMessageReceived d.messageId d.clientId] ++
          if d.redelivered then [.addPossibleDuplicate d.messageId d.clientId] else [])) r =
      {r with files := d.opening 0 r.files, memory := r.memory.opening cfg d} := by
  unfold Memory.opening Delivery.opening
  cases cfg.useDuplicateCatcher <;> cases d.redelivered <;> rfl

/-- `callback` in four parts: open, send, and then save and acknowledge, or NACK. -/
theorem callback_eq (d : Delivery β) (h : Handling) :
    callback cfg d h =
      ((if cfg.useDuplicateCatcher then [.checkDuplicate d.messageId d.clientId] else []) ++
        ([.newMessageReceived d.messageId d.clientId] ++
          if d.redelivered then [.addPossibleDuplicate d.messageId d.clientId] else [])) ++
      (connectionProcess cfg d.messageId d.clientId h ++
        if h.ready then
          .countReceived d.clientId :: (finishStoringMessage cfg d ++
            .basicAck d.messageId d.clientId ::
              if d.isResult then [] else [.commitMessage d.messageId d.clientId])
        else [.basicNack]) := by
  unfold callback
  simp only [List.append_assoc,List.cons_append,List.nil_append]

/-- A processed message: saved, acknowledged, and committed unless it is a result. -/
theorem callback_ready {d : Delivery β} {h : Handling} (hh : h.ready = true) (r : Replica β) :
    ∃ es, (process cfg belongs).execAll (callback cfg d h) (deliver d r) =
      ⟨d.finish cfg h r,r.memory.processed cfg d h,
        {r.history with
          delivered := d :: r.history.delivered
          acked := (d.messageId,d.clientId) :: r.history.acked
          eofsSent := es}⟩ := by
  rw [callback_eq,Process.execAll_append,execAll_opening,Process.execAll_append]
  obtain ⟨es,hes⟩ := execAll_connectionProcess cfg belongs d.messageId d.clientId h
    {deliver d r with
      files := d.opening 0 (deliver d r).files
      memory := (deliver d r).memory.opening cfg d}
  rw [hes,if_pos hh,Process.execAll_cons,Process.execAll_append,execAll_finishStoringMessage]
  refine ⟨es,?_⟩
  unfold Delivery.finish
  cases d.isResult <;> rfl

/-- A message that is not ready leaves its START and its memory of being seen. -/
theorem callback_notReady {d : Delivery β} {h : Handling} (hh : h.ready = false) (r : Replica β) :
    (process cfg belongs).execAll (callback cfg d h) (deliver d r) =
      ⟨d.opening 0 r.files,r.memory.opening cfg d,
        {r.history with delivered := d :: r.history.delivered}⟩ := by
  cases h with
  | notReady =>
      rw [callback_eq,Process.execAll_append,execAll_opening]
      rfl
  | done k e => cases hh
  | raised k => cases hh

theorem mem_connectionProcess {m : MessageId} {c : ClientId} {h : Handling} {a : Action β}
    (ha : a ∈ connectionProcess cfg m c h) :
    a = .send c ∨ a = .messageSent (some (m,c)) ∨ a = .sendEof c cfg.sendEofDefaultSentValue := by
  unfold connectionProcess at ha
  rcases List.mem_append.mp ha with hs | he
  · obtain ⟨l,hl,hal⟩ := List.mem_flatten.mp hs
    rw [List.eq_of_mem_replicate hl] at hal
    simp only [sendAll,List.mem_cons,List.not_mem_nil,or_false] at hal
    exact hal.imp_right Or.inl
  · split at he
    · rcases List.mem_cons.mp he with rfl | he
      · exact Or.inr (Or.inl rfl)
      · split_ifs at he
        · exact Or.inr (Or.inr (List.mem_singleton.mp he))
        · cases he
    · cases he

/-- The actions of data messages. -/
def Action.OfData : Action β → Prop
  | .updateDiscoveryEof _ | .updateAggregationEof _ | .synchronise _ _ _ | .eofCallback _ => False
  | .requeueEof _ _ | .ackEof | .nackEof => False
  | _ => True

/-- What a data message can do, in order. -/
theorem mem_callback {d : Delivery β} {h : Handling} {a : Action β} (ha : a ∈ callback cfg d h) :
    a = .checkDuplicate d.messageId d.clientId ∨ a = .newMessageReceived d.messageId d.clientId ∨
      a = .addPossibleDuplicate d.messageId d.clientId ∨ a = .send d.clientId ∨
      a = .messageSent (some (d.messageId,d.clientId)) ∨
      a = .sendEof d.clientId cfg.sendEofDefaultSentValue ∨ a = .countReceived d.clientId ∨
      a = .saveConnection d.messageId d.clientId d.payload ∨
      a = .saveDuplicateCatcher d.messageId d.clientId ∨
      a = .saveCommunication d.messageId d.clientId ∨ a = .basicAck d.messageId d.clientId ∨
      a = .commitMessage d.messageId d.clientId ∨ a = .basicNack := by
  unfold callback finishStoringMessage at ha
  simp only [List.mem_append,List.mem_ite_nil_right,List.mem_singleton] at ha
  rcases ha with ⟨_,rfl⟩ | rfl | ⟨_,rfl⟩ | hm | ha
  · simp
  · simp
  · simp
  · rcases mem_connectionProcess cfg hm with rfl | rfl | rfl <;> simp
  · cases hr : h.ready with
    | false =>
        rw [hr] at ha
        rw [List.mem_singleton.mp ha]
        simp
    | true =>
        rw [hr,if_pos rfl] at ha
        simp only [List.mem_append,List.mem_ite_nil_right,List.mem_ite_nil_left,
          List.mem_singleton] at ha
        rcases ha with rfl | ((⟨_,rfl⟩ | ⟨_,rfl⟩) | rfl) | rfl | ⟨_,rfl⟩ <;> simp

theorem ofData_callback (d : Delivery β) (h : Handling) :
    ∀ a ∈ callback cfg d h, a.OfData := by
  intro a ha
  rcases mem_callback cfg ha with rfl | rfl | rfl | rfl | rfl | rfl | rfl | rfl | rfl | rfl | rfl |
    rfl | rfl <;> trivial

/-- The EOF that a data message asks for announces the configured number. -/
theorem sendEof_of_callback {d : Delivery β} {h : Handling} {c : ClientId} {n : Option ℕ}
    (hn : .sendEof c n ∈ callback cfg d h) :
    c = d.clientId ∧ n = cfg.sendEofDefaultSentValue := by
  have hactions := mem_callback cfg hn
  simp only [reduceCtorEq,false_or,or_false,Action.sendEof.injEq] at hactions
  exact hactions

/-- A delivered message is handled, or goes back as a known duplicate. -/
theorem begin_data {d : Delivery β} {h : Handling} {r t : Replica β} {program : List (Action β)}
    (hb : (process cfg belongs).begin (.data d h) r = some (t,program)) : t = deliver d r ∧
      ((cfg.useDuplicateCatcher = true ∧ program = [.basicNack]) ∨
        (cfg.useDuplicateCatcher = true →
          r.memory.isDuplicate d.messageId d.clientId = false) ∧ program = callback cfg d h) := by
  simp only [process,begin] at hb
  split_ifs at hb with hdup
  · obtain ⟨hcatcher,-⟩ := Bool.and_eq_true_iff.mp hdup
    cases hb
    exact ⟨rfl,Or.inl ⟨hcatcher,rfl⟩⟩
  · cases hb
    refine ⟨rfl,Or.inr ⟨?_,rfl⟩⟩
    intro hcatcher
    rw [hcatcher,Bool.true_and,Bool.not_eq_true] at hdup
    exact hdup

/-- Without a duplicate catcher every delivered message is handled. -/
theorem begin_data_uncaught (hd : cfg.useDuplicateCatcher = false) {d : Delivery β} {h : Handling}
    {r t : Replica β} {program : List (Action β)}
    (hb : (process cfg belongs).begin (.data d h) r = some (t,program)) :
    t = deliver d r ∧ program = callback cfg d h := by
  obtain ⟨ht,⟨hcatcher,-⟩ | ⟨-,hprogram⟩⟩ := begin_data cfg belongs hb
  · exact absurd hcatcher (ne_true_of_eq_false hd)
  · exact ⟨ht,hprogram⟩

/-- Wherever a crash falls, the restart finds one of the seven stages. -/
theorem callback_throughout (d : Delivery β) (h : Handling) (r : Replica β) :
    (process cfg belongs).Throughout (Crashed cfg d h r) (callback cfg d h) (deliver d r) := by
  have stage : ∀ {f acked}, Interrupted cfg d h r f acked → ∀ mem es, Crashed cfg d h r
      ⟨f,mem,{r.history with
        delivered := d :: r.history.delivered
        acked := acked
        eofsSent := es}⟩ := fun hf _ _ => ⟨hf,rfl,rfl,rfl⟩
  rw [callback_eq]
  refine Process.throughout_append ?_ ?_
  · have untouched : (process cfg belongs).execAll
        (if cfg.useDuplicateCatcher then [.checkDuplicate d.messageId d.clientId] else [])
        (deliver d r) = ⟨r.files,if cfg.useDuplicateCatcher then
          r.memory.checkDuplicate d.messageId d.clientId else r.memory,(deliver d r).history⟩ := by
      split_ifs <;> rfl
    refine Process.throughout_append (Process.throughout_optional (stage .untouched _ _) ?_)
      (Process.throughout_cons ?_ (Process.throughout_optional ?_ ?_))
    · rw [untouched]
      exact stage .untouched _ _
    · rw [untouched]
      exact stage .untouched _ _
    · rw [untouched]
      exact stage (.opened 0) _ _
    · rw [untouched]
      split_ifs <;> exact stage (.opened 0) _ _
  · rw [execAll_opening]
    refine Process.throughout_append ?_ ?_
    · refine Process.Throughout.mono (I := fun t => ∃ j mem es,
        t = ⟨d.opening j r.files,mem,{(deliver d r).history with eofsSent := es}⟩) ?_ ?_
      · refine Process.throughout_of_forall ⟨0,_,_,rfl⟩ ?_
        rintro a ha _ ⟨j,mem,es,rfl⟩
        rcases mem_connectionProcess cfg ha with rfl | rfl | rfl
        · exact ⟨j,mem.send d.clientId,es,rfl⟩
        · exact ⟨j + 1,mem,es,rfl⟩
        · exact ⟨j,mem,_,rfl⟩
      · rintro _ ⟨j,mem,es,rfl⟩
        exact stage (.opened j) mem es
    · obtain ⟨es,hes⟩ := execAll_connectionProcess cfg belongs d.messageId d.clientId h
        {deliver d r with
          files := d.opening 0 (deliver d r).files
          memory := (deliver d r).memory.opening cfg d}
      rw [hes]
      have opened := stage (.opened h.records) (r.memory.sending cfg d h) es
      cases hr : h.ready with
      | false => exact Process.throughout_cons opened (Process.throughout_nil opened)
      | true =>
          have stored := stage (.duplicateCatcher hr) (r.memory.processed cfg d h) es
          have acked := stage (.acked hr) (r.memory.processed cfg d h) es
          rw [if_pos rfl]
          refine Process.throughout_cons opened (Process.throughout_append ?_ ?_)
          · refine Process.throughout_append (Process.throughout_append
              (Process.throughout_optional (stage (.opened h.records) _ es) ?_)
              (Process.throughout_optional ?_ ?_)) (Process.throughout_cons ?_
                (Process.throughout_nil ?_))
            · rw [execAll_saveConnection]
              exact stage (.connection hr) _ es
            · rw [execAll_saveConnection]
              exact stage (.connection hr) _ es
            · rw [execAll_saveConnection,execAll_saveDuplicateCatcher]
              exact stored
            · rw [Process.execAll_append,execAll_saveConnection,execAll_saveDuplicateCatcher]
              exact stored
            · rw [Process.execAll_append,execAll_saveConnection,execAll_saveDuplicateCatcher]
              exact stage (.saved hr) _ es
          · rw [execAll_finishStoringMessage]
            refine Process.throughout_cons (stage (.saved hr) _ es) ?_
            have finished := stage (.finished hr) (r.memory.processed cfg d h) es
            unfold Delivery.finish at finished
            split_ifs at finished ⊢
            · exact Process.throughout_nil acked
            · exact Process.throughout_cons acked (Process.throughout_nil finished)

theorem Memory.send_iterate (c : ClientId) (k : ℕ) (mem : Memory) :
    (Memory.send c)^[k] mem = {mem with sender := mem.sender.map (Sender.send c)^[k]} := by
  induction k with
  | zero =>
      simp only [Function.iterate_zero,Option.map_id_fun,id_eq]
  | succ k ih =>
      rw [Function.iterate_succ_apply',ih,Function.iterate_succ']
      unfold Memory.send
      simp only [Option.map_map]

theorem Sender.messagesSent_send_iterate (c : ClientId) (k : ℕ) (s : Sender) (e : ClientId) :
    ((Sender.send c)^[k] s).messagesSent.getD e 0 =
      s.messagesSent.getD e 0 + if c = e then (k : ℤ) else 0 := by
  induction k with
  | zero => simp
  | succ k ih =>
      rw [Function.iterate_succ_apply']
      unfold Sender.send at ih ⊢
      rw [Dict.getD_set]
      by_cases he : c = e
      · subst e
        rw [if_pos rfl] at ih ⊢
        rw [ih,if_pos rfl]
        push_cast
        omega
      · rw [if_neg he] at ih ⊢
        rw [ih,if_neg he]

section
variable (d : Delivery β) (h : Handling) (mem : Memory)

theorem opening_eq : mem.opening cfg d =
    {mem with
      possibleDuplicates := if d.redelivered then
          mem.possibleDuplicates.set d.clientId (mem.duplicates d.clientId ++ [d.messageId])
        else mem.possibleDuplicates
      duplicateCatchers := if cfg.useDuplicateCatcher then
          mem.duplicateCatchers.set d.clientId
            ((mem.duplicateCatcher d.clientId).isDuplicate d.messageId).2
        else mem.duplicateCatchers
      currentIds := some (d.messageId,d.clientId)} := by
  unfold Memory.opening
  cases cfg.useDuplicateCatcher <;> cases d.redelivered <;> rfl

theorem processed_eq : mem.processed cfg d h =
    {mem.opening cfg d with
      messagesReceived := mem.messagesReceived.set d.clientId (mem.received d.clientId + 1)
      sender := mem.sender.map (Sender.send d.clientId)^[h.sends]} := by
  unfold Memory.processed Memory.sending Memory.countReceived Memory.received
  rw [Memory.send_iterate,opening_eq]

theorem received_processed (c : ClientId) : (mem.processed cfg d h).received c =
    if d.clientId = c then mem.received c + 1 else mem.received c := by
  rw [processed_eq]
  unfold Memory.received
  rw [Dict.getD_set]
  split_ifs with hc
  · rw [hc]
  · rfl

theorem received_opening (c : ClientId) : (mem.opening cfg d).received c = mem.received c := by
  rw [opening_eq]
  rfl

theorem duplicates_opening (c : ClientId) : (mem.opening cfg d).duplicates c =
    mem.duplicates c ++ if d.redelivered = true ∧ d.clientId = c then [d.messageId] else [] := by
  rw [opening_eq]
  unfold Memory.duplicates
  cases d.redelivered with
  | false => simp
  | true =>
      simp only [if_true,true_and,Dict.getD_set]
      split_ifs with hc
      · rw [hc]
      · rw [List.append_nil]

theorem duplicates_processed (c : ClientId) :
    (mem.processed cfg d h).duplicates c = (mem.opening cfg d).duplicates c := by
  rw [processed_eq]
  rfl

theorem sent_opening (c : ClientId) : (mem.opening cfg d).sent c = mem.sent c := by
  rw [opening_eq]
  rfl

theorem sent_processed {mem : Memory} (hs : mem.sender.isSome = true) (c : ClientId) :
    (mem.processed cfg d h).sent c =
      mem.sent c + if d.clientId = c then (h.sends : ℤ) else 0 := by
  obtain ⟨s,hs⟩ := Option.isSome_iff_exists.mp hs
  rw [processed_eq]
  unfold Memory.sent
  simp only [hs,Option.map_some]
  exact Sender.messagesSent_send_iterate d.clientId h.sends s c

end

end FlightsOptimizer.Receiver
