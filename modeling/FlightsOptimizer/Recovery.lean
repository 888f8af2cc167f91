import FlightsOptimizer.EofCallback

/-!
# What a restart recovers

The logs that a replica can write, and what `restore` answers after a COMMIT: it
recognises the COMMIT exactly when it is the last line of the log. A SENT that
`Connection.handle_eof` logs after it sends the walk down to the START of the
same message, and from there past its COMMIT to the one before.
-/
namespace FlightsOptimizer.Receiver
open Logger LogGrammar Eof Interruptible

variable {β : Type} {cfg : Config} {belongs : MessageId → MessageId → Bool}
variable {guard : Interruptible.Config (Replica β) (Action β) → Event (Work β) → Prop}

def dataOnly : Event (Work β) → Bool
  | .begin (.eof _ _) => false
  | _ => true

/-- The guard of runs that handle no EOF. -/
def DataOnly (_ : Interruptible.Config (Replica β) (Action β)) (e : Event (Work β)) : Prop :=
  dataOnly e = true

abbrev Replica.log (r : Replica β) : List Line := r.files.communication

@[simp] theorem storeConnection_communication (d : Delivery β) (f : Files β) :
    (d.storeConnection cfg f).communication = f.communication := by
  unfold Delivery.storeConnection
  split_ifs <;> rfl

@[simp] theorem storeDuplicateCatcher_communication (d : Delivery β) (f : Files β) :
    (d.storeDuplicateCatcher cfg f).communication = f.communication := by
  unfold Delivery.storeDuplicateCatcher
  split_ifs <;> rfl

theorem stored_communication (d : Delivery β) (h : Handling) (f : Files β) :
    (d.stored cfg h f).communication =
      opened d.messageId d.clientId h.records f.communication := by
  simp only [Delivery.stored,Delivery.opening,storeDuplicateCatcher_communication,
    storeConnection_communication]

/-- The log with the save of a delivery on top. -/
def Delivery.savedLog (cfg : Config) (d : Delivery β) (h : Handling) (r : Replica β) : List Line :=
  saved d.messageId d.clientId (r.memory.processed cfg d h).currentState
    (opened d.messageId d.clientId h.records r.log)

theorem save_communication (d : Delivery β) (h : Handling) (r : Replica β) :
    (d.save cfg h r).communication = d.savedLog cfg h r := by
  simp only [Delivery.save,saveCommunication,Delivery.savedLog,stored_communication,saved]

theorem finish_communication (d : Delivery β) (h : Handling) (r : Replica β) :
    (d.finish cfg h r).communication = if d.isResult then d.savedLog cfg h r
      else .commit d.messageId d.clientId :: d.savedLog cfg h r := by
  rw [← save_communication]
  unfold Delivery.finish
  split_ifs <;> rfl

theorem savedIds_finish (d : Delivery β) (h : Handling) (r : Replica β) (c : ClientId) :
    savedIds c (d.finish cfg h r).communication = savedIds c (d.savedLog cfg h r) := by
  rw [finish_communication]
  split_ifs
  · rfl
  · exact savedIds_cons rfl c _

/-- The communication log of a killed data message. -/
theorem log_of_interrupted {d : Delivery β} {h : Handling} {r : Replica β} {f : Files β}
    {acked : List (MessageId × ClientId)} (hi : Interrupted cfg d h r f acked) :
    f.communication = r.log ∨
      (∃ j, f.communication = opened d.messageId d.clientId j r.log) ∨
      (h.ready = true ∧ f.communication = d.savedLog cfg h r) ∨
      (h.ready = true ∧
        f.communication = .commit d.messageId d.clientId :: d.savedLog cfg h r) := by
  cases hi with
  | untouched => exact Or.inl rfl
  | opened j => exact Or.inr (Or.inl ⟨j,rfl⟩)
  | connection _ => exact Or.inr (Or.inl ⟨_,storeConnection_communication d _⟩)
  | duplicateCatcher _ => exact Or.inr (Or.inl ⟨_,stored_communication d h _⟩)
  | saved hr => exact Or.inr (Or.inr (Or.inl ⟨hr,save_communication d h r⟩))
  | acked hr => exact Or.inr (Or.inr (Or.inl ⟨hr,save_communication d h r⟩))
  | finished hr =>
      rw [finish_communication]
      split_ifs
      · exact Or.inr (Or.inr (Or.inl ⟨hr,rfl⟩))
      · exact Or.inr (Or.inr (Or.inr ⟨hr,rfl⟩))

/-- A restart never writes the communication log. -/
theorem restore_communication (f : Files β) :
    (Logger.restore belongs f).2.communication = f.communication := by
  unfold Logger.restore
  split <;> rfl

theorem restore_fst (f : Files β) :
    (Logger.restore belongs f).1 = restoreCommunication f.communication := by
  unfold Logger.restore
  split
  · next h => rw [h]
  · rfl

theorem recover_log {r t : Replica β} (h : recover cfg belongs r = some t) : t.log = r.log := by
  unfold recover at h
  obtain ⟨s,_,rfl⟩ := Option.map_eq_some_iff.mp h
  exact restore_communication r.files

theorem recover_history {r t : Replica β} (h : recover cfg belongs r = some t) :
    t.history = r.history := by
  unfold recover at h
  obtain ⟨s,_,rfl⟩ := Option.map_eq_some_iff.mp h
  rfl

/-- What a step makes of the replica itself. -/
theorem state_of_step {k k' : Interruptible.Config (Replica β) (Action β)} {e : Event (Work β)}
    (h : (process cfg belongs).step k e = some k') :
    (∃ d h, e = .begin (.data d h) ∧ k'.state = deliver d k.state) ∨
      (∃ t hasMessages, e = .begin (.eof t hasMessages) ∧ k'.state = k.state) ∨
      (∃ a ∈ k.pending, e = .tick ∧ k'.state = exec a k.state) ∨
      e = .crash ∧ recover cfg belongs k.state = some k'.state := by
  cases e with
  | begin w =>
      obtain ⟨-,t,program,hb,rfl⟩ := Process.begin_of_step h
      cases w with
      | data d handling => exact Or.inl ⟨d,handling,rfl,(begin_data cfg belongs hb).1⟩
      | eof t hasMessages =>
          cases hb
          exact Or.inr (Or.inl ⟨t,hasMessages,rfl,rfl⟩)
  | tick =>
      obtain ⟨a,rest,hp,rfl⟩ := Process.tick_of_step h
      exact Or.inr (Or.inr (Or.inl ⟨a,hp ▸ List.mem_cons_self,rfl,rfl⟩))
  | crash => exact Or.inr (Or.inr (Or.inr ⟨rfl,(Process.crash_of_step h).1⟩))

/-- The rule for properties of the log alone: each way of writing it keeps them. -/
theorem Run.log {L : List Line → Prop} (nil : L [])
    (opened : ∀ m c j l, L l → L (opened m c j l))
    (saved : ∀ (d : Delivery β) h r, h.ready = true → L r.log → L (d.savedLog cfg h r))
    (commit : ∀ (d : Delivery β) h r, h.ready = true → L r.log →
      L (.commit d.messageId d.clientId :: d.savedLog cfg h r))
    (sent : ∀ k ids l, L l → L (List.replicate k (.sent ids) ++ l))
    {c : Interruptible.Config (Replica β) (Action β)}
    (h : (process cfg belongs).Run guard c) : L c.state.log := by
  refine Process.Run.always (J := fun r => L r.log) nil ?_ ?_ h
  · intro e s t program hs _ hb
    cases e with
    | data d h =>
        have crashed : ∀ u, Crashed cfg d h s u → L u.log := by
          intro u hu
          unfold Replica.log
          rcases log_of_interrupted hu.files with hl | ⟨j,hl⟩ | ⟨hr,hl⟩ | ⟨hr,hl⟩ <;> rw [hl]
          · exact hs
          · exact opened _ _ j _ hs
          · exact saved d h s hr hs
          · exact commit d h s hr hs
        obtain ⟨rfl,⟨-,rfl⟩ | ⟨-,rfl⟩⟩ := begin_data cfg belongs hb
        · exact Process.throughout_cons hs (Process.throughout_nil hs)
        · exact (callback_throughout cfg belongs d h s).mono crashed
    | eof t hasMessages =>
        cases hb
        refine (callbackEof_throughout cfg belongs s hasMessages t).mono ?_
        intro u hu
        obtain ⟨k,hk⟩ := hu.files
        have hl : u.log = List.replicate k (.sent s.memory.currentIds) ++ s.log :=
          congrArg Files.communication hk
        rw [hl]
        exact sent k _ _ hs
  · intro c t hc _ ht
    rw [recover_log ht]
    exact hc

theorem grammar_replicate {l : List Line} (h : Grammar True l) (k : ℕ)
    (ids : Option (MessageId × ClientId)) : Grammar True (List.replicate k (.sent ids) ++ l) := by
  induction k with
  | zero => exact h
  | succ k ih => exact ih.sent ids (Or.inl trivial)

theorem grammar_savedLog {free : Prop} {d : Delivery β} {h : Handling} {r : Replica β}
    (hr : Grammar free r.log) : Grammar free (d.savedLog cfg h r) :=
  (grammar_opened hr).save _ _ _ (opened_open _ _ _ _)

theorem grammar_commit {free : Prop} {d : Delivery β} {h : Handling} {r : Replica β}
    (hr : Grammar free r.log) :
    Grammar free (.commit d.messageId d.clientId :: d.savedLog cfg h r) :=
  Grammar.commit _ _ _ (grammar_savedLog hr)

/-- Every run writes a log of the grammar. -/
theorem Run.grammar {c : Interruptible.Config (Replica β) (Action β)}
    (h : (process cfg belongs).Run guard c) : Grammar True c.state.log :=
  Run.log (L := Grammar True) .empty (fun _ _ _ _ => grammar_opened)
    (fun _ _ _ _ => grammar_savedLog) (fun _ _ _ _ => grammar_commit)
    (fun k ids _ hl => grammar_replicate hl k ids) h

theorem saved_replicate {Q : State → List Line → Prop} {l : List Line} (h : Saved Q l) (k : ℕ)
    (ids : Option (MessageId × ClientId)) : Saved Q (List.replicate k (.sent ids) ++ l) := by
  induction k with
  | zero => exact h
  | succ k ih => exact ih.cons rfl

/-- Every saved state counts the message that it was saved for. -/
theorem Run.counts_saved {c : Interruptible.Config (Replica β) (Action β)}
    (h : (process cfg belongs).Run guard c) :
    Saved (fun s l => ∀ m c t, l = saved m c s t → 0 < s.messagesReceived.getD c 0)
      c.state.log := by
  have counts : ∀ (d : Delivery β) h (r : Replica β), ∀ m c t,
      d.savedLog cfg h r = saved m c (r.memory.processed cfg d h).currentState t →
        0 < (r.memory.processed cfg d h).messagesReceived.getD c 0 := by
    intro d h r m c t he
    have hc : d.clientId = c := by
      unfold Delivery.savedLog at he
      cases he
      rfl
    have hr : (r.memory.processed cfg d h).received c = r.memory.received c + 1 := by
      rw [received_processed,if_pos hc]
    unfold Memory.received at hr
    omega
  refine Run.log (saved_nil _) (fun _ _ _ _ => saved_opened) ?_ ?_
    (fun k ids _ hl => saved_replicate hl k ids) h
  · intro d h r _ hl
    exact (saved_opened hl).save (counts d h r)
  · intro d h r _ hl
    exact ((saved_opened hl).save (counts d h r)).cons rfl

/-- The top of the log, when neither START nor COMMIT was written after a COMMIT,
is a SENT record. -/
theorem sent_above {log tail rest : List Line} {m : MessageId} {c : ClientId}
    (h : Grammar True log) (hlog : log = tail ++ .commit m c :: rest)
    (htail : ∀ x ∈ tail, x.startsWith .start = false ∧ x.startsWith .commit = false)
    (hne : tail ≠ []) : ∃ ids l, log = .sent ids :: l := by
  obtain ⟨x,xs,rfl⟩ := List.exists_cons_of_ne_nil hne
  obtain ⟨hs,hc⟩ := htail x List.mem_cons_self
  cases h with
  | empty => cases hlog
  | start m' c' _ =>
      obtain ⟨rfl,-⟩ := List.cons.inj hlog
      cases hs
  | sent ids _ _ => exact ⟨ids,_,rfl⟩
  | commit m' c' s' _ =>
      obtain ⟨rfl,-⟩ := List.cons.inj hlog
      cases hc
  | @save m' c' s' l _ ho =>
      -- the START of this save would lie above the COMMIT
      have hsuf : .commit m c :: rest <:+ saved m' c' s' l := ⟨x :: xs,hlog.symm⟩
      have hl : .commit m c :: rest <:+ l := by
        rcases List.suffix_cons_iff.mp hsuf with he | hsuf
        · cases he
        · rcases List.suffix_cons_iff.mp hsuf with he | hsuf
          · cases he
          · rcases List.suffix_cons_iff.mp hsuf with he | hsuf
            · cases he
            · exact hsuf
      obtain ⟨zs,rfl⟩ := hl
      obtain ⟨y,hy,hstart⟩ := ho.start_above ⟨rfl,rfl⟩
      have htop : x :: xs = .saveDone m' c' :: .state s' :: .saveBegin m' c' :: zs :=
        List.append_cancel_right (hlog.symm.trans (by simp [saved]))
      have hmem : y ∈ x :: xs := by
        rw [htop]
        simp [hy]
      rw [(htail y hmem).1] at hstart
      cases hstart

theorem skipTo_append {t : LoggerToken} {xs : List Line}
    (h : ∀ x ∈ xs, x.startsWith t = false) (l : List Line) : skipTo t (xs ++ l) = skipTo t l := by
  induction xs with
  | nil => rfl
  | cons x xs ih =>
      rw [List.cons_append,skipTo_cons,h x List.mem_cons_self]
      exact ih fun y hy => h y (List.mem_cons_of_mem x hy)

/-- Recovery takes message `m` for finished: it answers with the state saved for
`m`, and leaves every file as it is. -/
def Recovers (belongs : MessageId → MessageId → Bool) (f : Files β) (m : MessageId)
    (c : ClientId) (s : State) : Prop :=
  Logger.restore belongs f = (.found ⟨.commit,m,c,some s⟩,f)

/-- After COMMIT m / c and no START, `restore` recovers `m` exactly when nothing
else was logged. Any SENT record makes it answer with the state below the START
of `m`, and name `m` as the message that did not finish. -/
theorem recovers_iff {k : Interruptible.Config (Replica β) (Action β)}
    (h : (process cfg belongs).Run guard k) {tail rest : List Line} {m : MessageId} {c : ClientId}
    (hlog : k.state.log = tail ++ .commit m c :: rest)
    (htail : ∀ x ∈ tail, x.startsWith .start = false ∧ x.startsWith .commit = false) :
    ∃ s t below, rest = saved m c s t ∧ skipTo .start t = .start m c :: below ∧
      0 < s.messagesReceived.getD c 0 ∧
      (Recovers belongs k.state.files m c s ↔ tail = []) ∧
      (tail ≠ [] → (Logger.restore belongs k.state.files).1 =
        .found ⟨.sent,m,c,committedState below⟩) := by
  have hg : Grammar True k.state.log := Run.grammar h
  have hsuf : .commit m c :: rest <:+ k.state.log := ⟨tail,hlog.symm⟩
  obtain ⟨s,t,rfl,hrest⟩ := hg.of_commit hsuf
  obtain ⟨ht,ho⟩ := hrest.of_save
  obtain ⟨below,hb⟩ := ho.skipTo_start
  have hcount : 0 < s.messagesReceived.getD c 0 :=
    Run.counts_saved h m c s t ((List.suffix_cons _ _).trans hsuf) m c t rfl
  have hsent : tail ≠ [] → (Logger.restore belongs k.state.files).1 =
      .found ⟨.sent,m,c,committedState below⟩ := by
    intro hne
    obtain ⟨ids,l,hl⟩ := sent_above hg hlog htail hne
    have hskip : skipTo .start k.state.log = .start m c :: below := by
      rw [hlog,skipTo_append fun x hx => (htail x hx).1]
      exact hb
    have hh := handleSent_eq hg hskip
    rw [restore_fst,← hh]
    unfold Replica.log at hl
    rw [Replica.log,hl]
    rfl
  refine ⟨s,t,below,rfl,hb,hcount,⟨?_,?_⟩,hsent⟩
  · intro hr
    by_contra hne
    have hfst := hsent hne
    rw [hr] at hfst
    cases hfst
  · intro hnil
    have hc : restoreCommunication k.state.files.communication = .found ⟨.commit,m,c,some s⟩ := by
      have hl : k.state.files.communication = .commit m c :: saved m c s t := by
        rw [hnil] at hlog
        exact hlog
      rw [hl]
      exact restore_commit ho
    unfold Recovers Logger.restore
    rw [hc]

/-- A stateful replica that is alone in its stage. -/
def finisher : Config where
  replicaId := 1
  replicasCount := 1
  hasStatefullProcessor := true
  useDuplicateCatcher := true

/-- Message 7 of client 1 is committed, then the client's EOF makes the replica
send what `finish_processing` returned. -/
def finishes : List (Event (Work ℕ)) :=
  .begin (.data ⟨0,7,1,50,false,false⟩ (.done 0 false)) :: List.replicate 8 .tick ++
    .begin (.eof (.eof ⟨1,1,[]⟩) true) :: List.replicate 8 .tick

def finished : Interruptible.Config (Replica ℕ) (Action ℕ) :=
  ((process finisher startsWithId).replay (fun _ _ => true) (.idle (fresh finisher))
    finishes).get (by decide)

theorem finished_run : (process finisher startsWithId).Run (fun _ _ => True) finished :=
  Process.run_replay (fun _ _ _ => trivial) _

theorem recovers_iff_finished : ∃ s t below,
    finished.state.log.drop 2 = saved 7 1 s t ∧ skipTo .start t = .start 7 1 :: below ∧
      0 < s.messagesReceived.getD 1 0 ∧
      (Recovers startsWithId finished.state.files 7 1 s ↔ [Line.sent (some (7,1))] = []) ∧
      ([Line.sent (some (7,1))] ≠ [] → (Logger.restore startsWithId finished.state.files).1 =
        .found ⟨.sent,7,1,committedState below⟩) :=
  recovers_iff finished_run rfl (by decide)

/-- The restart forgets message 7, which was acknowledged, and its two lines. -/
theorem finished_rolled_back :
    (process finisher startsWithId).Run (fun _ _ => True) finished ∧
    (∃ s t, finished.state.log = [.sent (some (7,1))] ++ .commit 7 1 :: saved 7 1 s t ∧
      s.messagesReceived.get? 1 = some 1) ∧
    finished.state.history.acked = [(7,1)] ∧
    (Logger.restore startsWithId finished.state.files).1 = .found ⟨.sent,7,1,none⟩ ∧
    finished.state.files.connection.get? 1 = some [(7,50)] ∧
    (Logger.restore startsWithId finished.state.files).2.connection.get? 1 = some [] ∧
    finished.state.files.duplicateCatcher.get? 1 = some [7] ∧
    (Logger.restore startsWithId finished.state.files).2.duplicateCatcher.get? 1 = some [] :=
  ⟨finished_run,⟨_,_,rfl,rfl⟩,rfl,rfl,rfl,rfl,rfl,rfl⟩

end FlightsOptimizer.Receiver
