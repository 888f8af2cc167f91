import FlightsOptimizer.Recovery

/-!
# Counters and log over repeated crashes

`messages_received` agrees with the SAVE DONE records as long as no crash finds
a saved but uncommitted message below the START of a later one: there the walk
goes past the save to the last COMMIT. Such a crash, and only such a crash,
loses a count.
-/
namespace FlightsOptimizer.Receiver
open Logger LogGrammar Eof Interruptible

variable {β : Type} {cfg : Config} {belongs : MessageId → MessageId → Bool}

/-- No COMMIT lies above the last SAVE DONE, which is below the end of the log:
START or SENT records of a later message cover it. -/
def uncommitted : List Line → Bool
  | .start _ _ :: rest | .sent _ :: rest => uncommitted rest
  | .saveDone _ _ :: _ => true
  | _ => false

/-- What a crash must not meet. -/
def losesSave : List Line → Bool
  | .start _ _ :: rest | .sent _ :: rest => uncommitted rest
  | _ => false

/-- Runs of data messages in which no crash loses a save. -/
def SafeCrashes (k : Interruptible.Config (Replica β) (Action β)) (e : Event (Work β)) : Prop :=
  DataOnly k e ∧ (e = .crash → losesSave k.state.log = false)

/-- The counters agree with the SAVE DONE records. -/
def Agrees (received : ClientId → ℕ) (l : List Line) : Prop :=
  ∀ c, received c = (savedIds c l).length

def receivedOf (s : Option State) (c : ClientId) : ℕ :=
  match s with
  | none => 0
  | some s => s.messagesReceived.getD c 0

/-- The counters that a restart reads, if it comes up. -/
def restoredReceived (r : Restoration) (c : ClientId) : ℕ :=
  match r with
  | .found r => receivedOf r.state c
  | _ => 0

theorem received_recover {r t : Replica β} (h : recover cfg belongs r = some t) (c : ClientId) :
    t.memory.received c = restoredReceived (restoreCommunication r.log) c := by
  unfold recover at h
  obtain ⟨s,hs,rfl⟩ := Option.map_eq_some_iff.mp h
  rw [restore_fst] at hs
  unfold Replica.log
  cases hr : restoreCommunication r.files.communication with
  | raises =>
      rw [hr] at hs
      cases hs
  | nothing =>
      rw [hr] at hs
      cases hs
      rfl
  | found a =>
      obtain ⟨ty,m,d,st⟩ := a
      rw [hr] at hs
      cases ty <;> cases st <;> cases hs <;> rfl

/-- Each saved state counted the SAVE DONE records up to its own. -/
def Counted (l : List Line) : Prop :=
  Saved (fun s l => Agrees (fun c => s.messagesReceived.getD c 0) l) l

theorem receivedOf_le {free : Prop} {l : List Line} (h : Grammar free l) (hs : Counted l)
    (c : ClientId) : receivedOf (committedState l) c ≤ (savedIds c l).length := by
  rcases h.skipTo_commit with h₀ | ⟨m,d,s,t,h₁,_⟩
  · rw [committedState_of_nil h₀]
    exact Nat.zero_le _
  · have hsuf : saved m d s t <:+ l :=
      (List.suffix_cons _ _).trans (h₁ ▸ skipTo_suffix .commit l)
    have ha : receivedOf (some s) c = (savedIds c (saved m d s t)).length := hs m d s t hsuf c
    rw [committedState_of_commit h₁,ha]
    exact (savedIds_sublist hsuf c).length_le

/-- The last COMMIT covers every save exactly when none is uncommitted. -/
theorem committed_agrees_iff {free : Prop} {l : List Line} (h : Grammar free l)
    (hs : Counted l) : Agrees (receivedOf (committedState l)) l ↔ uncommitted l = false := by
  induction h with
  | empty =>
      constructor
      · intro _
        rfl
      · intro _ c
        rfl
  | @start m c l _ ih =>
      have hi := ih (hs.of_suffix (List.suffix_cons _ _))
      unfold Agrees at hi ⊢
      simp only [savedIds_cons (x := Line.start m c) rfl]
      exact hi
  | @sent ids l _ _ ih =>
      have hi := ih (hs.of_suffix (List.suffix_cons _ _))
      unfold Agrees at hi ⊢
      simp only [savedIds_cons (x := Line.sent ids) rfl]
      exact hi
  | @save m c s l hl ho _ =>
      constructor
      · intro ha
        have hle := receivedOf_le hl (hs.of_suffix
          ((List.suffix_cons _ _).trans ((List.suffix_cons _ _).trans (List.suffix_cons _ _)))) c
        have hc : receivedOf (committedState l) c = (savedIds c (saved m c s l)).length := ha c
        rw [savedIds_saved,if_pos rfl,List.length_cons] at hc
        omega
      · intro hu
        cases hu
  | @commit m c s l hg _ =>
      constructor
      · intro _
        rfl
      · intro _ d
        have ha := hs m c s l (List.suffix_cons _ _) d
        rw [savedIds_cons (x := Line.commit m c) rfl]
        exact ha

theorem losesSave_open {m : MessageId} {c : ClientId} {l : List Line} (h : Open m c l) :
    ∃ t, skipTo .start l = .start m c :: t ∧ (∀ d, savedIds d l = savedIds d t) ∧
      uncommitted l = uncommitted t ∧ losesSave l = uncommitted t := by
  induction h with
  | start t => exact ⟨t,rfl,fun d => savedIds_cons rfl d t,rfl,rfl⟩
  | sent ids _ ih =>
      obtain ⟨t,hskip,hids,hu,_⟩ := ih
      refine ⟨t,hskip,?_,hu,hu⟩
      intro d
      rw [← hids d]
      exact savedIds_cons rfl d _

/-- A restart reads counters that agree with the log exactly when no save is lost. -/
theorem restored_agrees_iff {l : List Line} (h : Grammar False l) (hs : Counted l) :
    Agrees (restoredReceived (restoreCommunication l)) l ↔ losesSave l = false := by
  have hopen : ∀ m c, Open m c l →
      (Agrees (restoredReceived (restoreCommunication l)) l ↔ losesSave l = false) := by
    intro m c ho
    obtain ⟨t,hskip,hids,_,hl⟩ := losesSave_open ho
    have hsuf : t <:+ l := (List.suffix_cons _ _).trans (hskip ▸ skipTo_suffix .start l)
    obtain ⟨m',c',t',ht',hg⟩ := h.skipTo_start.resolve_left (by rw [hskip]; simp)
    obtain rfl : t' = t := by
      rw [hskip] at ht'
      cases ht'
      rfl
    have hc := committed_agrees_iff hg (hs.of_suffix hsuf)
    rw [ho.restore h hskip,hl,← hc]
    unfold Agrees
    simp only [hids]
    rfl
  cases h with
  | empty =>
      constructor
      · intro _
        rfl
      · intro _ c
        rfl
  | start m c _ => exact hopen m c (.start _)
  | sent ids _ hfree =>
      obtain ⟨m,c,ho⟩ := hfree.resolve_left id
      exact hopen m c (.sent ids ho)
  | save m c s _ ho =>
      constructor
      · intro _
        rfl
      · intro _
        rw [restore_saveDone ho]
        exact hs m c s _ List.suffix_rfl
  | commit m c s hg =>
      constructor
      · intro _
        rfl
      · intro _ d
        rw [restore_commit hg.of_save.2,savedIds_cons (x := Line.commit m c) rfl]
        exact hs m c s _ (List.suffix_cons _ _) d

/-- One processed message adds one SAVE DONE record and one to its counter. -/
theorem agrees_processed {d : Delivery β} {h : Handling} {r : Replica β}
    (ha : Agrees (fun c => r.memory.received c) r.log) :
    Agrees (fun c => (r.memory.processed cfg d h).received c) (d.savedLog cfg h r) := by
  intro c
  have hc : r.memory.received c = (savedIds c r.log).length := ha c
  unfold Delivery.savedLog
  rw [savedIds_saved,savedIds_opened]
  simp only [received_processed]
  split_ifs with he
  · rw [hc,List.length_cons]
  · exact hc

theorem counted_savedLog {d : Delivery β} {h : Handling} {r : Replica β} (hr : Counted r.log)
    (ha : Agrees (fun c => r.memory.received c) r.log) : Counted (d.savedLog cfg h r) :=
  Saved.save (saved_opened hr) (agrees_processed ha)

/-- What a killed replica keeps of its counting. -/
def CountKept (r : Replica β) : Prop := Grammar False r.log ∧ Counted r.log

def CountGood (r : Replica β) : Prop :=
  CountKept r ∧ Agrees (fun c => r.memory.received c) r.log

theorem countKept_crashed {d : Delivery β} {h : Handling} {r t : Replica β} (hr : CountGood r)
    (ht : Crashed cfg d h r t) : CountKept t := by
  obtain ⟨⟨hg,hc⟩,ha⟩ := hr
  unfold CountKept Replica.log
  rcases log_of_interrupted ht.files with hl | ⟨j,hl⟩ | ⟨_,hl⟩ | ⟨_,hl⟩ <;> rw [hl]
  · exact ⟨hg,hc⟩
  · exact ⟨grammar_opened hg,saved_opened hc⟩
  · exact ⟨grammar_savedLog hg,counted_savedLog hc ha⟩
  · exact ⟨grammar_commit hg,(counted_savedLog hc ha).cons rfl⟩

theorem countGood_complete {d : Delivery β} {h : Handling} {r : Replica β} (hr : CountGood r) :
    CountGood ((process cfg belongs).execAll (callback cfg d h) (deliver d r)) := by
  refine ⟨countKept_crashed hr (callback_throughout cfg belongs d h r _ List.prefix_rfl),?_⟩
  cases hh : h.ready with
  | false =>
      rw [callback_notReady cfg belongs hh]
      intro c
      have hc : r.memory.received c = (savedIds c r.log).length := hr.2 c
      have hl : savedIds c (opened d.messageId d.clientId 0 r.log) = savedIds c r.log :=
        savedIds_opened _ _ _ _ c
      simp only [Replica.log,Delivery.opening,received_opening,hc]
      rw [hl]
  | true =>
      obtain ⟨es,hes⟩ := callback_ready cfg belongs hh r
      rw [hes]
      intro c
      have hp : (r.memory.processed cfg d h).received c =
          (savedIds c (d.savedLog cfg h r)).length := agrees_processed hr.2 c
      have hl : savedIds c (d.finish cfg h r).communication = savedIds c (d.savedLog cfg h r) :=
        savedIds_finish d h r c
      simp only [Replica.log,hl]
      exact hp

/-- Counting survives every message and every crash that loses no save. -/
theorem count_survives :
    (process (β := β) cfg belongs).Survives SafeCrashes CountGood CountKept where
  init := ⟨⟨.empty,saved_nil _⟩,fun _ => rfl⟩
  kept := fun _ hs => hs.1
  complete := by
    intro e s t program hs hg hb
    cases e with
    | eof t hasMessages => cases hg.1
    | data d h =>
        obtain ⟨rfl,⟨-,rfl⟩ | ⟨-,rfl⟩⟩ := begin_data cfg belongs hb
        · exact hs
        · exact countGood_complete hs
  through := by
    intro e s t program hs hg hb
    cases e with
    | eof t hasMessages => cases hg.1
    | data d h =>
        obtain ⟨rfl,⟨-,rfl⟩ | ⟨-,rfl⟩⟩ := begin_data cfg belongs hb
        · exact Process.throughout_cons hs.1 (Process.throughout_nil hs.1)
        · exact (callback_throughout cfg belongs d h s).mono fun _ ht => countKept_crashed hs ht
  recovered := by
    intro k t hk hg ht
    have hl : t.log = k.state.log := recover_log ht
    unfold CountGood CountKept
    rw [hl]
    refine ⟨hk,?_⟩
    have ha := (restored_agrees_iff hk.1 hk.2).mpr (hg.2 rfl)
    intro c
    have hc : t.memory.received c = restoredReceived (restoreCommunication k.state.log) c :=
      received_recover ht c
    exact hc.trans (ha c)

/-- In every run of data messages whose crashes lose no save, the counters agree
with the log between two messages; and one more crash, at any boundary, keeps
them in agreement exactly when it loses no save either. -/
theorem counters_agree {k : Interruptible.Config (Replica β) (Action β)}
    (h : (process cfg belongs).Run SafeCrashes k) :
    (k.pending = [] → Agrees (fun c => k.state.memory.received c) k.state.log) ∧
    ∀ k', (process cfg belongs).step k .crash = some k' →
      (Agrees (fun c => k'.state.memory.received c) k'.state.log ↔
        losesSave k.state.log = false) := by
  constructor
  · intro hi
    exact (h.idle count_survives hi).2
  · intro k' hk'
    obtain ⟨hg,hc⟩ := h.kept count_survives
    obtain ⟨ht,-⟩ := Process.crash_of_step hk'
    have hl : k'.state.log = k.state.log := recover_log ht
    rw [← restored_agrees_iff hg hc]
    simp only [hl,received_recover ht]

def counter : Config where
  replicaId := 1
  replicasCount := 1

/-- The checks of `SafeCrashes`, computed. -/
def safeCrashes (k : Interruptible.Config (Replica ℕ) (Action ℕ)) (e : Event (Work ℕ)) : Bool :=
  match e with
  | .crash => !losesSave k.state.log
  | e => dataOnly e

theorem safeCrashes_sound (k : Interruptible.Config (Replica ℕ) (Action ℕ)) (e : Event (Work ℕ))
    (h : safeCrashes k e = true) : SafeCrashes k e := by
  cases e with
  | begin w => exact ⟨h,fun he => by cases he⟩
  | tick => exact ⟨h,fun he => by cases he⟩
  | crash =>
      unfold safeCrashes at h
      exact ⟨rfl,fun _ => by simpa using h⟩

def message (m : MessageId) : Event (Work ℕ) :=
  .begin (.data ⟨m,m,1,50,false,false⟩ (.done 1 false))

/-- Two messages, and a crash just after the save of the second. -/
def counted : Interruptible.Config (Replica ℕ) (Action ℕ) :=
  ((process counter startsWithId).replay safeCrashes (.idle (fresh counter))
    (message 7 :: List.replicate 8 .tick ++ message 8 :: List.replicate 6 .tick ++
      [.crash])).get (by decide)

theorem counters_agree_counted :
    (counted.pending = [] → Agrees (fun c => counted.state.memory.received c) counted.state.log) ∧
    ∀ k', (process counter startsWithId).step counted .crash = some k' →
      (Agrees (fun c => k'.state.memory.received c) k'.state.log ↔
        losesSave counted.state.log = false) :=
  counters_agree (Process.run_replay safeCrashes_sound _)

/-- A crash after the SAVE DONE of message 7, and one after the START of message 8. -/
def lostCount : Interruptible.Config (Replica ℕ) (Action ℕ) :=
  ((process counter startsWithId).replay (fun _ e => dataOnly e) (.idle (fresh counter))
    (message 7 :: List.replicate 6 .tick ++ [.crash] ++
      message 8 :: List.replicate 1 .tick ++ [.crash])).get (by decide)

/-- The counter of client 1 is gone, its SAVE DONE record is not. -/
theorem lostCount_disagrees :
    (process counter startsWithId).Run DataOnly lostCount ∧
    lostCount.pending = [] ∧ lostCount.state.memory.received 1 = 0 ∧
    savedIds 1 lostCount.state.log = [7] :=
  ⟨Process.run_replay (fun _ _ h => h) _,rfl,rfl,rfl⟩

end FlightsOptimizer.Receiver
