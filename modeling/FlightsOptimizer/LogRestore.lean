import Mathlib.Data.Bool.Basic
import FlightsOptimizer.LoggerText

/-!
# What restore answers on the log of a replica

A message leaves a block in the communication log: its START, a SENT for each
message it sent, and its save with the COMMIT behind it, unless the replica
crashed or the message was NACKed in between. A restart reads such a log from
the bottom and takes the state of the last block, or the last committed one.

A save writes three lines, and a crash can leave one or two of them. Below a
SAVE BEGIN the walk goes on to the START. The JSON line begins with no token, so
a log that ends in one restores nothing at all.
-/
namespace FlightsOptimizer.LogRestore
open Text LineFile LoggerText

/-- The lines of calls from the bottom to the top, the last call first. -/
def bottomUp (calls : List Call) : List Text := calls.flatMap fun call => call.lines.reverse

/-- The state that the last save left. -/
def lastSaved : List Call → Option State
  | [] => none
  | .saveCommunication _ _ s :: _ => some s
  | _ :: calls => lastSaved calls

/-- The state that the last save below the last COMMIT left. -/
def committed : List Call → Option State
  | [] => none
  | .commit _ _ :: calls => lastSaved calls
  | _ :: calls => committed calls

variable {calls : List Call} {m c : ℤ} {s : State} {lines : List Text}

theorem bottomUp_append (calls later : List Call) :
    bottomUp (later ++ calls) = bottomUp later ++ bottomUp calls := List.flatMap_append

theorem reverse_communicationLines (calls : List Call) :
    (communicationLines calls).reverse = bottomUp calls.reverse := by
  induction calls with
  | nil => rfl
  | cons call calls ih =>
      rw [List.reverse_cons,bottomUp_append,← ih]
      unfold communicationLines
      rw [List.flatMap_cons,List.reverse_append]
      exact congrArg _ (List.append_nil _).symm

theorem readLines_calls (calls : List Call) :
    readLines (communicationLog calls) = bottomUp calls.reverse := by
  rw [readLines_communicationLog,reverse_communicationLines]

theorem savedLine_cons {l : Text} (hl : startsWith l .saveDone = false) (lines : List Text) :
    savedLine (l :: lines) = savedLine lines := by
  unfold savedLine
  rw [skipTo_cons,hl]
  rfl

theorem skipTo_cons_ne {t : Logger.LoggerToken} {l : Text} (hl : startsWith l t = false)
    (lines : List Text) : skipTo t (l :: lines) = skipTo t lines := by
  rw [skipTo_cons,hl]
  rfl

theorem savedLine_bottomUp (calls : List Call) :
    savedLine (bottomUp calls) = (lastSaved calls).map fun s => s.json.dumps := by
  induction calls with
  | nil => rfl
  | cons call calls ih =>
      cases call with
      | start m c => exact (savedLine_cons (startsWith_record .start .saveDone m c) _).trans ih
      | sent i => exact (savedLine_cons (startsWith_sentLine i .saveDone) _).trans ih
      | saveCommunication m c s => rfl
      | commit m c => exact (savedLine_cons (startsWith_record .commit .saveDone m c) _).trans ih

/-- The walk below a START ends in the state of the last COMMIT. -/
theorem committedLine_bottomUp (calls : List Call) :
    committedLine (bottomUp calls) = (committed calls).map fun s => s.json.dumps := by
  unfold committedLine
  induction calls with
  | nil => rfl
  | cons call calls ih =>
      cases call with
      | start m c =>
          have hskip := skipTo_cons_ne (startsWith_record .start .commit m c) (bottomUp calls)
          exact (congrArg savedLine hskip).trans ih
      | sent i =>
          have hskip := skipTo_cons_ne (startsWith_sentLine i .commit) (bottomUp calls)
          exact (congrArg savedLine hskip).trans ih
      | saveCommunication m c s =>
          have hskip : skipTo .commit (bottomUp (.saveCommunication m c s :: calls)) =
              skipTo .commit (bottomUp calls) :=
            (skipTo_cons_ne (startsWith_record .saveDone .commit m c) _).trans
              ((skipTo_cons_ne (startsWith_json s .commit) _).trans
                (skipTo_cons_ne (startsWith_record .saveBegin .commit m c) _))
          exact (congrArg savedLine hskip).trans ih
      | commit m c =>
          have hwalk := savedLine_cons (startsWith_record .commit .saveDone m c) (bottomUp calls)
          exact hwalk.trans (savedLine_bottomUp calls)

/-- The calls of a message that has not been saved, the last one first. -/
def opened (m c : ℤ) (k : ℕ) : List Call :=
  List.replicate k (.sent (some (m,c))) ++ [.start m c]

theorem opened_succ (m c : ℤ) (k : ℕ) :
    opened m c (k+1) = .sent (some (m,c)) :: opened m c k := rfl

theorem skipTo_start_opened (m c : ℤ) (k : ℕ) (calls : List Call) :
    skipTo .start (bottomUp (opened m c k ++ calls)) = record .start m c :: bottomUp calls := by
  induction k with
  | zero => rfl
  | succ k ih =>
      exact (skipTo_cons_ne (startsWith_sentLine _ .start) _).trans ih

theorem getLastMessage_cons (r : Logger.RestoreType) {l : Text}
    (hl : startsWith l .saveDone = false) (lines : List Text) :
    getLastMessage r (l :: lines) = getLastMessage r lines := by
  unfold getLastMessage
  rw [skipTo_cons_ne hl]

theorem getLastMessage_save (r : Logger.RestoreType) (m c : ℤ) (s : State) (k : ℕ)
    (calls : List Call) :
    getLastMessage r (bottomUp (.saveCommunication m c s :: (opened m c k ++ calls))) =
      .found r (ofInt m) (ofInt c) (some s.json) := by
  have hstart : skipTo .start (record .saveBegin m c :: bottomUp (opened m c k ++ calls)) =
      record .start m c :: bottomUp calls :=
    (skipTo_cons_ne (startsWith_record .saveBegin .start m c) _).trans
      (skipTo_start_opened m c k calls)
  have hdone : skipTo .saveDone (bottomUp (.saveCommunication m c s :: (opened m c k ++ calls))) =
      record .saveDone m c :: s.json.dumps :: record .saveBegin m c ::
        bottomUp (opened m c k ++ calls) := rfl
  unfold getLastMessage
  rw [hdone]
  simp only [hstart,ids_record,Json.loads_dumps]

theorem handleSent_opened (hl : skipTo .start lines = record .start m c :: bottomUp calls) :
    handleSent lines =
      .found .sent (ofInt m) (ofInt c) ((committed calls).map State.json) := by
  unfold handleSent
  rw [hl]
  simp only [ids_record,committedLine_bottomUp]
  cases committed calls with
  | none => rfl
  | some s => simp only [Option.map_some,Json.loads_dumps]

theorem restore_fst (f : Files) :
    (restore f).1 = (restoreCommunication (readLines f.communication)).parse := by
  unfold restore
  simp only
  split <;> rfl

/-- A log whose last call is a COMMIT on its own save. -/
theorem restoreCommunication_commit (m c : ℤ) (s : State) (k : ℕ) (calls : List Call) :
    restoreCommunication
        (bottomUp (.commit m c :: .saveCommunication m c s :: (opened m c k ++ calls))) =
      .found .commit (ofInt m) (ofInt c) (some s.json) := by
  have hdispatch : restoreCommunication
      (bottomUp (.commit m c :: .saveCommunication m c s :: (opened m c k ++ calls))) =
        getLastMessage .commit (record .commit m c ::
          bottomUp (.saveCommunication m c s :: (opened m c k ++ calls))) := rfl
  rw [hdispatch,getLastMessage_cons _ (startsWith_record .commit .saveDone m c)]
  exact getLastMessage_save .commit m c s k calls

theorem restoreCommunication_save (m c : ℤ) (s : State) (k : ℕ) (calls : List Call) :
    restoreCommunication (bottomUp (.saveCommunication m c s :: (opened m c k ++ calls))) =
      .found .saveDone (ofInt m) (ofInt c) (some s.json) :=
  getLastMessage_save .saveDone m c s k calls

/-- A log whose last message is not saved. -/
theorem restoreCommunication_opened (m c : ℤ) (k : ℕ) (calls : List Call) :
    restoreCommunication (bottomUp (opened m c k ++ calls)) =
      .found .sent (ofInt m) (ofInt c) ((committed calls).map State.json) := by
  have hsent := handleSent_opened (skipTo_start_opened m c k calls)
  cases k with
  | zero => exact hsent
  | succ k => exact hsent

/-- A message in the log. Its save, if there is one, comes with a COMMIT. -/
structure Block where
  messageId : ℤ
  clientId : ℤ
  sent : ℕ
  state : Option State

/-- The calls of a block; the COMMIT may be missing. -/
def Block.written (commit : Bool) (b : Block) : List Call :=
  .start b.messageId b.clientId ::
    List.replicate b.sent (.sent (some (b.messageId,b.clientId))) ++
    match b.state with
    | none => []
    | some s => .saveCommunication b.messageId b.clientId s ::
        if commit then [.commit b.messageId b.clientId] else []

def blocksLog (blocks : List Block) : List Call := blocks.flatMap (Block.written true)

/-- The state of the last saved block. -/
def lastState (blocks : List Block) : Option State := blocks.reverse.findSome? Block.state

/-- An unfinished message is a possible duplicate. -/
def addDuplicate (m c : ℤ) (s : State) : State :=
  {s with possibleDuplicates := s.possibleDuplicates.push c m}

/-- What a log of blocks means. -/
def remembered (blocks : List Block) (last : Block) (commit : Bool) : State :=
  match last.state with
  | some s => if commit then s else addDuplicate last.messageId last.clientId s
  | none =>
      addDuplicate last.messageId last.clientId ((lastState blocks).getD .empty)

theorem reverse_written (commit : Bool) (b : Block) :
    (b.written commit).reverse = (match b.state with
      | none => []
      | some s => (if commit then [Call.commit b.messageId b.clientId] else []) ++
          [.saveCommunication b.messageId b.clientId s]) ++
      opened b.messageId b.clientId b.sent := by
  unfold Block.written opened
  cases b.state with
  | none => simp
  | some s => cases commit <;> simp

theorem committed_opened (m c : ℤ) (k : ℕ) (calls : List Call) :
    committed (opened m c k ++ calls) = committed calls := by
  induction k with
  | zero => rfl
  | succ k ih => exact ih

theorem committed_blocksLog (blocks : List Block) :
    committed (blocksLog blocks).reverse = lastState blocks := by
  induction blocks using List.reverseRecOn with
  | nil => rfl
  | append_singleton blocks b ih =>
      have hlog : (blocksLog (blocks ++ [b])).reverse =
          (b.written true).reverse ++ (blocksLog blocks).reverse := by
        simp [blocksLog]
      unfold lastState at ih ⊢
      rw [hlog,reverse_written,List.reverse_append,List.reverse_singleton,List.singleton_append,
        List.findSome?_cons]
      cases b.state with
      | none => exact (committed_opened _ _ _ _).trans ih
      | some s => rfl

theorem addDuplicate_of (m c : ℤ) (s : State) :
    LoggerText.addDuplicate m c (.of s) = some (.of (addDuplicate m c s)) := by
  have hget : (s.possibleDuplicates.mapValues idsJson).getD c (.arr []) =
      idsJson (s.possibleDuplicates.getD c []) := by
    unfold Dict.getD
    rw [Dict.get?_mapValues]
    cases s.possibleDuplicates.get? c <;> rfl
  have hset : (s.possibleDuplicates.mapValues idsJson).set c
      (.arr ((s.possibleDuplicates.getD c []).map .int ++ [.int m])) =
        (s.possibleDuplicates.push c m).mapValues idsJson := by
    unfold Dict.push
    rw [Dict.mapValues_set]
    simp [idsJson]
  unfold LoggerText.addDuplicate RestoreState.of
  simp only [hget]
  unfold idsJson at hset ⊢
  simp only [hset]
  rfl

theorem restored_some (r : Logger.RestoreType) (hr : r ≠ .commit) (m c : ℤ) (s : Option State) :
    (Restoration.found r m c (s.map State.json)).restored =
      some (.of (addDuplicate m c (s.getD .empty))) := by
  have hstate : restoreState (s.map State.json) = some (.of (s.getD .empty)) := by
    cases s with
    | none => rfl
    | some s => exact restoreState_json s
  cases r with
  | commit => exact absurd rfl hr
  | saveDone =>
      change (restoreState (s.map State.json)).bind (LoggerText.addDuplicate m c) = _
      rw [hstate]
      exact addDuplicate_of m c _
  | sent =>
      change (restoreState (s.map State.json)).bind (LoggerText.addDuplicate m c) = _
      rw [hstate]
      exact addDuplicate_of m c _

/-- Files with another communication log. -/
def withLog (log : Text) (f : Files) : Files := {f with communication := log}

/-- Restarting on a log of blocks gives what the log means, and on an empty log
the empty state. -/
theorem restore_blocks (f : Files) :
    (restore (withLog [] f)).1.restored = some (.of .empty) ∧
    ∀ blocks last commit,
      (restore (withLog (communicationLog (blocksLog blocks ++ last.written commit)) f)).1.restored =
        some (.of (remembered blocks last commit)) := by
  refine ⟨rfl,?_⟩
  intro blocks last commit
  have hread : readLines (communicationLog (blocksLog blocks ++ last.written commit)) =
      bottomUp ((last.written commit).reverse ++ (blocksLog blocks).reverse) := by
    rw [readLines_calls,List.reverse_append]
  have hlast := committed_blocksLog blocks
  rw [restore_fst]
  change (restoreCommunication (readLines (communicationLog _))).parse.restored = _
  rw [hread,reverse_written]
  unfold remembered
  cases hs : last.state with
  | none =>
      simp only [List.nil_append]
      rw [restoreCommunication_opened,parse_found,hlast]
      exact restored_some .sent (by decide) _ _ _
  | some s =>
      cases commit with
      | true =>
          simp only [if_true,List.cons_append,List.nil_append]
          rw [restoreCommunication_commit,parse_found]
          exact restoreState_json s
      | false =>
          simp only [Bool.false_eq_true,if_false,List.nil_append,List.cons_append]
          rw [restoreCommunication_save,parse_found]
          exact restored_some .saveDone (by decide) _ _ (some s)

/-- Messages before, a message that is not saved, and part of its save. -/
def tornLog (blocks : List Block) (m c : ℤ) (k : ℕ) (part : List Text) : Text :=
  communicationLog (blocksLog blocks ++ (opened m c k).reverse) ++ unlines part

theorem readLines_tornLog (blocks : List Block) (m c : ℤ) (k : ℕ) {part : List Text}
    (hpart : ∀ l ∈ part, Clean l) : readLines (tornLog blocks m c k part) =
      part.reverse ++ bottomUp (opened m c k ++ (blocksLog blocks).reverse) := by
  have hclean : ∀ l ∈ communicationLines (blocksLog blocks ++ (opened m c k).reverse) ++ part,
      Clean l := by
    intro l hl
    rcases List.mem_append.mp hl with hl | hl
    · obtain ⟨call,_,hl⟩ := List.mem_flatMap.mp hl
      exact call.clean l hl
    · exact hpart l hl
  unfold tornLog communicationLog
  rw [← unlines_append,readLines_unlines hclean,List.reverse_append,reverse_communicationLines,
    List.reverse_append,List.reverse_reverse]

theorem addDuplicate_ne_empty (m c : ℤ) (s : State) :
    RestoreState.of (addDuplicate m c s) ≠ .of .empty := by
  intro h
  have hget := congrArg (fun r : RestoreState => r.possibleDuplicates.get? c) h
  change ((s.possibleDuplicates.push c m).mapValues idsJson).get? c = none at hget
  unfold Dict.push at hget
  rw [Dict.get?_mapValues,Dict.get?_set_self] at hget
  cases hget

/-- The strict parts of a save that are not empty. -/
theorem torn_parts {m c : ℤ} {s : State} {part : List Text}
    (hpart : part <+: (Call.saveCommunication m c s).lines) (hne : part ≠ [])
    (hstrict : part ≠ (Call.saveCommunication m c s).lines) :
    part = [record .saveBegin m c] ∨ part = [record .saveBegin m c,s.json.dumps] := by
  have hlines : (Call.saveCommunication m c s).lines =
      [record .saveBegin m c,s.json.dumps,record .saveDone m c] := rfl
  rw [hlines] at hpart hstrict
  obtain ⟨rest,hrest⟩ := hpart
  rcases part with _ | ⟨a,_ | ⟨b,_ | ⟨d,part⟩⟩⟩
  · exact absurd rfl hne
  · rw [(List.cons.inj hrest).1]
    exact Or.inl rfl
  · obtain ⟨ha,h⟩ := List.cons.inj hrest
    rw [ha,(List.cons.inj h).1]
    exact Or.inr rfl
  · obtain ⟨ha,h⟩ := List.cons.inj hrest
    obtain ⟨hb,h⟩ := List.cons.inj h
    obtain ⟨hd,h⟩ := List.cons.inj h
    have hnil := (List.append_eq_nil_iff.mp h).1
    rw [ha,hb,hd,hnil] at hstrict
    exact absurd rfl hstrict

/-- No branch of the dispatch takes a JSON line. -/
theorem torn_json (f : Files) (blocks : List Block) (m c : ℤ) (k : ℕ) (s : State) :
    (restore (withLog (tornLog blocks m c k [record .saveBegin m c,s.json.dumps]) f)).1.restored =
      some (.of .empty) := by
  have hclean : ∀ l ∈ [record .saveBegin m c,s.json.dumps], Clean l := by
    intro l hl
    exact (Call.saveCommunication m c s).clean l (List.mem_append_left [_] hl)
  have hrest : restoreCommunication (s.json.dumps :: record .saveBegin m c ::
      bottomUp (opened m c k ++ (blocksLog blocks).reverse)) = .nothing := by
    unfold restoreCommunication
    simp only [startsWith_json]
    rfl
  rw [restore_fst]
  change (restoreCommunication (readLines (tornLog _ _ _ _ _))).parse.restored = _
  rw [readLines_tornLog blocks m c k hclean,List.reverse_cons,List.reverse_singleton,
    List.append_assoc,List.singleton_append,List.singleton_append,hrest]
  rfl

theorem torn_begin (f : Files) (blocks : List Block) (m c : ℤ) (k : ℕ) :
    (restore (withLog (tornLog blocks m c k [record .saveBegin m c]) f)).1.restored =
      some (.of (addDuplicate m c ((lastState blocks).getD .empty))) := by
  have hwalk := skipTo_start_opened m c k (blocksLog blocks).reverse
  have hskip := (skipTo_cons_ne (startsWith_record .saveBegin .start m c) _).trans hwalk
  have hrest : restoreCommunication (record .saveBegin m c ::
      bottomUp (opened m c k ++ (blocksLog blocks).reverse)) =
        .found .sent (ofInt m) (ofInt c) ((lastState blocks).map State.json) := by
    rw [← committed_blocksLog]
    exact handleSent_opened hskip
  rw [restore_fst]
  change (restoreCommunication (readLines (tornLog _ _ _ _ _))).parse.restored = _
  rw [readLines_tornLog blocks m c k
      (List.forall_mem_singleton.mpr (clean_record .saveBegin m c)),
    List.reverse_singleton,List.singleton_append,hrest,parse_found]
  exact restored_some .sent (by decide) m c _

/-- Behind a torn save the last committed counters come back, with the message
as a possible duplicate, exactly when the JSON line was not written. -/
theorem torn_save (f : Files) (blocks : List Block) (m c : ℤ) (k : ℕ) (s : State)
    (part : List Text) (hpart : part <+: (Call.saveCommunication m c s).lines) (hne : part ≠ [])
    (hstrict : part ≠ (Call.saveCommunication m c s).lines) :
    (restore (withLog (tornLog blocks m c k part) f)).1.restored =
        some (.of (addDuplicate m c ((lastState blocks).getD .empty))) ↔
      part = [record .saveBegin m c] := by
  rcases torn_parts hpart hne hstrict with rfl | rfl
  · exact iff_of_true (torn_begin f blocks m c k) rfl
  · refine iff_of_false ?_ ?_
    · rw [torn_json]
      intro h
      exact addDuplicate_ne_empty m c _ (Option.some.inj h).symm
    · intro h
      cases (List.cons.inj h).2

def noFiles : Files := ⟨[],.empty,.empty⟩

/-- One message of the client 5 is committed with its counters. -/
def oneMessage : State := ⟨⟨[(5,1)],by decide⟩,.empty,none⟩

def oneBlock : List Block := [⟨1,5,0,some oneMessage⟩]

/-- The second message is torn behind its SAVE BEGIN. -/
theorem torn_save_begin :
    (restore (withLog (tornLog oneBlock 2 5 0 [record .saveBegin 2 5]) noFiles)).1.restored =
      some (.of (addDuplicate 2 5 oneMessage)) :=
  (torn_save noFiles oneBlock 2 5 0 oneMessage [record .saveBegin 2 5] ⟨_,rfl⟩
    (List.cons_ne_nil _ _) (fun h => absurd (congrArg List.length h) (by decide))).mpr rfl

/-- It is torn behind its JSON line: every counter is gone, and the message is no
possible duplicate. -/
theorem torn_save_json :
    (restore (withLog (tornLog oneBlock 2 5 0 [record .saveBegin 2 5,oneMessage.json.dumps])
      noFiles)).1.restored = some (.of .empty) ∧
      some (RestoreState.of .empty) ≠ some (.of (addDuplicate 2 5 oneMessage)) := by
  refine ⟨torn_json noFiles oneBlock 2 5 0 oneMessage,?_⟩
  intro h
  exact addDuplicate_ne_empty 2 5 oneMessage (Option.some.inj h).symm

end FlightsOptimizer.LogRestore
