import FlightsOptimizer.LogRestore

/-!
# What search_processed finds

The aggregation of an EOF asks which of the possible duplicates of a client were
processed, and which of them sent something. The answer is read from the
communication log: one entry for each SAVE DONE, with a mark when a SENT stands
between it and its START. An inner walk looks for that SENT or START and shares
the lines with the outer scan; it stays inside its own message as long as every
save has a START of its own.
-/
namespace FlightsOptimizer.LogSearch
open Text LineFile LoggerText LogRestore

/-- Calls before a save, the last one first: back to the START of the message
there is no other START and no other save. -/
def ownStart (m c : ℤ) : List Call → Prop
  | [] => False
  | .start i d :: _ => i = m ∧ d = c
  | .saveCommunication _ _ _ :: _ => False
  | .sent _ :: calls => ownStart m c calls
  | .commit _ _ :: calls => ownStart m c calls

/-- Every save is preceded by its own START. -/
def OwnStarts (calls : List Call) : Prop :=
  ∀ pre m c s post, calls = pre ++ .saveCommunication m c s :: post → ownStart m c pre.reverse

/-- Calls before a save, the last one first: a SENT lies behind the START. -/
def sentSinceStart : List Call → Bool
  | [] => false
  | .start _ _ :: _ => false
  | .sent _ :: _ => true
  | _ :: calls => sentSinceStart calls

/-- The entries for the saves of a client, newest first. -/
def processed (clientId : ℤ) (idsToSearch : List ℤ) : List Call → List ProcessedMessage
  | [] => []
  | .saveCommunication m c _ :: calls =>
      if c = clientId ∧ m ∈ idsToSearch then
        ⟨m,sentSinceStart calls⟩ :: processed clientId idsToSearch calls
      else processed clientId idsToSearch calls
  | _ :: calls => processed clientId idsToSearch calls

/-- An entry as `search_processed` writes it. -/
def mark (p : ProcessedMessage) : Text := ofInt p.messageId ++ if p.sent then ['S'] else []

variable {m c clientId : ℤ} {idsToSearch : List ℤ} {calls : List Call} {messageId : Text}

/-- `ProcessedMessage.from_str` recovers the id and the mark. -/
theorem fromStr_mark (p : ProcessedMessage) : fromStr (mark p) = some p := by
  obtain ⟨m,sent⟩ := p
  have hs : 'S' ∉ ofInt m := not_mem_ofInt (by decide) rfl m
  cases sent with
  | true =>
      have hsplit : split ['S'] (ofInt m ++ ['S'] ++ []) = [ofInt m,[]] :=
        split_two (by decide) (clean_of_not_mem (a := []) hs List.not_mem_nil) rfl
      unfold mark fromStr
      rw [List.append_nil] at hsplit
      simp only [if_true,hsplit]
      simp [toInt?_ofInt]
  | false =>
      have hsplit : split ['S'] (ofInt m) = [ofInt m] :=
        splitMax_none (splitFirst_not_mem List.mem_cons_self hs) _
      unfold mark fromStr
      simp only [Bool.false_eq_true,if_false,List.append_nil,hsplit]
      simp [toInt?_ofInt,hs]

theorem search_other {l : Text} (h : startsWith l .saveDone = false) (lines : List Text) :
    search clientId idsToSearch none (l :: lines) = search clientId idsToSearch none lines := by
  rw [search,h]
  rfl

theorem search_walk_other {l : Text} (hsent : startsWith l .sent = false)
    (hstart : startsWith l .start = false) (lines : List Text) :
    search clientId idsToSearch (some messageId) (l :: lines) =
      search clientId idsToSearch (some messageId) lines := by
  rw [search,hsent,hstart]
  rfl

/-- The inner walk ends at the first SENT, or at the START, and leaves the lines
below to the outer scan. -/
theorem search_walk (h : ownStart m c calls) :
    search clientId idsToSearch (some messageId) (bottomUp calls) =
      (search clientId idsToSearch none (bottomUp calls)).map fun found =>
        (messageId ++ if sentSinceStart calls then ['S'] else []) :: found := by
  induction calls with
  | nil => exact absurd h id
  | cons call calls ih =>
      cases call with
      | start i d =>
          have hnone : search clientId idsToSearch none (bottomUp (.start i d :: calls)) =
              search clientId idsToSearch none (bottomUp calls) :=
            search_other (startsWith_record .start .saveDone i d) _
          have hsome : search clientId idsToSearch (some messageId) (bottomUp (.start i d :: calls)) =
              (search clientId idsToSearch none (bottomUp calls)).map (messageId :: ·) := rfl
          rw [hnone,hsome,sentSinceStart]
          simp
      | sent i =>
          have hnone : search clientId idsToSearch none (bottomUp (.sent i :: calls)) =
              search clientId idsToSearch none (bottomUp calls) :=
            search_other (startsWith_sentLine i .saveDone) _
          have hsome : search clientId idsToSearch (some messageId) (bottomUp (.sent i :: calls)) =
              (search clientId idsToSearch none (bottomUp calls)).map
                ((messageId ++ ['S']) :: ·) := by
            change search _ _ _ (sentLine i :: bottomUp calls) = _
            rw [search,startsWith_sentLine]
            rfl
          rw [hnone,hsome]
          rfl
      | saveCommunication i d s => exact absurd h id
      | commit i d =>
          have hnone : search clientId idsToSearch none (bottomUp (.commit i d :: calls)) =
              search clientId idsToSearch none (bottomUp calls) :=
            search_other (startsWith_record .commit .saveDone i d) _
          have hsome : search clientId idsToSearch (some messageId) (bottomUp (.commit i d :: calls)) =
              search clientId idsToSearch (some messageId) (bottomUp calls) :=
            search_walk_other (startsWith_record .commit .sent i d)
              (startsWith_record .commit .start i d) _
          rw [hnone,hsome]
          exact ih h

/-- The outer scan finds every save of the client, and the inner walk of one
does not pass over another. -/
theorem search_bottomUp (h : ∀ later m c s before,
      calls = later ++ .saveCommunication m c s :: before → ownStart m c before) :
    search clientId idsToSearch none (bottomUp calls) =
      some ((processed clientId idsToSearch calls).map mark) := by
  induction calls with
  | nil => rfl
  | cons call calls ih =>
      have hrest := ih fun later m c s before he =>
        h (call :: later) m c s before (congrArg (call :: ·) he)
      cases call with
      | start i d =>
          exact (search_other (startsWith_record .start .saveDone i d) _).trans hrest
      | sent i => exact (search_other (startsWith_sentLine i .saveDone) _).trans hrest
      | commit i d =>
          exact (search_other (startsWith_record .commit .saveDone i d) _).trans hrest
      | saveCommunication i d s =>
          have hown := h [] i d s calls rfl
          have hsome : ∀ t : Text, search clientId idsToSearch (some t)
              (s.json.dumps :: record .saveBegin i d :: bottomUp calls) =
                search clientId idsToSearch (some t) (bottomUp calls) := fun t =>
            (search_walk_other (startsWith_json s .sent) (startsWith_json s .start) _).trans
              (search_walk_other (startsWith_record .saveBegin .sent i d)
                (startsWith_record .saveBegin .start i d) _)
          have hnone : search clientId idsToSearch none
              (s.json.dumps :: record .saveBegin i d :: bottomUp calls) =
                search clientId idsToSearch none (bottomUp calls) :=
            (search_other (startsWith_json s .saveDone) _).trans
              (search_other (startsWith_record .saveBegin .saveDone i d) _)
          have hstep : search clientId idsToSearch none
              (bottomUp (.saveCommunication i d s :: calls)) =
                if d ≠ clientId ∨ i ∉ idsToSearch then
                  search clientId idsToSearch none
                    (s.json.dumps :: record .saveBegin i d :: bottomUp calls)
                else search clientId idsToSearch (some (ofInt i))
                  (s.json.dumps :: record .saveBegin i d :: bottomUp calls) := by
            change search _ _ _ (record .saveDone i d :: _) = _
            rw [search,startsWith_record,ids_record]
            simp only [toInt?_ofInt]
            rfl
          rw [hstep,hnone,hsome,processed]
          by_cases hmatch : d = clientId ∧ i ∈ idsToSearch
          · rw [if_neg (by tauto),if_pos hmatch,search_walk hown,hrest]
            rfl
          · rw [if_pos (by tauto),if_neg hmatch,hrest]

/-- `search_processed` returns one entry for each save of the client whose id is
asked for, newest first and rightly marked, and every entry is read back. -/
theorem search_exact (f : Files) (calls : List Call) (h : OwnStarts calls) (clientId : ℤ)
    (idsToSearch : List ℤ) :
    searchProcessed clientId idsToSearch (withLog (communicationLog calls) f) =
        some ((processed clientId idsToSearch calls.reverse).map mark) ∧
      searchForDuplicateMessages clientId idsToSearch (withLog (communicationLog calls) f) =
        some (processed clientId idsToSearch calls.reverse) := by
  have hsearch : searchProcessed clientId idsToSearch (withLog (communicationLog calls) f) =
      some ((processed clientId idsToSearch calls.reverse).map mark) := by
    change search clientId idsToSearch none (readLines (communicationLog calls)) = _
    rw [readLines_calls]
    refine search_bottomUp ?_
    intro later m c s before he
    have hcalls := congrArg List.reverse he
    rw [List.reverse_reverse,List.reverse_append,List.reverse_cons,List.append_assoc] at hcalls
    simpa using h before.reverse m c s later.reverse hcalls
  refine ⟨hsearch,?_⟩
  unfold searchForDuplicateMessages
  rw [hsearch]
  exact mapM_map_eq_some fromStr_mark _

theorem ownStarts_nil : OwnStarts [] := by
  intro pre m c s post h
  simp at h

/-- A log grows by any call, and by a save behind its own START. -/
theorem OwnStarts.concat (h : OwnStarts calls) {call : Call}
    (hcall : ∀ m c s, call = .saveCommunication m c s → ownStart m c calls.reverse) :
    OwnStarts (calls ++ [call]) := by
  intro pre m c s post he
  rcases List.eq_nil_or_concat' post with rfl | ⟨post,last,rfl⟩
  · obtain ⟨rfl,hlast⟩ := List.append_inj' he rfl
    exact hcall m c s (List.cons.inj hlast).1
  · have hsplit : calls ++ [call] = (pre ++ .saveCommunication m c s :: post) ++ [last] := by
      rw [he]
      simp
    exact h pre m c s post (List.append_inj' hsplit rfl).1

/-- A message that sent something, a COMMIT and a stray SENT behind it, and the
same message again without its COMMIT. -/
def messageTwice : List Call :=
  [.start 1 5,.sent (some (1,5)),.saveCommunication 1 5 .empty,.commit 1 5,.sent none,
    .start 1 5,.saveCommunication 1 5 .empty]

theorem messageTwice_ownStarts : OwnStarts messageTwice := by
  have hopen : ∀ {calls : List Call} {call : Call}, OwnStarts calls →
      (∀ m c s, call ≠ .saveCommunication m c s) → OwnStarts (calls ++ [call]) :=
    fun h hne => h.concat fun m c s he => absurd he (hne m c s)
  have hfirst : OwnStarts [.start 1 5,.sent (some (1,5))] :=
    hopen (hopen ownStarts_nil fun _ _ _ h => by cases h) fun _ _ _ h => by cases h
  have hsaved : OwnStarts [.start 1 5,.sent (some (1,5)),.saveCommunication 1 5 .empty] :=
    hfirst.concat fun m c s he => by
      cases he
      exact ⟨rfl,rfl⟩
  have hagain : OwnStarts ([.start 1 5,.sent (some (1,5)),.saveCommunication 1 5 .empty,
      .commit 1 5,.sent none,.start 1 5]) :=
    hopen (hopen (hopen hsaved fun _ _ _ h => by cases h) fun _ _ _ h => by cases h)
      fun _ _ _ h => by cases h
  exact hagain.concat fun m c s he => by
    cases he
    exact ⟨rfl,rfl⟩

/-- Two entries, the older one with its mark. -/
theorem search_messageTwice :
    searchForDuplicateMessages 5 [1,2] (withLog (communicationLog messageTwice) noFiles) =
      some [⟨1,false⟩,⟨1,true⟩] :=
  (search_exact noFiles messageTwice messageTwice_ownStarts 5 [1,2]).2

end FlightsOptimizer.LogSearch
