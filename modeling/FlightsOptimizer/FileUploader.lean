import FlightsOptimizer.LineFile
import FlightsOptimizer.Protocol

/-!
# The file uploader

The client reads its file line by line and puts the lines on the queue in
batches, numbered from 1, and an EOF with their number behind them. The
generator yields what remains at the end even when nothing does; the loop that
sends skips what is empty, so the number is that of the messages sent.
-/
namespace FlightsOptimizer

/-- What the uploader puts on its queue. -/
inductive Queued where
  | clientProtocol (messageId : ℕ) (messageType : MessageProtocolType) (content : Text)
  | eof (messageType : MessageProtocolType) (messagesSent : ℕ)
  deriving DecidableEq

/-- The file is what its path names, decoded. -/
structure FileUploader where
  messageType : MessageProtocolType
  file : Text
  removeFileHeader : Bool
  batchSize : ℕ

namespace FileUploader
open LineFile

/-- A file that is opened as text has one kind of newline. -/
def universalNewlines : Text → Text
  | [] => []
  | '\r' :: '\n' :: s => '\n' :: universalNewlines s
  | '\r' :: s => '\n' :: universalNewlines s
  | c :: s => c :: universalNewlines s

/-- The lines that a text file is iterated by, each with its newline. -/
def lines : Text → List Text
  | [] => []
  | c :: s => if c = '\n' then ['\n'] :: lines s else consFirst c (lines s)

/-- What `__next_batch` yields from the loop on. -/
def batches (batchSize : ℕ) : List Text → List Text → List Text
  | batch, [] => [batch.flatten]
  | batch, line :: rest =>
      let batch := batch ++ [line]
      if batch.length = batchSize ∨ line = [] then batch.flatten :: batches batchSize [] rest
      else batches batchSize batch rest

/-- The loop of `start`, from a current message id on, and the EOF. -/
def sendBatches (messageType : MessageProtocolType) : ℕ → List Text → List Queued
  | currentMessageId, [] => [.eof messageType (currentMessageId-1)]
  | currentMessageId, batch :: rest =>
      if batch ≠ [] then
        .clientProtocol currentMessageId messageType batch ::
          sendBatches messageType (currentMessageId+1) rest
      else sendBatches messageType currentMessageId rest

variable (u : FileUploader)

def text : Text := universalNewlines u.file

/-- `__next_batch`. Without a header line `next(f)` raises. -/
def nextBatch : Option (List Text) :=
  if u.removeFileHeader then
    match lines u.text with
    | [] => none
    | _ :: rest => some (batches u.batchSize [] rest)
  else some (batches u.batchSize [] (lines u.text))

def start : Option (List Queued) := u.nextBatch.map (sendBatches u.messageType 1)

theorem mem_consFirst {c : Char} {ls : List Text} (h : ∀ l ∈ ls, l ≠ []) :
    ∀ l ∈ consFirst c ls, l ≠ [] := by
  cases ls with
  | nil =>
      intro l hl
      rw [List.mem_singleton.mp hl]
      exact List.cons_ne_nil c []
  | cons m ms =>
      intro l hl
      rcases List.mem_cons.mp hl with rfl | hl
      · exact List.cons_ne_nil c m
      · exact h l (List.mem_cons_of_mem m hl)

theorem flatten_consFirst (c : Char) (ls : List Text) : (consFirst c ls).flatten = c :: ls.flatten := by
  cases ls <;> rfl

/-- No line is empty: an empty one has its newline. -/
theorem lines_ne_nil (s : Text) : ∀ l ∈ lines s, l ≠ [] := by
  induction s with
  | nil => nofun
  | cons c s ih =>
      rw [lines]
      split_ifs with hc
      · intro l hl
        rcases List.mem_cons.mp hl with rfl | hl
        · exact List.cons_ne_nil _ _
        · exact ih l hl
      · exact mem_consFirst ih

/-- The lines make up the text. -/
theorem flatten_lines (s : Text) : (lines s).flatten = s := by
  induction s with
  | nil => rfl
  | cons c s ih =>
      rw [lines]
      split_ifs with hc
      · rw [List.flatten_cons,ih,hc]
        rfl
      · rw [flatten_consFirst,ih]

/-- What stands behind the first newline. -/
def afterHeader (s : Text) : Text := (s.dropWhile fun c => c ≠ '\n').tail

theorem flatten_tail_lines (s : Text) : (lines s).tail.flatten = afterHeader s := by
  unfold afterHeader
  induction s with
  | nil => rfl
  | cons c s ih =>
      rw [lines]
      split_ifs with hc
      · rw [List.tail_cons,flatten_lines,List.dropWhile_cons_of_neg (by simp [hc])]
        rfl
      · rw [consFirst_tail,ih,List.dropWhile_cons_of_pos (by simp [hc])]

/-- The lines in groups of one size, of which only the last may be smaller. -/
structure Partition (batchSize : ℕ) (ls : List Text) (groups : List (List Text)) : Prop where
  concat : groups.flatten = ls
  full : ∀ g ∈ groups.dropLast, g.length = batchSize
  size : ∀ g ∈ groups, 1 ≤ g.length ∧ g.length ≤ batchSize
  nonempty : ∀ g ∈ groups, g.flatten ≠ []

theorem flatten_ne_nil {g : List Text} (hne : g ≠ []) (hg : ∀ l ∈ g, l ≠ []) : g.flatten ≠ [] := by
  obtain ⟨l,hl⟩ := List.exists_mem_of_ne_nil g hne
  intro h
  exact hg l hl (List.flatten_eq_nil_iff.mp h l hl)

/-- A batch that is full goes in front of the others. -/
theorem Partition.cons {batchSize : ℕ} {ls g : List Text} {groups : List (List Text)}
    (h : Partition batchSize ls groups) (hsize : 1 ≤ batchSize) (hg : g.length = batchSize)
    (hne : g.flatten ≠ []) : Partition batchSize (g ++ ls) (g :: groups) where
  concat := by rw [List.flatten_cons,h.concat]
  full := by
    intro x hx
    cases groups with
    | nil => cases hx
    | cons y ys =>
        rw [List.dropLast_cons_cons] at hx
        rcases List.mem_cons.mp hx with rfl | hx
        · exact hg
        · exact h.full x hx
  size := by
    intro x hx
    rcases List.mem_cons.mp hx with rfl | hx
    · omega
    · exact h.size x hx
  nonempty := by
    intro x hx
    rcases List.mem_cons.mp hx with rfl | hx
    · exact hne
    · exact h.nonempty x hx

/-- What is yielded and not empty are the groups of a partition. The induction
carries the batch that has begun, which is not full. -/
theorem batches_partition {batchSize : ℕ} {batch rest : List Text} (hlt : batch.length < batchSize)
    (hbatch : ∀ l ∈ batch, l ≠ []) (hrest : ∀ l ∈ rest, l ≠ []) :
    ∃ groups, Partition batchSize (batch ++ rest) groups ∧
      (batches batchSize batch rest).filter (fun b => b ≠ []) = groups.map List.flatten := by
  induction rest generalizing batch with
  | nil =>
      rw [List.append_nil,batches]
      rcases eq_or_ne batch [] with rfl | hne
      · exact ⟨[],⟨rfl,nofun,nofun,nofun⟩,rfl⟩
      · have hflatten := flatten_ne_nil hne hbatch
        have hpos := List.length_pos_of_ne_nil hne
        refine ⟨[batch],⟨by simp,nofun,?_,?_⟩,by simp [hflatten]⟩
        · intro g hg
          rw [List.mem_singleton.mp hg]
          omega
        · intro g hg
          rw [List.mem_singleton.mp hg]
          exact hflatten
  | cons line rest ih =>
      have hline := hrest line List.mem_cons_self
      have hrest' : ∀ l ∈ rest, l ≠ [] := fun l hl => hrest l (List.mem_cons_of_mem line hl)
      have hbatch' : ∀ l ∈ batch ++ [line], l ≠ [] := by
        intro l hl
        rcases List.mem_append.mp hl with hl | hl
        · exact hbatch l hl
        · rwa [List.mem_singleton.mp hl]
      have happend : batch ++ line :: rest = batch ++ [line] ++ rest := by
        rw [List.append_assoc]
        rfl
      rw [batches,happend]
      by_cases hfull : (batch ++ [line]).length = batchSize
      · have hpos : ([] : List Text).length < batchSize := by
          rw [List.length_nil]
          omega
        obtain ⟨groups,hpartition,hyields⟩ := ih hpos nofun hrest'
        have hflatten : (batch ++ [line]).flatten ≠ [] := flatten_ne_nil (by simp) hbatch'
        refine ⟨(batch ++ [line]) :: groups,hpartition.cons (by omega) hfull hflatten,?_⟩
        rw [if_pos (Or.inl hfull),List.filter_cons,if_pos (decide_eq_true hflatten),hyields]
        rfl
      · have hlt' : (batch ++ [line]).length < batchSize := by
          rw [List.length_append,List.length_singleton] at hfull ⊢
          omega
        rw [if_neg (not_or.mpr ⟨hfull,hline⟩)]
        exact ih hlt' hbatch' hrest'

/-- The messages of the groups, numbered from an id on. -/
def messages (messageType : MessageProtocolType) (id : ℕ) (groups : List (List Text)) : List Queued :=
  (groups.zipIdx id).map fun g => .clientProtocol g.2 messageType g.1.flatten

/-- What is empty is skipped; the EOF carries the number of the others. -/
theorem sendBatches_eq (messageType : MessageProtocolType) {groups : List (List Text)} {bs : List Text}
    {id : ℕ} (hid : 1 ≤ id) (hbs : bs.filter (fun b => b ≠ []) = groups.map List.flatten) :
    sendBatches messageType id bs =
      messages messageType id groups ++ [.eof messageType (id-1+groups.length)] := by
  induction bs generalizing groups id with
  | nil =>
      have hnil : groups = [] := List.map_eq_nil_iff.mp hbs.symm
      rw [hnil]
      rfl
  | cons batch rest ih =>
      rw [sendBatches]
      by_cases hb : batch = []
      · rw [List.filter_cons,if_neg (by simp [hb])] at hbs
        rw [if_neg (not_not_intro hb)]
        exact ih hid hbs
      · rw [List.filter_cons,if_pos (decide_eq_true hb)] at hbs
        cases groups with
        | nil => cases hbs
        | cons g gs =>
            obtain ⟨hg,hgs⟩ := List.cons.inj hbs
            have hcount : id+1-1+gs.length = id-1+(g :: gs).length := by
              rw [List.length_cons]
              omega
            rw [if_pos hb,ih (by omega) hgs,hcount,hg]
            rfl

/-- The part of the file that is sent. -/
def body : Text := if u.removeFileHeader then afterHeader u.text else u.text

/-- The lines of that part. -/
def bodyLines : List Text := if u.removeFileHeader then (lines u.text).tail else lines u.text

theorem flatten_bodyLines : u.bodyLines.flatten = u.body := by
  unfold bodyLines body
  split_ifs
  · exact flatten_tail_lines u.text
  · exact flatten_lines u.text

theorem nextBatch_eq (hheader : u.removeFileHeader = true → u.text ≠ []) :
    u.nextBatch = some (batches u.batchSize [] u.bodyLines) := by
  unfold nextBatch bodyLines
  split_ifs with h
  · cases hl : lines u.text with
    | nil =>
        have htext := flatten_lines u.text
        rw [hl] at htext
        exact absurd htext.symm (hheader h)
    | cons header rest => rfl
  · rfl

variable {u}

/-- The data messages are numbered from 1 and hold the lines of a partition, and
the EOF has their number. -/
theorem start_partition (hsize : 1 ≤ u.batchSize)
    (hheader : u.removeFileHeader = true → u.text ≠ []) :
    ∃ groups, Partition u.batchSize u.bodyLines groups ∧
      (groups.map List.flatten).flatten = u.body ∧
      u.start = some (messages u.messageType 1 groups ++ [.eof u.messageType groups.length]) := by
  have hlines : ∀ l ∈ u.bodyLines, l ≠ [] := by
    intro l hl
    unfold bodyLines at hl
    split_ifs at hl
    · exact lines_ne_nil u.text l (List.mem_of_mem_tail hl)
    · exact lines_ne_nil u.text l hl
  have hempty : ∀ l ∈ ([] : List Text), l ≠ [] := nofun
  have hpos : ([] : List Text).length < u.batchSize := hsize
  obtain ⟨groups,hpartition,hyields⟩ := batches_partition hpos hempty hlines
  refine ⟨groups,hpartition,?_,?_⟩
  · rw [← List.flatten_flatten,hpartition.concat]
    exact u.flatten_bodyLines
  · unfold start
    rw [u.nextBatch_eq hheader,Option.map_some,sendBatches_eq u.messageType le_rfl hyields,
      Nat.sub_self,Nat.zero_add]

/-- A header and three lines, the last without a newline, in batches of two. -/
def threeLines : FileUploader := ⟨.flight,"h\na\nb\nc".toList,true,2⟩

theorem start_partition_threeLines : ∃ groups,
    Partition threeLines.batchSize threeLines.bodyLines groups ∧
      (groups.map List.flatten).flatten = threeLines.body ∧
      threeLines.start =
        some (messages threeLines.messageType 1 groups ++ [.eof threeLines.messageType groups.length]) :=
  start_partition (by decide) (by decide)

end FileUploader
end FlightsOptimizer
