import FlightsOptimizer.LineFile
import FlightsOptimizer.Protocol

/-!
# The lines of a binary file

The reader from the bottom to the top and the cut of the last line as they work
on an open file: bytes, a pointer that they move, and seeks that can raise. Of
ASCII text a byte is a character, so there the reader does what `LineFile` says
of a text. The cut looks for the byte of a line feed only, and needs no more
than lines that do not hold it.
-/
namespace FlightsOptimizer.BinaryFile
open LineFile

/-- A file that is open in binary mode. -/
structure File where
  content : Bytes
  pointer : ℕ

namespace File

def seekEnd (f : File) : File := {f with pointer := f.content.length}

/-- A negative position raises. -/
def seek (position : ℤ) (f : File) : Option File :=
  if 0 ≤ position then some {f with pointer := position.toNat} else none

def seekCur (offset : ℤ) (f : File) : Option File := f.seek (f.pointer+offset)

/-- At the end of the file there is nothing to read. -/
def read (size : ℕ) (f : File) : Bytes × File :=
  let chunk := (f.content.drop f.pointer).take size
  (chunk,{f with pointer := f.pointer+chunk.length})

def truncate (f : File) : File := {f with content := f.content.take f.pointer}

def write (data : Bytes) (f : File) : File :=
  ⟨f.content.take f.pointer ++ data ++ f.content.drop (f.pointer+data.length),
    f.pointer+data.length⟩

end File

def lineFeed : UInt8 := 10

/-- `while pos > 0 and f.read(1) != b"\n"`. -/
def searchNewline : ℕ → File → Option (ℕ × File)
  | 0,f => some (0,f)
  | pos+1,f => do
      let (byte,f) := f.read 1
      if byte = [lineFeed] then some (pos+1,f)
      else
        let f ← f.seek pos
        searchNewline pos f

/-- `truncate_last_line_of_file`. In an empty file `pos` is -1, so the loop is not
entered and the seek behind it raises. -/
def truncateLastLineOfFile (content : Bytes) : Option Bytes := do
  let f := (File.mk content 0).seekEnd
  match f.pointer with
  | 0 => none
  | pos+1 =>
      let (pos,f) ← searchNewline pos f
      let f ← f.seek pos
      let f := f.truncate
      some (if 0 < pos then f.write [lineFeed] else f).content

/-- The local variables of the generator, and what it has yielded. -/
structure Reader where
  file : File
  fileSize : ℕ
  remainder : Bytes
  yielded : List Text

/-- One round of the loop. -/
def Reader.round (chunkSize : ℕ) (r : Reader) : Option Reader := do
  let readSize := min chunkSize r.fileSize
  let f ← r.file.seekCur (-readSize)
  let (chunk,f) := f.read readSize
  let f ← f.seekCur (-readSize)
  let text ← decode (chunk ++ r.remainder)
  match splitlines text.toList with
  | [] => none
  | first :: lines =>
      some ⟨f,r.fileSize-readSize,encode (String.ofList first),r.yielded ++ lines.reverse⟩

/-- The loop, if it ends within so many rounds. -/
def Reader.rounds (chunkSize : ℕ) : ℕ → Reader → Option Reader
  | n,r =>
      if r.fileSize = 0 then some r
      else match n with
        | 0 => none
        | n+1 => do
            let r ← r.round chunkSize
            rounds chunkSize n r

/-- What follows the loop. -/
def Reader.finish (r : Reader) : Option (List Text) :=
  if r.remainder = [] then some r.yielded
  else do
    let text ← decode r.remainder
    some (r.yielded ++ [text.toList])

/-- The lines that the generator yields, if its loop ends within so many rounds. -/
def readFileBottomToTopGenerator (chunkSize rounds : ℕ) (content : Bytes) : Option (List Text) := do
  let f := (File.mk content 0).seekEnd
  let r ← Reader.rounds chunkSize rounds ⟨f,f.pointer,[],[]⟩
  r.finish

section
variable {α : Type}

def terminated (newline : α) (lines : List (List α)) : List α :=
  lines.flatMap fun l => l ++ [newline]

/-- Every line is ended by a newline, except possibly the last. -/
inductive IsFileOf (newline : α) : List (List α) → List α → Prop
  | terminated (lines : List (List α)) : IsFileOf newline lines (terminated newline lines)
  | unterminated (lines : List (List α)) (last : List α) :
      IsFileOf newline (lines ++ [last]) (BinaryFile.terminated newline lines ++ last)

end

def bytes (s : Text) : Bytes := encode (String.ofList s)

def Ascii (s : Text) : Prop := ∀ c ∈ s, c.toNat < 128

theorem bytes_eq (s : Text) : bytes s = s.flatMap String.utf8EncodeChar := by
  unfold bytes encode String.toUTF8
  simp [String.ofList,List.utf8Encode]

theorem bytes_append (s t : Text) : bytes (s ++ t) = bytes s ++ bytes t := by
  rw [bytes_eq,bytes_eq,bytes_eq,List.flatMap_append]

@[simp] theorem decode_bytes (s : Text) : decode (bytes s) = some (String.ofList s) :=
  decode_encode _

@[simp] theorem bytes_eq_nil {s : Text} : bytes s = [] ↔ s = [] := by
  rw [bytes_eq,List.flatMap_eq_nil_iff]
  constructor
  · intro h
    cases s with
    | nil => rfl
    | cons c s => exact absurd (h c List.mem_cons_self) String.utf8EncodeChar_ne_nil
  · rintro rfl c hc
    cases hc

/-- An ASCII character is one byte, of the same number. -/
theorem bytes_of_ascii {s : Text} (h : Ascii s) : bytes s = s.map fun c => UInt8.ofNat c.toNat := by
  rw [bytes_eq]
  induction s with
  | nil => rfl
  | cons c s ih =>
      have hc := h c List.mem_cons_self
      have hbyte : String.utf8EncodeChar c = [UInt8.ofNat c.toNat] := by
        unfold String.utf8EncodeChar
        exact if_pos (Nat.le_of_lt_succ hc)
      rw [List.flatMap_cons,ih fun d hd => h d (List.mem_cons_of_mem c hd),hbyte]
      rfl

theorem length_bytes {s : Text} (h : Ascii s) : (bytes s).length = s.length := by
  rw [bytes_of_ascii h,List.length_map]

theorem mem_bytes {s : Text} {c : Char} (h : Ascii s) (hc : c.toNat < 128)
    (hmem : UInt8.ofNat c.toNat ∈ bytes s) : c ∈ s := by
  rw [bytes_of_ascii h,List.mem_map] at hmem
  obtain ⟨d,hd,he⟩ := hmem
  have hnat := congrArg UInt8.toNat he
  rw [UInt8.toNat_ofNat',UInt8.toNat_ofNat'] at hnat
  have hdlt := h d hd
  have hsame : d = c := Char.toNat_inj.mp (by omega)
  rwa [← hsame]

/-- A file of lines as text is one of the lines as bytes. -/
theorem bytes_terminated (lines : List Text) :
    bytes (terminated '\n' lines) = terminated lineFeed (lines.map bytes) := by
  induction lines with
  | nil => rw [bytes_eq]; rfl
  | cons l lines ih =>
      have hcons : terminated '\n' (l :: lines) = l ++ ['\n'] ++ terminated '\n' lines := rfl
      have hnewline : bytes ['\n'] = [lineFeed] := rfl
      rw [hcons,bytes_append,bytes_append,ih,hnewline]
      rfl

section
variable {chunkSize : ℕ} {front remainder : Text} (tail : Bytes) (yielded : List Text)

theorem mem_splitlines {s : Text} : ∀ l ∈ splitlines s, ∀ c ∈ l, c ∈ s := by
  fun_induction splitlines s with
  | case1 => exact fun l hl => absurd hl List.not_mem_nil
  | case2 c hc =>
      intro l hl d hd
      rw [List.mem_singleton.mp hl] at hd
      cases hd
  | case3 c hc d t ih ih' =>
      intro l hl e he
      rcases List.mem_cons.mp hl with rfl | hl
      · cases he
      · split_ifs at hl with hcd
        · exact List.mem_cons_of_mem c (List.mem_cons_of_mem d (ih l hl e he))
        · exact List.mem_cons_of_mem c (ih' l hl e he)
  | case4 c s hc ih =>
      intro l hl d hd
      cases hs : splitlines s with
      | nil =>
          rw [hs] at hl
          rw [List.mem_singleton.mp hl] at hd
          rw [List.mem_singleton.mp hd]
          exact List.mem_cons_self
      | cons m ms =>
          rw [hs] at hl ih
          rcases List.mem_cons.mp hl with rfl | hl
          · rcases List.mem_cons.mp hd with rfl | hd
            · exact List.mem_cons_self
            · exact List.mem_cons_of_mem c (ih m List.mem_cons_self d hd)
          · exact List.mem_cons_of_mem c (ih l (List.mem_cons_of_mem m hl) d hd)

/-- A seek back by no more than what stands in front of the pointer. -/
theorem seekCur_neg {content : Bytes} {pointer k : ℕ} (hk : k ≤ pointer) :
    File.seekCur (-k) ⟨content,pointer⟩ = some ⟨content,pointer-k⟩ := by
  unfold File.seekCur File.seek
  have hint : (pointer : ℤ)+(-(k : ℤ)) = ((pointer-k : ℕ) : ℤ) := by omega
  simp only [hint,if_pos (Int.natCast_nonneg _),Int.toNat_natCast]

/-- One round takes the chunk in front of the pointer and leaves the pointer there. -/
theorem round_bytes (hfront : Ascii front) {position : ℕ}
    (hposition : position = front.length-min chunkSize front.length) {first : Text}
    {lines : List Text} (hlines : splitlines (front.drop position ++ remainder) = first :: lines) :
    Reader.round chunkSize
        ⟨⟨bytes front ++ tail,front.length⟩,front.length,bytes remainder,yielded⟩ =
      some ⟨⟨bytes front ++ tail,position⟩,position,bytes first,yielded ++ lines.reverse⟩ := by
  obtain ⟨readSize,hsize⟩ : ∃ k, k = min chunkSize front.length := ⟨_,rfl⟩
  rw [← hsize] at hposition
  have hle : readSize ≤ front.length := by omega
  have hchunk : ((bytes front ++ tail).drop position).take readSize = bytes (front.drop position) := by
    have htake : Ascii (front.take position) := fun c hc => hfront c (List.mem_of_mem_take hc)
    have hdrop : Ascii (front.drop position) := fun c hc => hfront c (List.mem_of_mem_drop hc)
    have hsplit : bytes front = bytes (front.take position) ++ bytes (front.drop position) := by
      rw [← bytes_append,List.take_append_drop]
    rw [hsplit,List.append_assoc,List.drop_left' ?_,List.take_left' ?_]
    · rw [length_bytes hdrop,List.length_drop]
      omega
    · rw [length_bytes htake,List.length_take]
      omega
  have hlength : (bytes (front.drop position)).length = readSize := by
    rw [length_bytes fun c hc => hfront c (List.mem_of_mem_drop hc),List.length_drop]
    omega
  unfold Reader.round
  simp only [← hsize,seekCur_neg hle,← hposition,File.read,hchunk,hlength,Option.bind_eq_bind,
    Option.bind_some,seekCur_neg (Nat.le_add_left readSize position),Nat.add_sub_cancel,
    ← bytes_append,decode_bytes,String.toList_ofList,hlines]
  rfl

theorem finish_bytes (f : File) (fileSize : ℕ) :
    Reader.finish ⟨f,fileSize,bytes remainder,yielded⟩ =
      some (yielded ++ if remainder = [] then [] else [remainder]) := by
  unfold Reader.finish
  simp only [bytes_eq_nil]
  split_ifs
  · rw [List.append_nil]
  · simp only [decode_bytes,Option.bind_eq_bind,Option.bind_some,String.toList_ofList]

/-- The loop on bytes yields what the loop on characters yields, as long as it
has a round for each byte in front of its pointer. -/
theorem rounds_bytes (hchunk : 1 ≤ chunkSize) {n : ℕ} (hn : front.length ≤ n)
    (hfront : Ascii front) (hremainder : Ascii remainder) :
    (Reader.rounds chunkSize n
      ⟨⟨bytes front ++ tail,front.length⟩,front.length,bytes remainder,yielded⟩).bind
        Reader.finish = some (yielded ++ bottomToTop chunkSize n front remainder) := by
  induction n generalizing front remainder tail yielded with
  | zero =>
      have hnil : front = [] := List.eq_nil_of_length_eq_zero (by omega)
      subst hnil
      unfold Reader.rounds bottomToTop
      exact finish_bytes yielded _ _
  | succ n ih =>
      rw [Reader.rounds,bottomToTop]
      rcases eq_or_ne front [] with rfl | hne
      · exact finish_bytes yielded _ _
      · have hpos := List.length_pos_of_ne_nil hne
        obtain ⟨position,hposition⟩ : ∃ p, p = front.length-min chunkSize front.length := ⟨_,rfl⟩
        have hlt : position < front.length := by omega
        have hrest : front.drop position ++ remainder ≠ [] := by
          intro h
          have hdrop := List.drop_eq_nil_iff.mp (List.append_eq_nil_iff.mp h).1
          omega
        obtain ⟨first,lines,hlines⟩ := List.exists_cons_of_ne_nil (splitlines_ne_nil hrest)
        have hascii : Ascii first := by
          intro c hc
          have hmem := mem_splitlines first (by rw [hlines]; exact List.mem_cons_self) c hc
          rcases List.mem_append.mp hmem with hmem | hmem
          · exact hfront c (List.mem_of_mem_drop hmem)
          · exact hremainder c hmem
        have htake : Ascii (front.take position) := fun c hc => hfront c (List.mem_of_mem_take hc)
        have hlength : (front.take position).length = position := by
          rw [List.length_take]
          omega
        have hcontent : bytes front ++ tail =
            bytes (front.take position) ++ (bytes (front.drop position) ++ tail) := by
          rw [← List.append_assoc,← bytes_append,List.take_append_drop]
        have hround := round_bytes tail yielded hfront hposition hlines
        rw [if_neg (Nat.ne_of_gt hpos),if_neg hne]
        simp only [hround,Option.bind_eq_bind,Option.bind_some,← hposition,hlines,List.tail_cons,
          List.headD_cons]
        have hshort : (front.take position).length ≤ n := by omega
        have hnext := ih (bytes (front.drop position) ++ tail) (yielded ++ lines.reverse) hshort
          htake hascii
        rw [hlength,← hcontent] at hnext
        rw [hnext,List.append_assoc]

/-- An ASCII file is read as its text is. -/
theorem readFileBottomToTop_bytes (hchunk : 1 ≤ chunkSize) {text : Text} (htext : Ascii text)
    {n : ℕ} (hn : text.length ≤ n) :
    readFileBottomToTopGenerator chunkSize n (bytes text) =
      some (bottomToTop chunkSize n text []) := by
  have hempty : Ascii [] := fun c hc => absurd hc List.not_mem_nil
  have hloop := rounds_bytes [] [] hchunk hn htext hempty
  rw [List.append_nil,List.nil_append] at hloop
  unfold readFileBottomToTopGenerator File.seekEnd
  simp only [length_bytes htext]
  exact hloop

end

section
variable {lines : List Text} {text : Text}

/-- The lines of a file are those it was made of, whether or not the last of them
is terminated. -/
theorem splitlines_isFileOf (h : IsFileOf '\n' lines text) (hlines : ∀ l ∈ lines, Clean l) :
    splitlines text = lines := by
  cases h with
  | terminated => exact splitlines_unlines hlines
  | unterminated lines last =>
      have hlast := hlines last (by simp)
      have hinit : ∀ l ∈ lines, Clean l := fun l hl => hlines l (List.mem_append_left _ hl)
      exact (splitlines_unlines_append hinit last).trans (congrArg _ (splitlines_line hlast))

theorem plain_isFileOf (h : IsFileOf '\n' lines text) (hlines : ∀ l ∈ lines, Clean l) :
    Plain text := by
  cases h with
  | terminated => exact plain_unlines hlines
  | unterminated lines last =>
      intro c hc
      rcases List.mem_append.mp hc with hc | hc
      · exact plain_unlines (fun l hl => hlines l (List.mem_append_left _ hl)) c hc
      · exact Or.inr ((hlines last (by simp)).2 c hc)

theorem ascii_isFileOf (h : IsFileOf '\n' lines text) (hlines : ∀ l ∈ lines, Ascii l) :
    Ascii text := by
  have hterminated : ∀ ls : List Text, (∀ l ∈ ls, Ascii l) → Ascii (terminated '\n' ls) := by
    intro ls hls c hc
    obtain ⟨l,hl,hcl⟩ := List.mem_flatMap.mp hc
    rcases List.mem_append.mp hcl with hcl | hcl
    · exact hls l hl c hcl
    · rw [List.mem_singleton.mp hcl]
      decide
  cases h with
  | terminated => exact hterminated lines hlines
  | unterminated lines last =>
      intro c hc
      rcases List.mem_append.mp hc with hc | hc
      · exact hterminated lines (fun l hl => hlines l (List.mem_append_left _ hl)) c hc
      · exact hlines last (by simp) c hc

/-- The generator ends, and has yielded the lines from the last to the first. -/
theorem readFileBottomToTop_exact {chunkSize : ℕ} (hchunk : 1 ≤ chunkSize)
    (hfile : IsFileOf '\n' lines text)
    (hlines : ∀ l ∈ lines, l ≠ [] ∧ ∀ c ∈ l, c.toNat < 128 ∧ isLineBreak c = false) :
    ∃ rounds, ∀ n, rounds ≤ n →
      readFileBottomToTopGenerator chunkSize n (bytes text) = some lines.reverse := by
  have hclean : ∀ l ∈ lines, Clean l :=
    fun l hl => ⟨(hlines l hl).1,fun c hc => ((hlines l hl).2 c hc).2⟩
  have hascii : Ascii text := ascii_isFileOf hfile fun l hl c hc => ((hlines l hl).2 c hc).1
  have hsplit := splitlines_isFileOf hfile hclean
  refine ⟨text.length,?_⟩
  intro n hn
  rw [readFileBottomToTop_bytes hchunk hascii hn,bottomToTop_eq hchunk hn,List.append_nil,hsplit]
  · rw [List.append_nil]
    exact plain_isFileOf hfile hclean
  · exact fun c hc => absurd hc List.not_mem_nil
  · rw [List.append_nil,hsplit]
    exact fun hmem => (hclean [] hmem).1 rfl

/-- Two lines, of which the second has no line feed, in chunks of two bytes. -/
theorem readFileBottomToTop_exact_two : ∃ rounds, ∀ n, rounds ≤ n →
    readFileBottomToTopGenerator 2 n (bytes ['a','b','\n','c']) = some [['c'],['a','b']] :=
  readFileBottomToTop_exact (by decide) (.unterminated [['a','b']] ['c']) (by simp [isLineBreak])

end

section
variable {content : Bytes} {lines : List Bytes}

theorem read_one (pointer : ℕ) :
    (File.read 1 ⟨content,pointer⟩).1 = (content[pointer]?).toList := by
  unfold File.read
  simp only [List.take_one,List.head?_drop]

/-- One round of the search at the pointer that the round before has set. -/
theorem searchNewline_succ (pos pointer : ℕ) :
    searchNewline (pos+1) ⟨content,pointer⟩ =
      if content[pointer]? = some lineFeed then
        some (pos+1,(File.read 1 ⟨content,pointer⟩).2)
      else searchNewline pos ⟨content,pos⟩ := by
  have hbyte : (content[pointer]?).toList = [lineFeed] ↔ content[pointer]? = some lineFeed := by
    cases content[pointer]? <;> simp
  rw [searchNewline]
  simp only [read_one,hbyte]
  rfl

/-- Bytes that are no line feed are passed over. -/
theorem searchNewline_skip {pos k : ℕ}
    (h : ∀ i, pos < i → i ≤ pos+k → content[i]? ≠ some lineFeed) :
    searchNewline (pos+k) ⟨content,pos+k⟩ = searchNewline pos ⟨content,pos⟩ := by
  induction k with
  | zero => rfl
  | succ k ih =>
      rw [← Nat.add_assoc,searchNewline_succ,if_neg (h (pos+k+1) (by omega) (by omega))]
      exact ih fun i hi hi' => h i hi (by omega)

/-- The search has stopped at a position; what follows it there. -/
theorem truncateLastLineOfFile_of_search {size pos : ℕ} (hsize : content.length = size+1)
    {f : File} (hcontent : f.content = content)
    (hsearch : searchNewline size ⟨content,content.length⟩ = some (pos,f)) :
    truncateLastLineOfFile content =
      some (content.take pos ++ if 0 < pos then [lineFeed] else []) := by
  have hseek : f.seek pos = some ⟨content,pos⟩ := by
    unfold File.seek
    rw [if_pos (Int.natCast_nonneg pos),Int.toNat_natCast,hcontent]
  unfold truncateLastLineOfFile File.seekEnd
  rw [hsize] at hsearch ⊢
  simp only [hsearch,Option.bind_eq_bind,Option.bind_some,hseek]
  split_ifs with hpos
  · have hnothing : (content.take pos).drop (pos+1) = [] := by
      rw [List.drop_eq_nil_iff]
      exact (List.length_take_le pos content).trans (Nat.le_succ pos)
    simp [File.truncate,File.write,List.take_take,hnothing]
  · simp [File.truncate]

theorem searchNewline_content {pos : ℕ} {f : File} {q : ℕ × File}
    (h : searchNewline pos f = some q) : q.2.content = f.content := by
  induction pos generalizing f with
  | zero =>
      cases h
      rfl
  | succ pos ih =>
      obtain ⟨content,pointer⟩ := f
      rw [searchNewline_succ] at h
      split_ifs at h with hbyte
      · cases h
        rfl
      · have hrest := ih h
        exact hrest

/-- Where the search ends, if the byte it is looking for is at `pos`, or nowhere
behind the first byte. -/
theorem searchNewline_found (pos : ℕ) (hlength : pos+2 ≤ content.length)
    (hlast : ∀ i, pos < i → i+2 ≤ content.length → content[i]? ≠ some lineFeed)
    (hfound : pos = 0 ∨ content[pos]? = some lineFeed) :
    ∃ f, searchNewline (content.length-1) ⟨content,content.length⟩ = some (pos,f) := by
  obtain ⟨k,hk⟩ : ∃ k, content.length = pos+k+2 := ⟨content.length-pos-2,by omega⟩
  have hend : content[content.length]? ≠ some lineFeed := by simp
  have hstart : content.length-1 = pos+k+1 := by omega
  rw [hstart,searchNewline_succ,if_neg hend,
    searchNewline_skip fun i hi hi' => hlast i hi (by omega)]
  rcases hfound with rfl | hfound
  · exact ⟨_,rfl⟩
  · cases pos with
    | zero => exact ⟨_,rfl⟩
    | succ pos =>
        rw [searchNewline_succ,if_pos hfound]
        exact ⟨_,rfl⟩

theorem terminated_append_singleton (l : Bytes) :
    terminated lineFeed (lines ++ [l]) = terminated lineFeed lines ++ (l ++ [lineFeed]) := by
  simp [terminated]

/-- Lines in front end with a line feed, which is not the first byte. -/
theorem terminated_last (hlines : ∀ l ∈ lines, l ≠ []) (hne : lines ≠ []) :
    ∃ s, terminated lineFeed lines = s ++ [lineFeed] ∧ s ≠ [] := by
  obtain ⟨ms,l,rfl⟩ := (List.eq_nil_or_concat lines).resolve_left hne
  refine ⟨terminated lineFeed ms ++ l,?_,?_⟩
  · rw [List.concat_eq_append,terminated_append_singleton,List.append_assoc]
  · intro h
    exact hlines l (by simp) (List.append_eq_nil_iff.mp h).2

/-- The last line goes, with what is behind it, if that is at most a line feed. -/
theorem truncateLastLineOfFile_last {last tail : Bytes} (hlines : ∀ l ∈ lines, l ≠ [])
    (hne : last ≠ []) (hlast : lineFeed ∉ last) (htail : tail = [] ∨ tail = [lineFeed]) :
    truncateLastLineOfFile (terminated lineFeed lines ++ (last ++ tail)) =
      some (terminated lineFeed lines) := by
  obtain ⟨content,hcontent⟩ : ∃ c, c = terminated lineFeed lines ++ (last ++ tail) := ⟨_,rfl⟩
  have hlastpos := List.length_pos_of_ne_nil hne
  have htaillen : tail.length ≤ 1 := by
    rcases htail with rfl | rfl <;> decide
  have hlength : content.length = (terminated lineFeed lines).length + (last.length + tail.length) := by
    rw [hcontent,List.length_append,List.length_append]
  obtain ⟨size,hsize⟩ : ∃ size, content.length = size+1 := ⟨content.length-1,by omega⟩
  -- the bytes of the last line that the search passes over
  have hpass : ∀ i, (terminated lineFeed lines).length ≤ i → i+2 ≤ content.length →
      content[i]? ≠ some lineFeed := by
    intro i hi hi' hfeed
    rw [hcontent,List.getElem?_append_right hi,List.getElem?_append_left (by omega)] at hfeed
    exact hlast (List.mem_of_getElem? hfeed)
  rw [← hcontent]
  rcases eq_or_ne lines [] with rfl | hlinesne
  · by_cases hone : size = 0
    · have hsearch : searchNewline size ⟨content,content.length⟩ =
          some (0,⟨content,content.length⟩) := by
        rw [hone]
        rfl
      exact truncateLastLineOfFile_of_search hsize rfl hsearch
    · obtain ⟨f,hf⟩ := searchNewline_found 0 (by omega)
        (fun i _ hi => hpass i (Nat.zero_le i) hi) (Or.inl rfl)
      rw [hsize,Nat.add_sub_cancel,← hsize] at hf
      exact truncateLastLineOfFile_of_search hsize (searchNewline_content hf) hf
  · obtain ⟨s,hs,hsne⟩ := terminated_last hlines hlinesne
    have hspos := List.length_pos_of_ne_nil hsne
    have hslength : (terminated lineFeed lines).length = s.length+1 := by
      rw [hs,List.length_append,List.length_singleton]
    have hcut : content = s ++ lineFeed :: (last ++ tail) := by
      rw [hcontent,hs,List.append_assoc]
      rfl
    have hfound : content[s.length]? = some lineFeed := by
      rw [hcut,List.getElem?_append_right le_rfl,Nat.sub_self]
      rfl
    obtain ⟨f,hf⟩ := searchNewline_found s.length (by omega) (fun i hi hi' => hpass i (by omega) hi')
      (Or.inr hfound)
    rw [hsize,Nat.add_sub_cancel,← hsize] at hf
    rw [truncateLastLineOfFile_of_search hsize (searchNewline_content hf) hf,if_pos hspos,hs,hcut,
      List.take_left' rfl]

/-- The cut leaves the lines but the last, each terminated. -/
theorem truncateLastLineOfFile_exact {lines : List Bytes} {content : Bytes}
    (hfile : IsFileOf lineFeed lines content) (hne : content ≠ [])
    (hlines : ∀ l ∈ lines, l ≠ [] ∧ lineFeed ∉ l) :
    truncateLastLineOfFile content = some (terminated lineFeed lines.dropLast) := by
  cases hfile with
  | terminated =>
      have hnonempty : lines ≠ [] := by
        rintro rfl
        exact hne rfl
      obtain ⟨init,last,rfl⟩ := (List.eq_nil_or_concat lines).resolve_left hnonempty
      rw [List.concat_eq_append] at hlines ⊢
      obtain ⟨hlast,hfeed⟩ := hlines last (by simp)
      rw [List.dropLast_concat,terminated_append_singleton]
      exact truncateLastLineOfFile_last (fun l hl => (hlines l (List.mem_append_left _ hl)).1) hlast
        hfeed (Or.inr rfl)
  | unterminated init last =>
      obtain ⟨hlast,hfeed⟩ := hlines last (by simp)
      have hcut := truncateLastLineOfFile_last
        (fun l hl => (hlines l (List.mem_append_left _ hl)).1) hlast hfeed (Or.inl rfl)
      rw [List.append_nil] at hcut
      rw [List.dropLast_concat]
      exact hcut

/-- Three lines, the last with and without a line feed, and one line of one byte with
nothing behind it. -/
theorem truncateLastLineOfFile_exact_byte :
    truncateLastLineOfFile [97,98,10,99,10,100,10] = some [97,98,10,99,10] ∧
    truncateLastLineOfFile [97,98,10,99,10,100] = some [97,98,10,99,10] ∧
    truncateLastLineOfFile [97] = some [] :=
  ⟨truncateLastLineOfFile_exact (.terminated [[97,98],[99],[100]]) (by decide) (by decide),
    truncateLastLineOfFile_exact (.unterminated [[97,98],[99]] [100]) (by decide) (by decide),
    truncateLastLineOfFile_exact (.unterminated [] [97]) (by decide) (by decide)⟩

/-- On an ASCII log the cut of the bytes is the cut of the text. -/
theorem truncateLastLineOfFile_bytes {lines : List Text} {last : Text}
    (hlines : ∀ l ∈ lines ++ [last], Clean l ∧ Ascii l) :
    truncateLastLineOfFile (bytes (unlines (lines ++ [last]))) =
      some (bytes (truncateLastLine (unlines (lines ++ [last])))) := by
  have hinit : ∀ l ∈ lines, Clean l := fun l hl => (hlines l (List.mem_append_left _ hl)).1
  obtain ⟨hlast,hascii⟩ := hlines last (by simp)
  have hfeed : lineFeed ∉ bytes last := by
    intro hmem
    have hbreak := hlast.2 '\n' (mem_bytes hascii (by decide) hmem)
    cases hbreak
  have hnonempty : ∀ l ∈ lines.map bytes, l ≠ [] := by
    intro l hl
    obtain ⟨m,hm,rfl⟩ := List.mem_map.mp hl
    exact fun h => (hinit m hm).1 (bytes_eq_nil.mp h)
  have hcut := truncateLastLineOfFile_last hnonempty (fun h => hlast.1 (bytes_eq_nil.mp h)) hfeed
    (Or.inr rfl)
  have hfile : ∀ ls : List Text, unlines ls = terminated '\n' ls := fun _ => rfl
  rw [truncateLastLine_unlines hinit hlast,hfile,hfile,bytes_terminated,bytes_terminated,
    List.map_append,List.map_singleton,terminated_append_singleton]
  exact hcut

end

end FlightsOptimizer.BinaryFile
