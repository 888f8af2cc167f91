import Mathlib.Data.List.Infix
import Mathlib.Algebra.Order.Group.Nat
import FlightsOptimizer.Text

/-!
# Files of lines

A text file to which whole lines are appended, the reader that yields its lines
from the bottom to the top in chunks of bytes, and the cut that removes its last
line. A file is the list of its characters; of ASCII text each is a byte, so the
positions of the reader and of the cut are positions in the list.

The reader keeps the first, perhaps incomplete, line of a chunk and joins it to
the chunk before. Where a line is empty it can lose that line, so what is read
back is a file without empty lines.
-/
namespace FlightsOptimizer.LineFile

/-- The characters at which `splitlines` ends a line. -/
def isLineBreak (c : Char) : Bool :=
  c = '\n' || c = '\r' || c.toNat ∈ [11,12,28,29,30,0x85,0x2028,0x2029]

def consFirst (c : Char) : List Text → List Text
  | [] => [[c]]
  | l :: ls => (c :: l) :: ls

/-- `s.splitlines()`. A carriage return and the newline behind it end one line. -/
def splitlines : Text → List Text
  | [] => []
  | c :: s =>
      if isLineBreak c then
        match s with
        | [] => [[]]
        | d :: t => [] :: if c = '\r' ∧ d = '\n' then splitlines t else splitlines (d :: t)
      else consFirst c (splitlines s)

/-- The loop of `read_file_bottom_to_top_generator`, with what is left of the
file in front of the pointer. The first argument bounds the number of rounds,
each of which reads at least a byte. -/
def bottomToTop (chunkSize : ℕ) : ℕ → Text → Text → List Text
  | 0,_,remainder => if remainder = [] then [] else [remainder]
  | n+1,front,remainder =>
      if front = [] then if remainder = [] then [] else [remainder]
      else
        let readSize := min chunkSize front.length
        let position := front.length-readSize
        let lines := splitlines (front.drop position ++ remainder)
        lines.tail.reverse ++ bottomToTop chunkSize n (front.take position) (lines.headD [])

/-- The lines of a file from the bottom to the top. -/
def readBottomToTop (chunkSize : ℕ) (file : Text) : List Text :=
  bottomToTop chunkSize file.length file []

/-- The search for a newline from a position backwards. -/
def seekNewline (file : Text) : ℕ → ℕ
  | 0 => 0
  | pos+1 => if file[pos+1]? = some '\n' then pos+1 else seekNewline file pos

/-- `truncate_last_line_of_file`. The first read is at the end of the file, so
the search begins at the last but one character. -/
def truncateLastLine (file : Text) : Text :=
  let pos := seekNewline file (file.length-2)
  file.take pos ++ if 0 < pos then ['\n'] else []

/-- A file written line by line. -/
def unlines (ls : List Text) : Text := ls.flatMap fun l => l ++ ['\n']

/-- A line that can be told from its neighbours. -/
def Clean (l : Text) : Prop := l ≠ [] ∧ ∀ c ∈ l, isLineBreak c = false

/-- Nothing but newlines ends a line. -/
def Plain (s : Text) : Prop := ∀ c ∈ s, c = '\n' ∨ isLineBreak c = false

variable {l s : Text} {ls : List Text} {c : Char}

theorem splitlines_newline (s : Text) : splitlines ('\n' :: s) = [] :: splitlines s := by
  cases s with
  | nil => rfl
  | cons d t =>
      rw [splitlines]
      rfl

theorem splitlines_cons (hc : isLineBreak c = false) (s : Text) :
    splitlines (c :: s) = consFirst c (splitlines s) := by
  rw [splitlines.eq_def]
  simp [hc]

theorem splitlines_append (hl : ∀ c ∈ l, isLineBreak c = false) (s : Text) :
    splitlines (l ++ '\n' :: s) = l :: splitlines s := by
  induction l with
  | nil => exact splitlines_newline s
  | cons c l ih =>
      rw [List.cons_append,splitlines_cons (hl c List.mem_cons_self),
        ih fun d hd => hl d (List.mem_cons_of_mem c hd)]
      rfl

theorem unlines_cons (l : Text) (ls : List Text) :
    unlines (l :: ls) = l ++ '\n' :: unlines ls := by
  simp [unlines]

theorem unlines_append (ls ms : List Text) : unlines (ls ++ ms) = unlines ls ++ unlines ms :=
  List.flatMap_append

theorem splitlines_unlines_append (hls : ∀ l ∈ ls, Clean l) (s : Text) :
    splitlines (unlines ls ++ s) = ls ++ splitlines s := by
  induction ls with
  | nil => rfl
  | cons l ls ih =>
      have hrest := ih fun m hm => hls m (List.mem_cons_of_mem l hm)
      rw [unlines_cons,List.append_assoc,List.cons_append,
        splitlines_append (hls l List.mem_cons_self).2,hrest]
      rfl

/-- The lines of a written file are those that were written. -/
theorem splitlines_unlines (hls : ∀ l ∈ ls, Clean l) : splitlines (unlines ls) = ls := by
  have h := splitlines_unlines_append hls []
  rwa [List.append_nil,splitlines,List.append_nil] at h

theorem plain_unlines (hls : ∀ l ∈ ls, Clean l) : Plain (unlines ls) := by
  intro c hc
  obtain ⟨l,hl,hcl⟩ := List.mem_flatMap.mp hc
  rcases List.mem_append.mp hcl with hcl | hcl
  · exact Or.inr ((hls l hl).2 c hcl)
  · exact Or.inl (List.mem_singleton.mp hcl)

theorem splitlines_ne_nil (hs : s ≠ []) : splitlines s ≠ [] := by
  cases s with
  | nil => exact absurd rfl hs
  | cons c s =>
      rw [splitlines.eq_def]
      cases s with
      | nil =>
          simp only [splitlines,consFirst]
          split_ifs <;> simp
      | cons d t =>
          simp only
          split_ifs
          · simp
          · simp
          · cases splitlines (d :: t) <;> simp [consFirst]

/-- A line holds no line break. -/
theorem splitlines_clean (hs : Plain s) : ∀ l ∈ splitlines s, ∀ c ∈ l, isLineBreak c = false := by
  induction s with
  | nil => exact fun l hl => absurd hl List.not_mem_nil
  | cons c s ih =>
      have hrest := ih fun d hd => hs d (List.mem_cons_of_mem c hd)
      rcases hs c List.mem_cons_self with rfl | hc
      · rw [splitlines_newline]
        intro l hl
        rcases List.mem_cons.mp hl with rfl | hl
        · exact fun d hd => absurd hd List.not_mem_nil
        · exact hrest l hl
      · rw [splitlines_cons hc]
        cases hsplit : splitlines s with
        | nil =>
            intro l hl d hd
            rw [List.mem_singleton.mp hl,List.mem_singleton] at hd
            rw [hd]
            exact hc
        | cons m ms =>
            rw [hsplit] at hrest
            intro l hl d hd
            rcases List.mem_cons.mp hl with rfl | hl
            · rcases List.mem_cons.mp hd with rfl | hd
              · exact hc
              · exact hrest m List.mem_cons_self d hd
            · exact hrest l (List.mem_cons_of_mem m hl) d hd

theorem splitlines_line (hl : Clean l) : splitlines l = [l] := by
  obtain ⟨hne,hl⟩ := hl
  induction l with
  | nil => exact absurd rfl hne
  | cons c l ih =>
      rw [splitlines_cons (hl c List.mem_cons_self)]
      cases l with
      | nil => rfl
      | cons d l =>
          rw [ih (List.cons_ne_nil d l) fun e he => hl e (List.mem_cons_of_mem c he)]
          rfl

theorem consFirst_tail (c : Char) (ls : List Text) : (consFirst c ls).tail = ls.tail := by
  cases ls <;> rfl

theorem consFirst_append (hls : ls ≠ []) (c : Char) (ms : List Text) :
    consFirst c (ls ++ ms) = consFirst c ls ++ ms := by
  cases ls with
  | nil => exact absurd rfl hls
  | cons l ls => rfl

/-- A chunk can be read before what stands in front of it: only the first of its
lines may go on there. Without an empty line no newline is lost in between. -/
theorem splitlines_join {a b x : Text} {rest : List Text} (ha : Plain a)
    (hb : splitlines b = x :: rest) (hx : ∀ c ∈ x, isLineBreak c = false)
    (hne : [] ∉ (splitlines (a ++ b)).tail) (hax : a ≠ [] ∨ x ≠ []) :
    splitlines (a ++ b) = splitlines (a ++ x) ++ rest := by
  induction a with
  | nil =>
      rw [List.nil_append,List.nil_append,hb,splitlines_line ⟨hax.resolve_left (by simp),hx⟩]
      rfl
  | cons c a ih =>
      have ha' : Plain a := fun d hd => ha d (List.mem_cons_of_mem c hd)
      rw [List.cons_append] at hne ⊢
      rcases ha c List.mem_cons_self with rfl | hc
      · rw [splitlines_newline,List.tail_cons] at hne
        have hax' : a ≠ [] ∨ x ≠ [] := by
          by_contra hnil
          push Not at hnil
          obtain ⟨rfl,rfl⟩ := hnil
          rw [List.nil_append,hb] at hne
          exact hne List.mem_cons_self
        have htail : [] ∉ (splitlines (a ++ b)).tail := fun h => hne (List.mem_of_mem_tail h)
        rw [splitlines_newline,List.cons_append,splitlines_newline,ih ha' htail hax']
        rfl
      · rw [splitlines_cons hc,consFirst_tail] at hne
        rw [splitlines_cons hc,List.cons_append,splitlines_cons hc]
        rcases eq_or_ne (a ++ x) [] with hnil | hne'
        · obtain ⟨rfl,rfl⟩ := List.append_eq_nil_iff.mp hnil
          rw [List.nil_append,hb]
          rfl
        · have hax' : a ≠ [] ∨ x ≠ [] := by
            by_contra h
            push Not at h
            exact hne' (List.append_eq_nil_iff.mpr h)
          rw [ih ha' hne hax',consFirst_append (splitlines_ne_nil hne')]

theorem splitlines_remainder {remainder : Text} (hr : ∀ c ∈ remainder, isLineBreak c = false) :
    (splitlines remainder).reverse = if remainder = [] then [] else [remainder] := by
  split_ifs with hnil
  · rw [hnil]
    rfl
  · rw [splitlines_line ⟨hnil,hr⟩]
    rfl

/-- What the reader yields from a position on are the lines in front of it, the
last of them completed by the remainder. -/
theorem bottomToTop_eq {chunkSize : ℕ} (hchunk : 0 < chunkSize) {n : ℕ} {front remainder : Text}
    (hn : front.length ≤ n) (hs : Plain (front ++ remainder))
    (hr : ∀ c ∈ remainder, isLineBreak c = false) (hne : [] ∉ splitlines (front ++ remainder)) :
    bottomToTop chunkSize n front remainder = (splitlines (front ++ remainder)).reverse := by
  induction n generalizing front remainder with
  | zero =>
      have hnil : front = [] := List.eq_nil_of_length_eq_zero (by omega)
      rw [hnil,List.nil_append,splitlines_remainder hr]
      rfl
  | succ n ih =>
      rw [bottomToTop]
      by_cases hnil : front = []
      · rw [if_pos hnil,hnil,List.nil_append,splitlines_remainder hr]
      · rw [if_neg hnil]
        have hpos := List.length_pos_of_ne_nil hnil
        obtain ⟨position,hposition⟩ : ∃ p, p = front.length - min chunkSize front.length := ⟨_,rfl⟩
        have hlt : position < front.length := by omega
        simp only [← hposition]
        -- the chunk with the remainder behind it
        obtain ⟨a,ha⟩ : ∃ a, a = front.take position := ⟨_,rfl⟩
        obtain ⟨b,hb⟩ : ∃ b, b = front.drop position ++ remainder := ⟨_,rfl⟩
        have hab : front ++ remainder = a ++ b := by
          rw [ha,hb,← List.append_assoc,List.take_append_drop]
        rw [hab] at hs hne
        have hplain := List.forall_mem_append.mp hs
        have hbne : b ≠ [] := by
          rw [hb]
          intro h
          have hdrop := (List.append_eq_nil_iff.mp h).1
          rw [List.drop_eq_nil_iff] at hdrop
          omega
        obtain ⟨x,rest,hx⟩ := List.exists_cons_of_ne_nil (splitlines_ne_nil hbne)
        have hxclean := splitlines_clean hplain.2 x (by rw [hx]; exact List.mem_cons_self)
        have hjoin : splitlines (a ++ b) = splitlines (a ++ x) ++ rest := by
          refine splitlines_join hplain.1 hx hxclean (fun h => hne (List.mem_of_mem_tail h)) ?_
          by_contra hax
          push Not at hax
          obtain ⟨rfl,rfl⟩ := hax
          rw [List.nil_append,hx] at hne
          exact hne List.mem_cons_self
        rw [hab,hjoin,List.reverse_append,← hb,← ha,hx,List.tail_cons,List.headD_cons]
        rw [hjoin] at hne
        congr 1
        refine ih ?_ ?_ hxclean fun h => hne (List.mem_append_left rest h)
        · rw [ha,List.length_take]
          omega
        · exact List.forall_mem_append.mpr ⟨hplain.1,fun c hc => Or.inr (hxclean c hc)⟩

/-- A file of clean lines is read from its last line to its first. -/
theorem readBottomToTop_unlines {chunkSize : ℕ} (hchunk : 0 < chunkSize)
    (hls : ∀ l ∈ ls, Clean l) : readBottomToTop chunkSize (unlines ls) = ls.reverse := by
  have hsplit := splitlines_unlines hls
  have happend := List.append_nil (unlines ls)
  unfold readBottomToTop
  rw [bottomToTop_eq hchunk le_rfl,happend,hsplit]
  · rw [happend]
    exact plain_unlines hls
  · exact fun c hc => absurd hc List.not_mem_nil
  · rw [happend,hsplit]
    exact fun hmem => (hls [] hmem).1 rfl

theorem seekNewline_skip {file : Text} {pos k : ℕ}
    (h : ∀ i, pos < i → i ≤ pos+k → file[i]? ≠ some '\n') :
    seekNewline file (pos+k) = seekNewline file pos := by
  induction k with
  | zero => rfl
  | succ k ih =>
      rw [← Nat.add_assoc,seekNewline,if_neg (h (pos+k+1) (by omega) (by omega))]
      exact ih fun i hi hi' => h i hi (by omega)

/-- A file that is not empty ends with a newline, which is not its first
character. -/
theorem unlines_last (hls : ∀ l ∈ ls, Clean l) (hne : ls ≠ []) :
    ∃ s, unlines ls = s ++ ['\n'] ∧ s ≠ [] := by
  obtain ⟨ms,l,rfl⟩ := (List.eq_nil_or_concat ls).resolve_left hne
  have hl := hls l (by simp)
  refine ⟨unlines ms ++ l,by simp [unlines],?_⟩
  intro h
  exact hl.1 (List.append_eq_nil_iff.mp h).2

/-- The cut takes away the last line and nothing else. -/
theorem truncateLastLine_unlines (hls : ∀ l ∈ ls, Clean l) (hl : Clean l) :
    truncateLastLine (unlines (ls ++ [l])) = unlines ls := by
  have hlpos := List.length_pos_of_ne_nil hl.1
  have hfile : unlines (ls ++ [l]) = unlines ls ++ (l ++ ['\n']) := by simp [unlines]
  have hlast : ∀ i, (unlines ls).length ≤ i → i ≤ (unlines ls).length+(l.length-1) →
      (unlines (ls ++ [l]))[i]? ≠ some '\n' := by
    intro i hi hi' h
    rw [hfile,List.getElem?_append_right hi,List.getElem?_append_left (by omega)] at h
    have hbreak := hl.2 '\n' (List.mem_of_getElem? h)
    cases hbreak
  have hlen : (unlines (ls ++ [l])).length-2 = (unlines ls).length+(l.length-1) := by
    rw [hfile]
    simp only [List.length_append,List.length_singleton]
    omega
  unfold truncateLastLine
  rw [hlen]
  rcases eq_or_ne ls [] with rfl | hne
  · rw [seekNewline_skip fun i hi => hlast i (Nat.le_of_lt hi)]
    rfl
  · obtain ⟨s,hs,hsne⟩ := unlines_last hls hne
    obtain ⟨k,hk⟩ : ∃ k, s.length = k+1 :=
      ⟨_,(Nat.succ_pred_eq_of_pos (List.length_pos_of_ne_nil hsne)).symm⟩
    have hslen : (unlines ls).length = k+1+1 := by
      rw [hs,List.length_append,hk]
      rfl
    have hstart : (unlines ls).length+(l.length-1) = k+1+l.length := by omega
    have hnewline : (unlines (ls ++ [l]))[k+1]? = some '\n' := by
      rw [hfile,hs,List.append_assoc,List.getElem?_append_right (by omega)]
      simp [hk]
    rw [hstart,seekNewline_skip fun i hi hi' => hlast i (by omega) (by omega),seekNewline,
      if_pos hnewline]
    change List.take (k+1) (unlines (ls ++ [l])) ++ ['\n'] = unlines ls
    rw [hfile,hs,List.append_assoc,List.take_append_of_le_length (by omega),← hk,List.take_length]

end FlightsOptimizer.LineFile
