import Mathlib.Data.List.Infix
import Mathlib.Algebra.Order.Group.Nat
import Mathlib.Data.Int.Notation
import FlightsOptimizer.Framing

/-!
# Text

Strings as lists of characters, with the decimal literals of integers and the
string operations that take such literals out of a line again: splitting at a
separator and stripping white space. A literal that is read has ASCII digits and
at most a minus sign, which is what a written one has.
-/
namespace FlightsOptimizer

abbrev Text := List Char

namespace Text
open Framing

/-- `str(n)` of a natural number. -/
def digits (n : ℕ) : Text := Nat.toDigits 10 n

/-- `str(z)`. -/
def ofInt : ℤ → Text
  | .ofNat n => digits n
  | .negSucc n => '-' :: digits (n+1)

/-- `s.isdigit()`, of ASCII characters. -/
def AllDigits (s : Text) : Prop := s ≠ [] ∧ ∀ c ∈ s, c.isDigit = true

instance (s : Text) : Decidable (AllDigits s) :=
  @instDecidableAnd _ _ inferInstance (List.decidableBAll (fun c : Char => c.isDigit = true) s)

def toNat? (s : Text) : Option ℕ := if AllDigits s then some (Nat.ofDigitChars 10 s 0) else none

/-- `int(s)`. -/
def toInt? : Text → Option ℤ
  | '-' :: s => (toNat? s).map fun n => -(n : ℤ)
  | s => (toNat? s).map fun n => (n : ℤ)

/-- `s.startswith(start)`. -/
def startsWith (start s : Text) : Bool := start.isPrefixOf s

/-- `s.strip()`. -/
def strip (s : Text) : Text :=
  ((s.dropWhile Char.isWhitespace).reverse.dropWhile Char.isWhitespace).reverse

/-- `s.split(sep, maxsplit)`. -/
def splitMax (sep : Text) : ℕ → Text → List Text
  | 0, s => [s]
  | n+1, s =>
      match splitFirst sep s with
      | none => [s]
      | some (a,b) => a :: splitMax sep n b

/-- `s.split(sep)`, with no more cuts than characters. -/
def split (sep s : Text) : List Text := splitMax sep s.length s

theorem allDigits_digits (n : ℕ) : AllDigits (digits n) :=
  ⟨Nat.toDigits_ne_nil,fun _ hc => Nat.isDigit_of_mem_toDigits (by omega) (by omega) hc⟩

theorem toNat?_digits (n : ℕ) : toNat? (digits n) = some n := by
  unfold toNat?
  rw [if_pos (allDigits_digits n)]
  exact congrArg some Nat.ofDigitChars_ten_toDigits

theorem minus_not_digit : '-'.isDigit = false := rfl

theorem toInt?_of_digits {s : Text} (h : AllDigits s) :
    toInt? s = (toNat? s).map fun n => (n : ℤ) := by
  unfold toInt?
  split
  · next s =>
      have hminus := h.2 '-' List.mem_cons_self
      rw [minus_not_digit] at hminus
      cases hminus
  · rfl

/-- An integer is read back from its decimal literal. -/
theorem toInt?_ofInt (z : ℤ) : toInt? (ofInt z) = some z := by
  cases z with
  | ofNat n =>
      rw [ofInt,toInt?_of_digits (allDigits_digits n),toNat?_digits]
      rfl
  | negSucc n =>
      rw [ofInt,toInt?,toNat?_digits]
      rfl

theorem ofInt_injective : Function.Injective ofInt := by
  intro y z h
  have hy := toInt?_ofInt y
  rw [h,toInt?_ofInt] at hy
  exact (Option.some.inj hy).symm

theorem ofInt_ne_nil (z : ℤ) : ofInt z ≠ [] := by
  cases z with
  | ofNat n => exact (allDigits_digits n).1
  | negSucc n => exact List.cons_ne_nil _ _

theorem ofInt_chars {z : ℤ} {c : Char} (h : c ∈ ofInt z) : c = '-' ∨ c.isDigit = true := by
  cases z with
  | ofNat n => exact Or.inr ((allDigits_digits n).2 c h)
  | negSucc n =>
      rcases List.mem_cons.mp h with rfl | hc
      · exact Or.inl rfl
      · exact Or.inr ((allDigits_digits (n+1)).2 c hc)

/-- A character that is neither a minus sign nor a digit is in no literal. -/
theorem not_mem_ofInt {c : Char} (hm : c ≠ '-') (hd : c.isDigit = false) (z : ℤ) :
    c ∉ ofInt z := by
  intro h
  rcases ofInt_chars h with rfl | hc
  · exact hm rfl
  · rw [hd] at hc
    cases hc

theorem isWhitespace_of_isDigit {c : Char} (h : c.isDigit = true) : c.isWhitespace = false := by
  by_contra hw
  rw [Bool.not_eq_false] at hw
  simp only [Char.isWhitespace,Bool.or_eq_true,decide_eq_true_eq] at hw
  rcases hw with ((rfl | rfl) | rfl) | rfl <;> cases h

theorem ofInt_no_space {z : ℤ} {c : Char} (h : c ∈ ofInt z) : c.isWhitespace = false := by
  rcases ofInt_chars h with rfl | hc
  · rfl
  · exact isWhitespace_of_isDigit hc

theorem dropWhile_none {α : Type} {p : α → Bool} {s : List α} (h : ∀ c ∈ s, p c = false) :
    s.dropWhile p = s := by
  cases s with
  | nil => rfl
  | cons c s => simp [h c List.mem_cons_self]

/-- A space on either side of a text without white space is stripped. -/
theorem strip_spaces {s : Text} (h : ∀ c ∈ s, c.isWhitespace = false) (k l : ℕ) :
    strip (List.replicate k ' ' ++ s ++ List.replicate l ' ') = s := by
  have hdrop : ∀ (n : ℕ) (t : Text),
      (List.replicate n ' ' ++ t).dropWhile Char.isWhitespace = t.dropWhile Char.isWhitespace := by
    intro n t
    induction n with
    | zero => rfl
    | succ n ih => exact ih
  have hrev : ∀ c ∈ s.reverse, c.isWhitespace = false := fun c hc => h c (List.mem_reverse.mp hc)
  unfold strip
  rw [List.append_assoc,hdrop]
  cases s with
  | nil =>
      have hnil := hdrop l []
      rw [List.append_nil] at hnil
      rw [List.nil_append,hnil]
      rfl
  | cons c s =>
      have hc := h c List.mem_cons_self
      rw [List.cons_append,List.dropWhile_cons_of_neg (by simp [hc]),← List.cons_append,
        List.reverse_append,List.reverse_replicate,hdrop,dropWhile_none hrev,List.reverse_reverse]

theorem strip_ofInt (z : ℤ) : strip (ofInt z) = ofInt z := by
  simpa using strip_spaces (fun _ => ofInt_no_space (z := z)) 0 0

theorem strip_space_ofInt (z : ℤ) : strip (' ' :: ofInt z) = ofInt z := by
  simpa using strip_spaces (fun _ => ofInt_no_space (z := z)) 1 0

/-- A frame is clean of a delimiter that begins with what the frame may end with
and goes on with a symbol that the frame lacks. -/
theorem clean_of_not_mem {α : Type} {x : α} {frame a b : List α} (hf : x ∉ frame) (ha : x ∉ a) :
    Clean (a ++ x :: b) frame := by
  intro pre post h
  have heq : (frame ++ a) ++ (x :: b) = (pre ++ a) ++ (x :: (b ++ post)) := by
    simpa [List.append_assoc] using h
  rcases List.append_eq_append_iff.mp heq with ⟨r,-,hr⟩ | ⟨r,hr,hr'⟩
  · have hlen := congrArg List.length hr
    simp only [List.length_append,List.length_cons] at hlen
    exact List.eq_nil_of_length_eq_zero (by omega)
  · rcases r with _ | ⟨y,r⟩
    · have hb : b ++ post = b := (List.cons.inj hr').2
      simpa using hb
    · obtain ⟨rfl,-⟩ := List.cons.inj hr'
      have hx : x ∈ frame ++ a := by
        rw [hr]
        simp
      rcases List.mem_append.mp hx with hx | hx
      · exact absurd hx hf
      · exact absurd hx ha

theorem splitFirst_not_mem {α : Type} [DecidableEq α] {x : α} {delim s : List α} (hx : x ∈ delim)
    (hs : x ∉ s) : splitFirst delim s = none := by
  cases h : splitFirst delim s with
  | none => rfl
  | some p =>
      have heq := (splitFirst_some h).1
      exact absurd (by rw [heq]; simp [hx]) hs

theorem splitMax_none {sep s : Text} (h : splitFirst sep s = none) (n : ℕ) :
    splitMax sep n s = [s] := by
  cases n with
  | zero => rfl
  | succ n => rw [splitMax,h]

/-- Two parts around the one separator. -/
theorem split_two {sep a b : Text} (hne : sep ≠ []) (ha : Clean sep a)
    (hb : splitFirst sep b = none) : split sep (a ++ sep ++ b) = [a,b] := by
  have hpos := List.length_pos_of_ne_nil hne
  obtain ⟨n,hn⟩ : ∃ n, (a ++ sep ++ b).length = n+1 :=
    ⟨_,(Nat.succ_pred_eq_of_pos (by simp only [List.length_append]; omega)).symm⟩
  unfold split
  rw [hn,splitMax,splitFirst_clean ha]
  change a :: splitMax sep n b = _
  rw [splitMax_none hb]

/-- Parts that lack the separator come back, if there are cuts enough. -/
theorem splitMax_intercalate {c : Char} {parts : List Text} (hne : parts ≠ [])
    (hparts : ∀ p ∈ parts, c ∉ p) {n : ℕ} (hn : parts.length ≤ n+1) :
    splitMax [c] n ([c].intercalate parts) = parts := by
  induction parts generalizing n with
  | nil => exact absurd rfl hne
  | cons p ps ih =>
      have hp : c ∉ p := hparts p List.mem_cons_self
      cases ps with
      | nil =>
          rw [List.intercalate_singleton]
          exact splitMax_none (splitFirst_not_mem (List.mem_singleton_self c) hp) n
      | cons q qs =>
          have hclean : Clean ([] ++ c :: []) p := clean_of_not_mem hp List.not_mem_nil
          obtain ⟨k,rfl⟩ : ∃ k, n = k+1 := ⟨n-1,by simp only [List.length_cons] at hn; omega⟩
          have hrest := ih (List.cons_ne_nil q qs) (fun r hr => hparts r (List.mem_cons_of_mem p hr))
            (Nat.le_of_succ_le_succ hn)
          have hfirst : splitFirst [c] (p ++ [c] ++ [c].intercalate (q :: qs)) =
              some (p,[c].intercalate (q :: qs)) := splitFirst_clean hclean _
          rw [List.intercalate_cons_cons,splitMax,hfirst]
          change p :: splitMax [c] k ([c].intercalate (q :: qs)) = p :: q :: qs
          rw [hrest]

theorem length_le_intercalate (c : Char) (parts : List Text) :
    parts.length ≤ ([c].intercalate parts).length+1 := by
  induction parts with
  | nil => exact Nat.zero_le _
  | cons p ps ih =>
      cases ps with
      | nil => simp
      | cons q qs =>
          rw [List.intercalate_cons_cons]
          simp only [List.length_cons,List.length_append,List.length_nil] at ih ⊢
          omega

/-- A join at a separator is undone by a split at it. -/
theorem split_intercalate {c : Char} {parts : List Text} (hne : parts ≠ [])
    (hparts : ∀ p ∈ parts, c ∉ p) : split [c] ([c].intercalate parts) = parts :=
  splitMax_intercalate hne hparts (length_le_intercalate c parts)

end Text
end FlightsOptimizer
