import Mathlib.Algebra.Order.Group.Nat
import FlightsOptimizer.Text

/-!
# JSON

The values that a log line can hold, the writer with its default separators and
its ASCII-only strings, and the reader. The reader accepts white space where the
grammar allows it and leaves out floats, which are never written here. An object
is the list of its members as they stand in the text; whoever reads it as a
dictionary lets a later member replace an earlier one of the same key.

What is written is printable ASCII on one line and is read back.
-/
namespace FlightsOptimizer

inductive Json
  | null
  | bool (b : Bool)
  | int (z : ℤ)
  | str (s : Text)
  | arr (items : List Json)
  | obj (members : List (Text × Json))

namespace Json
open Text

/-- `\uXXXX`. -/
def unicode (n : ℕ) : Text :=
  ['\\','u',Nat.digitChar (n/4096),Nat.digitChar (n/256%16),Nat.digitChar (n/16%16),
    Nat.digitChar (n%16)]

/-- The UTF-16 code units of a character. -/
def units (c : Char) : List ℕ :=
  if c.toNat < 0x10000 then [c.toNat]
  else [0xd800+(c.toNat-0x10000)/0x400,0xdc00+(c.toNat-0x10000)%0x400]

/-- The letter that stands for a character behind a backslash. -/
def shortEscape (c : Char) : Option Char :=
  if c = '"' then some '"'
  else if c = '\\' then some '\\'
  else if c = '\n' then some 'n'
  else if c = '\r' then some 'r'
  else if c = '\t' then some 't'
  else if c.toNat = 12 then some 'f'
  else if c.toNat = 8 then some 'b'
  else none

/-- `ensure_ascii`: from the space to the tilde a character stands for itself. -/
def escape (c : Char) : Text :=
  match shortEscape c with
  | some e => ['\\',e]
  | none => if 32 ≤ c.toNat ∧ c.toNat ≤ 126 then [c] else (units c).flatMap unicode

def dumpString (s : Text) : Text := '"' :: s.flatMap escape ++ ['"']

/-- `int(digit, 16)`. -/
def hexValue (c : Char) : Option ℕ :=
  if '0' ≤ c ∧ c ≤ '9' then some (c.toNat-48)
  else if 'a' ≤ c ∧ c ≤ 'f' then some (c.toNat-87)
  else if 'A' ≤ c ∧ c ≤ 'F' then some (c.toNat-55)
  else none

/-- The character that a letter stands for behind a backslash. -/
def unescape (e : Char) : Option ℕ :=
  if e = '"' then some 34
  else if e = '\\' then some 92
  else if e = '/' then some 47
  else if e = 'b' then some 8
  else if e = 'f' then some 12
  else if e = 'n' then some 10
  else if e = 'r' then some 13
  else if e = 't' then some 9
  else none

/-- The code units of a string up to its closing quote, and what follows it. A
control character stands in no string. -/
def scanUnits : Text → Option (List ℕ × Text)
  | [] => none
  | c :: s =>
      if c = '"' then some ([],s)
      else if c = '\\' then
        match s with
        | [] => none
        | e :: s =>
            if e = 'u' then
              match s with
              | a :: b :: d :: e :: s => do
                  let a ← hexValue a
                  let b ← hexValue b
                  let d ← hexValue d
                  let e ← hexValue e
                  let (us,rest) ← scanUnits s
                  some ((4096*a+256*b+16*d+e) :: us,rest)
              | _ => none
            else do
              let n ← unescape e
              let (us,rest) ← scanUnits s
              some (n :: us,rest)
      else if c.toNat < 32 then none
      else do
        let (us,rest) ← scanUnits s
        some (c.toNat :: us,rest)

/-- Surrogates come in pairs. -/
def joinUnits : List ℕ → Option Text
  | [] => some []
  | n :: us =>
      if 0xd800 ≤ n ∧ n ≤ 0xdbff then
        match us with
        | m :: us =>
            if 0xdc00 ≤ m ∧ m ≤ 0xdfff then
              (joinUnits us).map (Char.ofNat (0x10000+(n-0xd800)*0x400+(m-0xdc00)) :: ·)
            else none
        | [] => none
      else if 0xdc00 ≤ n ∧ n ≤ 0xdfff then none
      else (joinUnits us).map (Char.ofNat n :: ·)

/-- A string behind its opening quote. -/
def scanString (s : Text) : Option (Text × Text) := do
  let (us,rest) ← scanUnits s
  let s ← joinUnits us
  some (s,rest)

mutual

/-- `json.dumps`. -/
def dumps : Json → Text
  | .null => "null".toList
  | .bool true => "true".toList
  | .bool false => "false".toList
  | .int z => ofInt z
  | .str s => dumpString s
  | .arr [] => ['[',']']
  | .arr (v :: vs) => '[' :: (dumps v ++ dumpItems vs)
  | .obj [] => ['{','}']
  | .obj (m :: ms) => '{' :: (dumpString m.1 ++ ':' :: ' ' :: (dumps m.2 ++ dumpMembers ms))

def dumpItems : List Json → Text
  | [] => [']']
  | v :: vs => ',' :: ' ' :: (dumps v ++ dumpItems vs)

def dumpMembers : List (Text × Json) → Text
  | [] => ['}']
  | m :: ms => ',' :: ' ' :: (dumpString m.1 ++ ':' :: ' ' :: (dumps m.2 ++ dumpMembers ms))

end

def isSpace (c : Char) : Bool := c = ' ' || c = '\t' || c = '\n' || c = '\r'

def skip (s : Text) : Text := s.dropWhile isSpace

/-- A number that goes on like this is a float. -/
def isFloat (rest : Text) : Bool := rest.head?.any fun c => c = '.' || c = 'e' || c = 'E'

def integral (n : ℕ) (rest : Text) : Option (ℕ × Text) :=
  if isFloat rest then none else some (n,rest)

def natural : Text → Option (ℕ × Text)
  | [] => none
  | c :: s =>
      if c = '0' then integral 0 s
      else if c.isDigit then
        integral (Nat.ofDigitChars 10 (c :: s.takeWhile Char.isDigit) 0) (s.dropWhile Char.isDigit)
      else none

def number : Text → Option (ℤ × Text)
  | '-' :: s => (natural s).map fun p => (-(p.1 : ℤ),p.2)
  | s => (natural s).map fun p => ((p.1 : ℤ),p.2)

def literal (word : String) (v : Json) (s : Text) : Option (Json × Text) :=
  if startsWith word.toList s then some (v,s.drop word.length) else none

def scalar (s : Text) : Option (Json × Text) :=
  (literal "null" .null s).or ((literal "true" (.bool true) s).or
    ((literal "false" (.bool false) s).or ((number s).map fun p => (.int p.1,p.2))))

/-- What follows an expected character. -/
def closed (c : Char) (s : Text) : Option Text :=
  match s with
  | [] => none
  | d :: s => if d = c then some s else none

mutual

/-- One value and what follows it. The first argument bounds the nesting and is
never short for the length of the text. -/
def value : ℕ → Text → Option (Json × Text)
  | 0,_ => none
  | _+1,[] => none
  | n+1,c :: s =>
      if c = '"' then (scanString s).map fun p => (.str p.1,p.2)
      else if c = '[' then
        match closed ']' (skip s) with
        | some rest => some (.arr [],rest)
        | none => (items n (skip s)).map fun p => (.arr p.1,p.2)
      else if c = '{' then
        match closed '}' (skip s) with
        | some rest => some (.obj [],rest)
        | none => (members n (skip s)).map fun p => (.obj p.1,p.2)
      else scalar (c :: s)

/-- The values of an array up to its closing bracket. -/
def items : ℕ → Text → Option (List Json × Text)
  | 0,_ => none
  | n+1,s =>
      (value n s).bind fun p =>
        match closed ']' (skip p.2) with
        | some rest => some ([p.1],rest)
        | none => (closed ',' (skip p.2)).bind fun rest =>
            (items n (skip rest)).map fun q => (p.1 :: q.1,q.2)

/-- The members of an object up to its closing brace. -/
def members : ℕ → Text → Option (List (Text × Json) × Text)
  | 0,_ => none
  | n+1,s =>
      (closed '"' s).bind fun s => (scanString s).bind fun k =>
        (closed ':' (skip k.2)).bind fun s => (value n (skip s)).bind fun p =>
          match closed '}' (skip p.2) with
          | some rest => some ([(k.1,p.1)],rest)
          | none => (closed ',' (skip p.2)).bind fun rest =>
              (members n (skip rest)).map fun q => ((k.1,p.1) :: q.1,q.2)

end

/-- `json.loads`. -/
def loads (s : Text) : Option Json :=
  match value (s.length+1) (skip s) with
  | some (v,rest) => if skip rest = [] then some v else none
  | none => none

theorem scanUnits_quote (s : Text) : scanUnits ('"' :: s) = some ([],s) := by
  rw [scanUnits.eq_def]
  simp

theorem scanUnits_short {e : Char} (he : e ≠ 'u') {n : ℕ} (hn : unescape e = some n) (s : Text) :
    scanUnits ('\\' :: e :: s) = (scanUnits s).map fun p => (n :: p.1,p.2) := by
  rw [scanUnits.eq_def]
  simp only [he,hn]
  cases scanUnits s <;> simp

theorem scanUnits_plain {c : Char} (hq : c ≠ '"') (hb : c ≠ '\\') (hc : 32 ≤ c.toNat) (s : Text) :
    scanUnits (c :: s) = (scanUnits s).map fun p => (c.toNat :: p.1,p.2) := by
  rw [scanUnits.eq_def]
  simp only [hq,hb,Nat.not_lt.mpr hc]
  cases scanUnits s <;> simp

theorem hexValue_digitChar : ∀ d < 16, hexValue (Nat.digitChar d) = some d := by decide

theorem scanUnits_unicode {n : ℕ} (hn : n < 0x10000) (s : Text) :
    scanUnits (unicode n ++ s) = (scanUnits s).map fun p => (n :: p.1,p.2) := by
  have hd := hexValue_digitChar
  have hsum : 4096*(n/4096)+256*(n/256%16)+16*(n/16%16)+n%16 = n := by omega
  simp only [unicode,List.cons_append,List.nil_append]
  rw [scanUnits.eq_def]
  simp only [hd (n/4096) (by omega),hd (n/256%16) (by omega),hd (n/16%16) (by omega),
    hd (n%16) (by omega)]
  cases scanUnits s <;> simp [hsum]

theorem scanUnits_unicodes {us : List ℕ} (hus : ∀ n ∈ us, n < 0x10000) (s : Text) :
    scanUnits (us.flatMap unicode ++ s) = (scanUnits s).map fun p => (us ++ p.1,p.2) := by
  induction us with
  | nil => cases h : scanUnits s <;> simp [h]
  | cons n us ih =>
      have hrest := ih fun m hm => hus m (List.mem_cons_of_mem n hm)
      rw [List.flatMap_cons,List.append_assoc,scanUnits_unicode (hus n List.mem_cons_self),hrest]
      cases scanUnits s <;> rfl

theorem toNat_lt (c : Char) : c.toNat < 0x110000 := by
  have hv := c.valid
  simp only [UInt32.isValidChar,Nat.isValidChar] at hv
  change c.val.toNat < _
  omega

/-- A character is no surrogate. -/
theorem not_surrogate (c : Char) : ¬(0xd800 ≤ c.toNat ∧ c.toNat ≤ 0xdfff) := by
  have hv := c.valid
  simp only [UInt32.isValidChar,Nat.isValidChar] at hv
  change ¬(_ ≤ c.val.toNat ∧ c.val.toNat ≤ _)
  omega

theorem units_lt {c : Char} {n : ℕ} (h : n ∈ units c) : n < 0x10000 := by
  have hc := toNat_lt c
  unfold units at h
  split_ifs at h with hs
  · rw [List.mem_singleton.mp h]
    exact hs
  · simp only [List.mem_cons,List.not_mem_nil,or_false] at h
    omega

/-- A short escape is undone, and stands for a single code unit. -/
theorem unescape_short {c e : Char} (h : shortEscape c = some e) :
    unescape e = some c.toNat ∧ e ≠ 'u' ∧ units c = [c.toNat] := by
  unfold shortEscape at h
  iterate 5
    rcases ite_eq_iff.mp h with ⟨rfl,he⟩ | ⟨-,h⟩
    · cases he
      exact ⟨rfl,by decide,rfl⟩
  -- the form feed and the backspace are given by their codes
  iterate 2
    rcases ite_eq_iff.mp h with ⟨hcode,he⟩ | ⟨-,h⟩
    · cases he
      refine ⟨?_,by decide,if_pos (by omega)⟩
      rw [hcode]
      rfl
  cases h

theorem scanUnits_escape (c : Char) (s : Text) :
    scanUnits (escape c ++ s) = (scanUnits s).map fun p => (units c ++ p.1,p.2) := by
  unfold escape
  cases hs : shortEscape c with
  | some e =>
      obtain ⟨hu,hne,hunits⟩ := unescape_short hs
      rw [hunits]
      exact scanUnits_short hne hu s
  | none =>
      change scanUnits ((if 32 ≤ c.toNat ∧ c.toNat ≤ 126 then [c] else _) ++ s) = _
      split_ifs with hp
      · have hq : c ≠ '"' := by
          rintro rfl
          cases hs
        have hb : c ≠ '\\' := by
          rintro rfl
          cases hs
        have hunits : units c = [c.toNat] := if_pos (by omega)
        rw [hunits]
        exact scanUnits_plain hq hb hp.1 s
      · exact scanUnits_unicodes (fun _ => units_lt) s

theorem joinUnits_units (c : Char) (us : List ℕ) :
    joinUnits (units c ++ us) = (joinUnits us).map (c :: ·) := by
  have hc := toNat_lt c
  have hs := not_surrogate c
  unfold units
  split_ifs with h
  · rw [List.singleton_append,joinUnits.eq_def]
    have hhigh : ¬(0xd800 ≤ c.toNat ∧ c.toNat ≤ 0xdbff) := by omega
    have hlow : ¬(0xdc00 ≤ c.toNat ∧ c.toNat ≤ 0xdfff) := by omega
    simp only [hhigh,hlow,if_false,Char.ofNat_toNat]
  · have hhigh : 0xd800 ≤ 0xd800+(c.toNat-0x10000)/0x400 ∧
        0xd800+(c.toNat-0x10000)/0x400 ≤ 0xdbff := by omega
    have hlow : 0xdc00 ≤ 0xdc00+(c.toNat-0x10000)%0x400 ∧
        0xdc00+(c.toNat-0x10000)%0x400 ≤ 0xdfff := by omega
    have hsum : 0x10000+(0xd800+(c.toNat-0x10000)/0x400-0xd800)*0x400+
        (0xdc00+(c.toNat-0x10000)%0x400-0xdc00) = c.toNat := by omega
    rw [List.cons_append,List.singleton_append,joinUnits.eq_def]
    simp only [hhigh,hlow,hsum,Char.ofNat_toNat]
    rfl

/-- A written string is read back, and nothing behind it is touched. -/
theorem scanString_dump (s rest : Text) :
    scanString (s.flatMap escape ++ '"' :: rest) = some (s,rest) := by
  have hscan : scanUnits (s.flatMap escape ++ '"' :: rest) = some (s.flatMap units,rest) := by
    induction s with
    | nil => exact scanUnits_quote rest
    | cons c s ih =>
        rw [List.flatMap_cons,List.append_assoc,scanUnits_escape,ih,List.flatMap_cons]
        rfl
  have hjoin : ∀ t : Text, joinUnits (t.flatMap units) = some t := by
    intro t
    induction t with
    | nil => rfl
    | cons c t ih => rw [List.flatMap_cons,joinUnits_units,ih,Option.map_some]
  unfold scanString
  rw [hscan]
  change (joinUnits (s.flatMap units)).bind _ = _
  rw [hjoin]
  rfl

/-- What stands behind a written value: nothing, or the punctuation of the array
or object that the value is in. -/
def Ends (rest : Text) : Prop := ∀ c ∈ rest.head?, c = ',' ∨ c = ']' ∨ c = '}'

theorem Ends.isDigit {c : Char} {rest : Text} (h : Ends (c :: rest)) : c.isDigit = false := by
  rcases h c rfl with rfl | rfl | rfl <;> rfl

theorem Ends.isFloat {rest : Text} (h : Ends rest) : isFloat rest = false := by
  cases rest with
  | nil => rfl
  | cons c rest => rcases h c rfl with rfl | rfl | rfl <;> rfl

theorem ends_items (vs : List Json) (rest : Text) : Ends (dumpItems vs ++ rest) := by
  cases vs <;> simp [Ends,dumpItems]

theorem ends_members (ms : List (Text × Json)) (rest : Text) : Ends (dumpMembers ms ++ rest) := by
  cases ms <;> simp [Ends,dumpMembers]

theorem takeWhile_digits {s rest : Text} (hs : ∀ c ∈ s, c.isDigit = true) (h : Ends rest) :
    (s ++ rest).takeWhile Char.isDigit = s ∧ (s ++ rest).dropWhile Char.isDigit = rest := by
  induction s with
  | nil =>
      cases rest with
      | nil => exact ⟨rfl,rfl⟩
      | cons c rest => simp [h.isDigit]
  | cons c s ih =>
      have hc := hs c List.mem_cons_self
      obtain ⟨htake,hdrop⟩ := ih fun d hd => hs d (List.mem_cons_of_mem c hd)
      simp [hc,htake,hdrop]

/-- A literal of more than one digit does not begin with zero. -/
theorem digits_head {n : ℕ} (hn : 0 < n) : ∃ c s, digits n = c :: s ∧ c ≠ '0' := by
  induction n using Nat.strong_induction_on with
  | _ n ih =>
      rcases Nat.lt_or_ge n 10 with hlt | hge
      · refine ⟨Nat.digitChar n,[],Nat.toDigits_of_lt_base hlt,?_⟩
        rw [ne_eq,Nat.digitChar_eq_zero]
        omega
      · obtain ⟨c,s,hs,hc⟩ := ih (n/10) (by omega) (by omega)
        refine ⟨c,s ++ [Nat.digitChar (n%10)],?_,hc⟩
        unfold digits at hs ⊢
        rw [Nat.toDigits_of_base_le (by omega) hge,hs]
        rfl

theorem natural_digits (n : ℕ) {rest : Text} (h : Ends rest) :
    natural (digits n ++ rest) = some (n,rest) := by
  have hint : ∀ m, integral m rest = some (m,rest) := by
    intro m
    unfold integral
    rw [h.isFloat]
    rfl
  rcases Nat.eq_zero_or_pos n with rfl | hn
  · exact hint 0
  · obtain ⟨c,s,hs,hc⟩ := digits_head hn
    have hall := (allDigits_digits n).2
    have hread := toNat?_digits n
    rw [hs] at hall hread ⊢
    obtain ⟨htake,hdrop⟩ := takeWhile_digits (fun d hd => hall d (List.mem_cons_of_mem c hd)) h
    rw [List.cons_append,natural,if_neg hc,if_pos (hall c List.mem_cons_self),htake,hdrop,hint]
    unfold toNat? at hread
    rw [if_pos ⟨List.cons_ne_nil c s,hall⟩] at hread
    rw [Option.some.inj hread]

theorem number_of_head {c : Char} (hc : c ≠ '-') (s : Text) :
    number (c :: s) = (natural (c :: s)).map fun p => ((p.1 : ℤ),p.2) := by
  unfold number
  split
  · next heq => exact absurd (List.cons.inj heq).1 hc
  · rfl

theorem number_ofInt (z : ℤ) {rest : Text} (h : Ends rest) :
    number (ofInt z ++ rest) = some (z,rest) := by
  cases z with
  | ofNat n =>
      obtain ⟨hne,hall⟩ := allDigits_digits n
      have hread := natural_digits n h
      obtain ⟨c,s,hs⟩ := List.exists_cons_of_ne_nil hne
      have hc : c ≠ '-' := by
        rintro rfl
        have hd := hall '-' (by rw [hs]; exact List.mem_cons_self)
        cases hd
      rw [hs,List.cons_append] at hread
      rw [ofInt,hs,List.cons_append,number_of_head hc,hread]
      rfl
  | negSucc n =>
      rw [ofInt,List.cons_append,number,natural_digits (n+1) h]
      rfl

/-- A number is none of the three words. -/
theorem literal_ofInt {word : String} {c : Char} {w : Text} (hw : word.toList = c :: w)
    (hm : c ≠ '-') (hd : c.isDigit = false) (v : Json) (z : ℤ) (rest : Text) :
    literal word v (ofInt z ++ rest) = none := by
  obtain ⟨d,s,hds⟩ := List.exists_cons_of_ne_nil (ofInt_ne_nil z)
  have hcd : c ≠ d := by
    rintro rfl
    refine not_mem_ofInt hm hd z ?_
    rw [hds]
    exact List.mem_cons_self
  unfold literal startsWith
  rw [hw,hds,List.cons_append,List.isPrefixOf_cons_cons]
  simp [hcd]

theorem scalar_ofInt (z : ℤ) {rest : Text} (h : Ends rest) :
    scalar (ofInt z ++ rest) = some (.int z,rest) := by
  unfold scalar
  have hnull : "null".toList = 'n' :: ['u','l','l'] := rfl
  have htrue : "true".toList = 't' :: ['r','u','e'] := rfl
  have hfalse : "false".toList = 'f' :: ['a','l','s','e'] := rfl
  rw [literal_ofInt hnull (by decide) rfl,literal_ofInt htrue (by decide) rfl,
    literal_ofInt hfalse (by decide) rfl,number_ofInt z h]
  rfl

theorem skip_cons {c : Char} (hc : isSpace c = false) (s : Text) : skip (c :: s) = c :: s := by
  unfold skip
  rw [List.dropWhile_cons_of_neg (by simp [hc])]

/-- A value begins with a character that opens no space and closes nothing. -/
theorem dumps_head (v : Json) :
    ∃ c s, dumps v = c :: s ∧ isSpace c = false ∧ c ≠ ']' := by
  cases v with
  | null => exact ⟨'n',_,rfl,rfl,by decide⟩
  | bool b => cases b <;> exact ⟨_,_,rfl,rfl,by decide⟩
  | int z =>
      obtain ⟨c,s,hs⟩ := List.exists_cons_of_ne_nil (ofInt_ne_nil z)
      refine ⟨c,s,by rw [dumps,hs],?_⟩
      have hmem : c ∈ ofInt z := by
        rw [hs]
        exact List.mem_cons_self
      constructor
      · by_contra hsp
        simp only [isSpace,Bool.not_eq_false,Bool.or_eq_true,decide_eq_true_eq] at hsp
        rcases hsp with ((rfl | rfl) | rfl) | rfl <;>
          exact not_mem_ofInt (by decide) (by decide) z hmem
      · rintro rfl
        exact not_mem_ofInt (by decide) (by decide) z hmem
  | str s => exact ⟨'"',_,rfl,rfl,by decide⟩
  | arr vs => cases vs <;> exact ⟨'[',_,rfl,rfl,by decide⟩
  | obj ms => cases ms <;> exact ⟨'{',_,rfl,rfl,by decide⟩

theorem skip_dumps (v : Json) (rest : Text) : skip (dumps v ++ rest) = dumps v ++ rest := by
  obtain ⟨c,s,hs,hc,_⟩ := dumps_head v
  rw [hs,List.cons_append,skip_cons hc]

theorem skip_space (s : Text) : skip (' ' :: s) = skip s := rfl

@[simp] theorem closed_self (c : Char) (s : Text) : closed c (c :: s) = some s := if_pos rfl

theorem closed_ne {c d : Char} (h : d ≠ c) (s : Text) : closed c (d :: s) = none := if_neg h

theorem value_string {n : ℕ} (s rest : Text) :
    value (n+1) (dumpString s ++ rest) = some (.str s,rest) := by
  have hs : dumpString s ++ rest = '"' :: (s.flatMap escape ++ '"' :: rest) := by
    simp [dumpString]
  rw [hs,value,if_pos rfl,scanString_dump]
  rfl

theorem value_int {n : ℕ} (z : ℤ) {rest : Text} (h : Ends rest) :
    value (n+1) (ofInt z ++ rest) = some (.int z,rest) := by
  have hscalar := scalar_ofInt z h
  obtain ⟨c,s,hs⟩ := List.exists_cons_of_ne_nil (ofInt_ne_nil z)
  have hc : ∀ d : Char, d ≠ '-' → d.isDigit = false → c ≠ d := by
    rintro d hm hd rfl
    refine not_mem_ofInt hm hd z ?_
    rw [hs]
    exact List.mem_cons_self
  rw [hs,List.cons_append] at hscalar ⊢
  rw [value,if_neg (hc _ (by decide) rfl),if_neg (hc _ (by decide) rfl),
    if_neg (hc _ (by decide) rfl),hscalar]

/-- What the reader does within a bound on the length of what was written. -/
structure Reads (n : ℕ) : Prop where
  value : ∀ v rest, (dumps v).length ≤ n → Ends rest → value n (dumps v ++ rest) = some (v,rest)
  items : ∀ v vs rest, (dumps v ++ dumpItems vs).length ≤ n →
    items n (dumps v ++ (dumpItems vs ++ rest)) = some (v :: vs,rest)
  members : ∀ (m : Text × Json) ms rest,
    (dumpString m.1 ++ ':' :: ' ' :: (dumps m.2 ++ dumpMembers ms)).length ≤ n →
    members n (dumpString m.1 ++ ':' :: ' ' :: (dumps m.2 ++ (dumpMembers ms ++ rest))) =
      some (m :: ms,rest)

variable {n : ℕ}

theorem length_dumps_pos (v : Json) : 0 < (dumps v).length := by
  obtain ⟨c,s,hs,_⟩ := dumps_head v
  rw [hs]
  exact Nat.succ_pos _

theorem closed_dumps (v : Json) (rest : Text) : closed ']' (dumps v ++ rest) = none := by
  obtain ⟨c,s,hs,_,hc⟩ := dumps_head v
  rw [hs]
  exact closed_ne hc _

theorem Reads.value_succ (h : Reads n) (v : Json) (rest : Text) (hn : (dumps v).length ≤ n+1)
    (hr : Ends rest) : Json.value (n+1) (dumps v ++ rest) = some (v,rest) := by
  cases v with
  | null => rfl
  | bool b => cases b <;> rfl
  | int z => exact value_int z hr
  | str s => exact value_string s rest
  | arr vs =>
      rcases vs with _ | ⟨v,vs⟩
      · rfl
      · have hitems := h.items v vs rest (by simpa [dumps] using hn)
        have hd : dumps (.arr (v :: vs)) ++ rest = '[' :: (dumps v ++ (dumpItems vs ++ rest)) := by
          simp [dumps]
        rw [hd,Json.value,if_neg (by decide),if_pos rfl,skip_dumps,closed_dumps]
        simp only [hitems,Option.map_some]
  | obj ms =>
      rcases ms with _ | ⟨m,ms⟩
      · rfl
      · have hmembers := h.members m ms rest (by simpa [dumps] using hn)
        have hd : dumps (.obj (m :: ms)) ++ rest = '{' :: (dumpString m.1 ++
            ':' :: ' ' :: (dumps m.2 ++ (dumpMembers ms ++ rest))) := by
          simp [dumps]
        have hskip : ∀ s, skip (dumpString m.1 ++ s) = dumpString m.1 ++ s :=
          fun s => skip_cons rfl _
        have hclosed : ∀ s, closed '}' (dumpString m.1 ++ s) = none :=
          fun s => closed_ne (by decide) _
        rw [hd,Json.value,if_neg (by decide),if_neg (by decide),if_pos rfl,hskip,hclosed]
        simp only [hmembers,Option.map_some]

theorem Reads.items_succ (h : Reads n) (v : Json) (vs : List Json) (rest : Text)
    (hn : (dumps v ++ dumpItems vs).length ≤ n+1) :
    Json.items (n+1) (dumps v ++ (dumpItems vs ++ rest)) = some (v :: vs,rest) := by
  have hpos := length_dumps_pos v
  rcases vs with _ | ⟨w,vs⟩
  · have hlen : (dumps v).length ≤ n := by
      simp only [dumpItems,List.length_append,List.length_singleton] at hn
      omega
    rw [Json.items,h.value v _ hlen (ends_items [] rest)]
    rfl
  · simp only [dumpItems,List.length_append,List.length_cons] at hn
    have hw := h.items w vs rest (by simp only [List.length_append]; omega)
    have hd : dumpItems (w :: vs) ++ rest = ',' :: ' ' :: (dumps w ++ (dumpItems vs ++ rest)) := by
      simp [dumpItems]
    have hskip : skip (',' :: ' ' :: (dumps w ++ (dumpItems vs ++ rest))) =
        ',' :: ' ' :: (dumps w ++ (dumpItems vs ++ rest)) := rfl
    rw [Json.items,h.value v _ (by omega) (ends_items (w :: vs) rest),Option.bind_some,hd,hskip,
      closed_ne (by decide),closed_self]
    simp only [Option.bind_some,skip_space,skip_dumps,hw,Option.map_some]

theorem Reads.members_succ (h : Reads n) (m : Text × Json) (ms : List (Text × Json))
    (rest : Text)
    (hn : (dumpString m.1 ++ ':' :: ' ' :: (dumps m.2 ++ dumpMembers ms)).length ≤ n+1) :
    Json.members (n+1)
      (dumpString m.1 ++ ':' :: ' ' :: (dumps m.2 ++ (dumpMembers ms ++ rest))) =
        some (m :: ms,rest) := by
  have hs : ∀ t, dumpString m.1 ++ t = '"' :: (m.1.flatMap escape ++ '"' :: t) := by
    intro t
    simp [dumpString]
  have hcolon : ∀ t, skip (':' :: t) = ':' :: t := fun t => skip_cons rfl t
  simp only [dumpString,List.length_append,List.length_cons] at hn
  rcases ms with _ | ⟨k,ms⟩
  · have hlen : (dumps m.2).length ≤ n := by omega
    rw [hs,Json.members,closed_self,Option.bind_some,scanString_dump,Option.bind_some,hcolon,
      closed_self,Option.bind_some,skip_space,skip_dumps,
      h.value m.2 _ hlen (ends_members [] rest)]
    rfl
  · simp only [dumpMembers,dumpString,List.length_append,List.length_cons] at hn
    have hlen : (dumps m.2).length ≤ n := by omega
    have hk := h.members k ms rest
      (by simp only [dumpString,List.length_append,List.length_cons]; omega)
    have hd : dumpMembers (k :: ms) ++ rest = ',' :: ' ' :: (dumpString k.1 ++
        ':' :: ' ' :: (dumps k.2 ++ (dumpMembers ms ++ rest))) := by
      simp [dumpMembers]
    have hskip : ∀ t, skip (dumpString k.1 ++ t) = dumpString k.1 ++ t := fun t => skip_cons rfl _
    have hcomma : ∀ t, skip (',' :: t) = ',' :: t := fun t => skip_cons rfl t
    rw [hs,Json.members,closed_self,Option.bind_some,scanString_dump,Option.bind_some,hcolon,
      closed_self,Option.bind_some,skip_space,skip_dumps,
      h.value m.2 _ hlen (ends_members (k :: ms) rest),Option.bind_some,hd,hcomma,
      closed_ne (by decide),closed_self]
    simp only [Option.bind_some,skip_space,hskip,hk,Option.map_some]

theorem reads (n : ℕ) : Reads n := by
  induction n with
  | zero =>
      refine ⟨?_,?_,?_⟩
      · intro v rest hn
        exact absurd (length_dumps_pos v) (by omega)
      · intro v vs rest hn
        rw [List.length_append] at hn
        exact absurd (length_dumps_pos v) (by omega)
      · intro m ms rest hn
        simp [dumpString] at hn
  | succ n ih => exact ⟨ih.value_succ,ih.items_succ,ih.members_succ⟩

/-- `json.loads(json.dumps(v))`. -/
theorem loads_dumps (v : Json) : loads (dumps v) = some v := by
  have hskip := skip_dumps v []
  have hread := (reads ((dumps v).length+1)).value v [] (Nat.le_succ _) (fun c hc => by cases hc)
  rw [List.append_nil] at hskip hread
  unfold loads
  rw [hskip,hread]
  rfl

def Printable (s : Text) : Prop := ∀ c ∈ s, 32 ≤ c.toNat ∧ c.toNat ≤ 126

instance (s : Text) : Decidable (Printable s) :=
  List.decidableBAll (fun c : Char => 32 ≤ c.toNat ∧ c.toNat ≤ 126) s

@[simp] theorem printable_append (s t : Text) :
    Printable (s ++ t) ↔ Printable s ∧ Printable t := List.forall_mem_append

@[simp] theorem printable_cons (c : Char) (s : Text) :
    Printable (c :: s) ↔ (32 ≤ c.toNat ∧ c.toNat ≤ 126) ∧ Printable s := List.forall_mem_cons

theorem printable_digits (n : ℕ) : Printable (digits n) := by
  intro c hc
  have hd := (allDigits_digits n).2 c hc
  rw [Char.isDigit_iff_toNat] at hd
  have h0 : '0'.toNat = 48 := rfl
  have h9 : '9'.toNat = 57 := rfl
  omega

theorem printable_ofInt (z : ℤ) : Printable (ofInt z) := by
  cases z with
  | ofNat n => exact printable_digits n
  | negSucc n => exact (printable_cons _ _).mpr ⟨by decide,printable_digits (n+1)⟩

theorem printable_unicode {n : ℕ} (hn : n < 0x10000) : Printable (unicode n) := by
  have hd : ∀ d < 16, 32 ≤ (Nat.digitChar d).toNat ∧ (Nat.digitChar d).toNat ≤ 126 := by decide
  have hnil : Printable [] := fun c hc => absurd hc List.not_mem_nil
  simp only [unicode,printable_cons]
  exact ⟨by decide,by decide,hd _ (by omega),hd _ (by omega),hd _ (by omega),hd _ (by omega),hnil⟩

theorem printable_short {c e : Char} (h : shortEscape c = some e) : Printable ['\\',e] := by
  unfold shortEscape at h
  split_ifs at h <;> cases h <;> decide

theorem printable_escape (c : Char) : Printable (escape c) := by
  unfold escape
  cases hs : shortEscape c with
  | some e => exact printable_short hs
  | none =>
      change Printable (if 32 ≤ c.toNat ∧ c.toNat ≤ 126 then [c] else _)
      split_ifs with hp
      · intro d hd
        rw [List.mem_singleton.mp hd]
        exact hp
      · intro d hd
        obtain ⟨n,hn,hd⟩ := List.mem_flatMap.mp hd
        exact printable_unicode (units_lt hn) d hd

theorem printable_dumpString (s : Text) : Printable (dumpString s) := by
  unfold dumpString
  simp only [printable_append,printable_cons]
  refine ⟨⟨by decide,?_⟩,by decide,fun c hc => absurd hc List.not_mem_nil⟩
  intro c hc
  obtain ⟨d,_,hd⟩ := List.mem_flatMap.mp hc
  exact printable_escape d c hd

theorem printable_dumps (v : Json) : Printable (dumps v) := by
  have hcomma : 32 ≤ ','.toNat ∧ ','.toNat ≤ 126 := by decide
  refine @Json.rec (fun v => Printable (dumps v)) (fun vs => Printable (dumpItems vs))
    (fun ms => Printable (dumpMembers ms)) (fun m => Printable (dumps m.2))
    ?_ ?_ printable_ofInt printable_dumpString ?_ ?_ ?_ ?_ ?_ ?_ ?_ v
  · decide
  · intro b
    cases b <;> decide
  · intro vs h
    rcases vs with _ | ⟨v,vs⟩
    · decide
    · simp only [dumpItems,printable_cons] at h
      exact (printable_cons _ _).mpr ⟨by decide,h.2.2⟩
  · intro ms h
    rcases ms with _ | ⟨m,ms⟩
    · decide
    · simp only [dumpMembers,printable_cons] at h
      exact (printable_cons _ _).mpr ⟨by decide,h.2.2⟩
  · decide
  · intro v vs hv hvs
    simp only [dumpItems,printable_cons,printable_append]
    exact ⟨hcomma,by decide,hv,hvs⟩
  · decide
  · intro m ms hm hms
    simp only [dumpMembers,printable_cons,printable_append]
    exact ⟨hcomma,by decide,printable_dumpString m.1,by decide,by decide,hm,hms⟩
  · intro k v hv
    exact hv

end Json
end FlightsOptimizer
