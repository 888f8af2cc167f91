import FlightsOptimizer.Regex
import FlightsOptimizer.Statefull

/-!
# Travel durations

A travel duration is decoded with a pattern of nested optional groups. The digits of
the minutes are first taken for hours and given back, and a group that does not match
is left out without a failure. The pattern reads a text only once for all that, as
the decoding of the processor does, and of a written duration it leaves no part out.
-/
namespace FlightsOptimizer.Duration
open Text Statefull Regex

section
variable (b : Builtins)

/-- `\d`. -/
def decimal (c : Char) : Bool := (b.digit c).isSome

/-- `(?:(\d+)U)?` for the letter `U`, with the digits in group `i`. -/
def optionalGroup (i : ℕ) (unit : Char) : Pattern Char :=
  .opt (.seq (.group i (.many (decimal b))) (.one (· == unit)))

/-- `(?:T(?:(\d+)H)?(?:(\d+)M)?)?`. -/
def timeGroup : Pattern Char :=
  .opt (.seq (.one (· == 'T')) (.seq (optionalGroup b 2 'H') (optionalGroup b 3 'M')))

/-- `P(?:(\d+)D)?(?:T(?:(\d+)H)?(?:(\d+)M)?)?`. -/
def durationPattern : Pattern Char :=
  .seq (.one (· == 'P')) (.seq (optionalGroup b 1 'D') (timeGroup b))

/-- `int(duration_match.group(i) or 0)`. -/
def intOrZero : Option Text → ℕ
  | none => 0
  | some digits => digits.foldl (fun n c => 10*n + (b.digit c).getD 0) 0

def convertTravelDuration (travelDuration : Text) : ℕ :=
  match search (durationPattern b) travelDuration with
  | none => 0
  | some durationMatch =>
      let days := intOrZero b (durationMatch.groups.lookup 1)
      let hours := intOrZero b (durationMatch.groups.lookup 2)
      let minutes := intOrZero b (durationMatch.groups.lookup 3)
      days*24*60 + hours*60 + minutes

/-- The decimal digits have their values, and no letter is a digit. -/
structure Decimal : Prop where
  values : ∀ k < 10, b.digit (Nat.digitChar k) = some k
  letters : ∀ c, c.isAlpha = true → b.digit c = none

theorem decimal_ascii : Decimal asciiBuiltins where
  values := by decide
  letters c hc := by
    have hdigit : c.isDigit = false := by
      unfold Char.isAlpha Char.isUpper Char.isLower at hc
      unfold Char.isDigit
      simp only [Bool.or_eq_true,Bool.and_eq_true,decide_eq_true_eq,Bool.and_eq_false_iff,
        decide_eq_false_iff_not] at hc ⊢
      simp only [UInt32.le_iff_toNat_le] at hc ⊢
      grind
    exact if_neg (by simp [hdigit])

variable {b} {unit : Char} {i : ℕ} {s : Text}

theorem decimal_eq_false {c : Char} (hc : b.digit c = none) : decimal b c = false := by
  rw [decimal,hc]
  rfl

theorem decimal_of_digit {c : Char} {k : ℕ} (hc : b.digit c = some k) : decimal b c = true := by
  rw [decimal,hc]
  rfl

@[simp] theorem intOrZero_none : intOrZero b none = 0 := rfl

variable (b) in
/-- Of the groups only this one may have taken part, and it reads as the number. -/
structure Reads (i : ℕ) (groups : List (ℕ × Text)) (n : ℕ) : Prop where
  own : intOrZero b (groups.lookup i) = n
  others : ∀ j, j ≠ i → groups.lookup j = none

theorem reads_absent (i : ℕ) : Reads b i [] 0 := ⟨rfl,fun _ _ => rfl⟩

theorem reads_present (i : ℕ) (digits : Text) :
    Reads b i [(i,digits)] (intOrZero b (some digits)) where
  own := by rw [List.lookup_cons_self]
  others j hj := by
    rw [List.lookup_cons,beq_false_of_ne hj]
    rfl

/-- A run of digits that its letter does not close is left for the next group. -/
theorem optionalNumber_eq (unit : Char) (s : Text) :
    optionalNumber b unit s =
      match s.dropWhile (decimal b) with
      | c :: rest =>
          if s.takeWhile (decimal b) ≠ [] ∧ c = unit then
            (intOrZero b (some (s.takeWhile (decimal b))),rest)
          else (0,s)
      | [] => (0,s) := rfl

theorem first_optionalGroup (hunit : b.digit unit = none) (i : ℕ) (s : Text) :
    ∃ w, first (optionalGroup b i unit) s = some w ∧ w.rest = (optionalNumber b unit s).2 ∧
      Reads b i w.groups (optionalNumber b unit s).1 := by
  have hforeign : ∀ c, (c == unit) = true → decimal b c = false := by
    intro c hc
    rw [eq_of_beq hc]
    exact decimal_eq_false hunit
  rw [optionalGroup,first_opt,first_closed hforeign,optionalNumber_eq]
  refine ⟨_,rfl,?_⟩
  cases s.dropWhile (decimal b) with
  | nil => exact ⟨rfl,reads_absent i⟩
  | cons c rest =>
      by_cases h : s.takeWhile (decimal b) ≠ [] ∧ c = unit
      · have hclosed : s.takeWhile (decimal b) ≠ [] ∧ (c == unit) = true :=
          ⟨h.1,beq_iff_eq.mpr h.2⟩
        simp only [if_pos h,if_pos hclosed,Option.getD_some]
        exact ⟨trivial,reads_present i _⟩
      · have hopen : ¬(s.takeWhile (decimal b) ≠ [] ∧ (c == unit) = true) := by
          rwa [beq_iff_eq]
        simp only [if_neg h,if_neg hopen,Option.getD_none]
        exact ⟨rfl,reads_absent i⟩

theorem total_optionalGroup (i : ℕ) (unit : Char) : (optionalGroup b i unit).Total := total_opt _

theorem total_timeGroup : (timeGroup b).Total := total_opt _

theorem first_timeGroup (hb : Decimal b) (s : Text) :
    ∃ w, first (timeGroup b) ('T' :: s) = some w ∧ w.groups.lookup 1 = none ∧
      intOrZero b (w.groups.lookup 2) = (optionalNumber b 'H' s).1 ∧
      intOrZero b (w.groups.lookup 3) =
        (optionalNumber b 'M' (optionalNumber b 'H' s).2).1 := by
  obtain ⟨hours,hfirst,hrest,hhours⟩ := first_optionalGroup (hb.letters 'H' rfl) 2 s
  obtain ⟨minutes,hfirst',-,hminutes⟩ := first_optionalGroup (hb.letters 'M' rfl) 3 hours.rest
  have htotal : (Pattern.seq (optionalGroup b 2 'H') (optionalGroup b 3 'M')).Total :=
    total_seq (total_optionalGroup 2 'H') (total_optionalGroup 3 'M')
  have hboth : first (.seq (optionalGroup b 2 'H') (optionalGroup b 3 'M')) s =
      some (hours.append minutes) := by
    rw [first_seq (total_optionalGroup 3 'M'),hfirst,Option.bind_some,hfirst',Option.map_some]
  refine ⟨Way.append ⟨['T'],s,[]⟩ (hours.append minutes),?_,?_,?_,?_⟩
  · rw [timeGroup,first_opt,first_one_seq _ htotal,if_pos (by rfl),hboth]
    rfl
  · change (hours.groups ++ minutes.groups).lookup 1 = none
    rw [List.lookup_append,hhours.others 1 (by decide),hminutes.others 1 (by decide)]
    rfl
  · change intOrZero b ((hours.groups ++ minutes.groups).lookup 2) = _
    rw [List.lookup_append,hminutes.others 2 (by decide),Option.or_none]
    exact hhours.own
  · change intOrZero b ((hours.groups ++ minutes.groups).lookup 3) = _
    rw [List.lookup_append,hhours.others 3 (by decide),Option.none_or,← hrest]
    exact hminutes.own

theorem first_timeGroup_absent (hs : s.head? ≠ some 'T') :
    first (timeGroup b) s = some (.skip s) := by
  rw [timeGroup,first_opt]
  cases s with
  | nil => rfl
  | cons c s =>
      have hc : (c == 'T') = false := beq_false_of_ne fun h => hs (congrArg some h)
      rw [first_one_seq _ (total_seq (total_optionalGroup 2 'H') (total_optionalGroup 3 'M')),hc]
      rfl

/-- The pattern decodes what the processor decodes. -/
theorem convertTravelDuration_eq (hb : Decimal b) (s : Text) :
    convertTravelDuration b s = Statefull.convertTravelDuration b s := by
  have hfirst : (fun c => !(c == 'P')) = fun c => decide (c ≠ 'P') := by
    funext c
    by_cases hc : c = 'P' <;> simp [hc]
  unfold convertTravelDuration Statefull.convertTravelDuration durationPattern
  rw [search_one_seq _ (total_seq (total_optionalGroup 1 'D') total_timeGroup),hfirst]
  cases s.dropWhile fun c => decide (c ≠ 'P') with
  | nil => rfl
  | cons p rest =>
      obtain ⟨days,hdays,hrest,hreads⟩ := first_optionalGroup (hb.letters 'D' rfl) 1 rest
      simp only [first_seq total_timeGroup,hdays,Option.bind_some,hrest]
      generalize (optionalNumber b 'D' rest).2 = tail
      by_cases hT : tail.head? = some 'T'
      · obtain ⟨tail,rfl⟩ := List.head?_eq_some_iff.mp hT
        obtain ⟨time,htime,h1,h2,h3⟩ := first_timeGroup hb tail
        rw [htime]
        simp only [Option.map_some,Way.append,List.nil_append,List.lookup_append,h1,h2,h3,
          hreads.own,hreads.others 2 (by decide),hreads.others 3 (by decide),Option.or_none,
          Option.none_or]
      · rw [first_timeGroup_absent hT]
        simp only [Option.map_some,Way.append,Way.skip,List.nil_append,List.append_nil,
          hreads.own,hreads.others 2 (by decide),hreads.others 3 (by decide),intOrZero_none,
          Nat.zero_mul,Nat.add_zero]
        split
        · exact absurd rfl hT
        · rfl

end

section
variable (b : Builtins)

/-- The number is written in decimal digits, of which the first may be zeros. -/
inductive Writes : ℕ → Text → Prop
  | digit {c : Char} {k : ℕ} : b.digit c = some k → Writes k [c]
  | append {n k : ℕ} {s : Text} {c : Char} :
      Writes n s → b.digit c = some k → Writes (10*n + k) (s ++ [c])

structure Numeral where
  number : ℕ
  text : Text
  writes : Writes b number text

/-- `T[hH][mM]`. -/
structure Time where
  hours : Option (Numeral b)
  minutes : Option (Numeral b)

/-- `P[dD][T[hH][mM]]`. -/
structure Written where
  days : Option (Numeral b)
  time : Option (Time b)

variable {b}

/-- A part that is absent counts as zero. -/
def number (part : Option (Numeral b)) : ℕ := part.elim 0 Numeral.number

def part (unit : Char) (n : Option (Numeral b)) : Text := n.elim [] fun n => n.text ++ [unit]

def Time.text (t : Time b) : Text := 'T' :: (part 'H' t.hours ++ part 'M' t.minutes)

def Written.text (d : Written b) : Text := 'P' :: (part 'D' d.days ++ d.time.elim [] Time.text)

def Written.hours (d : Written b) : Option (Numeral b) := d.time.bind Time.hours

def Written.minutes (d : Written b) : Option (Numeral b) := d.time.bind Time.minutes

theorem Writes.spec {n : ℕ} {s : Text} (h : Writes b n s) :
    s ≠ [] ∧ (∀ c ∈ s, decimal b c = true) ∧ intOrZero b (some s) = n := by
  induction h with
  | @digit c k hc =>
      refine ⟨by simp,?_,?_⟩
      · intro c' hc'
        rw [List.mem_singleton.mp hc']
        exact decimal_of_digit hc
      · rw [intOrZero,List.foldl_cons,hc]
        simp
  | @append n k s c _ hc ih =>
      obtain ⟨-,hall,hvalue⟩ := ih
      refine ⟨by simp,?_,?_⟩
      · intro c' hc'
        rcases List.mem_append.mp hc' with hs | hlast
        · exact hall c' hs
        · rw [List.mem_singleton.mp hlast]
          exact decimal_of_digit hc
      · rw [intOrZero] at hvalue ⊢
        rw [List.foldl_append,hvalue,List.foldl_cons,hc]
        rfl

/-- `\d+` takes the written numbers, and `int` reads them. -/
theorem writes_iff {n : ℕ} {s : Text} :
    Writes b n s ↔
      s ≠ [] ∧ (∀ c ∈ s, decimal b c = true) ∧ intOrZero b (some s) = n := by
  refine ⟨Writes.spec,?_⟩
  rintro ⟨hne,hall,rfl⟩
  induction s using List.reverseRecOn with
  | nil => exact absurd rfl hne
  | append_singleton s c ih =>
      obtain ⟨k,hk⟩ := Option.isSome_iff_exists.mp (hall c (by simp))
      have hvalue : intOrZero b (some (s ++ [c])) = 10*intOrZero b (some s) + k := by
        rw [intOrZero,List.foldl_append,List.foldl_cons,hk]
        rfl
      rw [hvalue]
      by_cases hs : s = []
      · subst hs
        have hk' : 10*intOrZero b (some []) + k = k := by simp [intOrZero]
        rw [hk']
        exact .digit hk
      · exact .append (ih hs fun c' hc' => hall c' (List.mem_append_left _ hc')) hk

theorem Writes.zero_cons (hb : Decimal b) {n : ℕ} {s : Text} (h : Writes b n s) :
    Writes b n ('0' :: s) := by
  have hzero : b.digit '0' = some 0 := hb.values 0 (by omega)
  induction h with
  | @digit c k hc =>
      have happend := Writes.append (.digit hzero) hc
      rwa [Nat.mul_zero,Nat.zero_add] at happend
  | append _ hc ih => exact .append ih hc

/-- Every number is written, with any number of zeros in front. -/
theorem writes_digits (hb : Decimal b) (zeros n : ℕ) :
    Writes b n (List.replicate zeros '0' ++ digits n) := by
  induction zeros with
  | zero =>
      rw [List.replicate_zero,List.nil_append]
      induction n using Nat.strong_induction_on with
      | _ n ih =>
          unfold digits
          by_cases hn : n < 10
          · rw [Nat.toDigits_of_lt_base hn]
            exact .digit (hb.values n hn)
          · rw [Nat.toDigits_of_base_le (by omega) (by omega)]
            have happend := Writes.append (ih (n / 10) (by omega))
              (hb.values (n % 10) (by omega))
            rwa [Nat.div_add_mod] at happend
  | succ zeros ih => exact ih.zero_cons hb

def Numeral.ofNat (hb : Decimal b) (zeros n : ℕ) : Numeral b := ⟨n,_,writes_digits hb zeros n⟩

theorem dropWhile_part {unit : Char} (hunit : b.digit unit = none) (n : Numeral b) (rest : Text) :
    (part unit (some n) ++ rest).dropWhile (decimal b) = unit :: rest := by
  obtain ⟨-,hall,-⟩ := n.writes.spec
  have hneg : ¬decimal b unit = true := by simp [decimal_eq_false hunit]
  change ((n.text ++ [unit]) ++ rest).dropWhile (decimal b) = _
  rw [List.append_assoc,List.dropWhile_append_of_pos hall]
  exact List.dropWhile_cons_of_neg hneg

theorem takeWhile_part {unit : Char} (hunit : b.digit unit = none) (n : Numeral b) (rest : Text) :
    (part unit (some n) ++ rest).takeWhile (decimal b) = n.text := by
  obtain ⟨-,hall,-⟩ := n.writes.spec
  have hneg : ¬decimal b unit = true := by simp [decimal_eq_false hunit]
  change ((n.text ++ [unit]) ++ rest).takeWhile (decimal b) = _
  rw [List.append_assoc,List.takeWhile_append_of_pos hall]
  change n.text ++ (unit :: rest).takeWhile (decimal b) = _
  rw [List.takeWhile_cons_of_neg hneg,List.append_nil]

/-- A part is read, or found absent, where no number with its letter follows. -/
theorem optionalNumber_part {unit : Char} (hunit : b.digit unit = none)
    (n : Option (Numeral b)) {rest : Text}
    (hrest : (rest.dropWhile (decimal b)).head? ≠ some unit) :
    optionalNumber b unit (part unit n ++ rest) = (number n,rest) := by
  rw [optionalNumber_eq]
  cases n with
  | none =>
      rw [part,Option.elim_none,List.nil_append]
      cases hdrop : rest.dropWhile (decimal b) with
      | nil => rfl
      | cons c rest' =>
          have hc : c ≠ unit := fun h => hrest (by rw [hdrop,h]; rfl)
          exact if_neg fun h => hc h.2
  | some n =>
      obtain ⟨hne,-,hvalue⟩ := n.writes.spec
      rw [dropWhile_part hunit,takeWhile_part hunit]
      change (if n.text ≠ [] ∧ unit = unit then (intOrZero b (some n.text),rest)
        else (0,part unit (some n) ++ rest)) = (n.number,rest)
      rw [if_pos ⟨hne,rfl⟩,hvalue]

theorem decode_days {s : Text} {days : ℕ} (hd : optionalNumber b 'D' s = (days,[])) :
    Statefull.convertTravelDuration b ('P' :: s) = days*24*60 := by
  unfold Statefull.convertTravelDuration
  rw [List.dropWhile_cons_of_neg (by simp)]
  simp only [hd]

theorem decode_time {s time rest rest' : Text} {days hours minutes : ℕ}
    (hd : optionalNumber b 'D' s = (days,'T' :: time))
    (hh : optionalNumber b 'H' time = (hours,rest))
    (hm : optionalNumber b 'M' rest = (minutes,rest')) :
    Statefull.convertTravelDuration b ('P' :: s) = days*24*60 + hours*60 + minutes := by
  unfold Statefull.convertTravelDuration
  rw [List.dropWhile_cons_of_neg (by simp)]
  simp only [hd,hh,hm]

/-- Behind the hours come the minutes or the end. -/
theorem head?_dropWhile_minutes (hM : b.digit 'M' = none) (minutes : Option (Numeral b)) :
    ((part 'M' minutes).dropWhile (decimal b)).head? ≠ some 'H' := by
  cases minutes with
  | none => nofun
  | some n =>
      have hdrop := dropWhile_part hM n []
      rw [List.append_nil] at hdrop
      rw [hdrop]
      decide

/-- No part of a written duration is lost, and what is absent counts as zero. -/
theorem convertTravelDuration_written (hb : Decimal b) (d : Written b) :
    convertTravelDuration b d.text =
      1440*number d.days + 60*number d.hours + number d.minutes := by
  have hD : b.digit 'D' = none := hb.letters 'D' rfl
  have hH : b.digit 'H' = none := hb.letters 'H' rfl
  have hM : b.digit 'M' = none := hb.letters 'M' rfl
  rw [convertTravelDuration_eq hb]
  obtain ⟨days,time⟩ := d
  cases time with
  | none =>
      have hdays := optionalNumber_part hD days (by simp : (([] : Text).dropWhile _).head? ≠ _)
      have hdecode := decode_days hdays
      refine hdecode.trans ?_
      change _ = 1440*number days + 60*0 + 0
      omega
  | some t =>
      have hT : (t.text.dropWhile (decimal b)).head? ≠ some 'D' := by
        rw [Time.text,List.dropWhile_cons_of_neg (by simp [decimal_eq_false (hb.letters 'T' rfl)])]
        simp
      have hdays := optionalNumber_part hD days hT
      have hhours := optionalNumber_part hH t.hours (head?_dropWhile_minutes hM t.minutes)
      have hminutes := optionalNumber_part hM t.minutes
        (by simp : (([] : Text).dropWhile _).head? ≠ _)
      rw [List.append_nil] at hminutes
      have hdecode := decode_time hdays hhours hminutes
      refine hdecode.trans ?_
      change _ = 1440*number days + 60*number t.hours + number t.minutes
      omega

/-- The duration of one day and eight minutes. -/
def oneDay : Written asciiBuiltins where
  days := some (.ofNat decimal_ascii 0 1)
  time := some ⟨none,some (.ofNat decimal_ascii 0 8)⟩

theorem convertTravelDuration_oneDay :
    Decimal asciiBuiltins ∧ oneDay.text = "P1DT8M".toList ∧
      convertTravelDuration asciiBuiltins oneDay.text = 1448 :=
  ⟨decimal_ascii,rfl,convertTravelDuration_written decimal_ascii oneDay⟩

example : convertTravelDuration asciiBuiltins "PT1H30M".toList = 90 := by decide

end

end FlightsOptimizer.Duration
