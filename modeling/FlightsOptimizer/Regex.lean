import Mathlib.Data.List.Basic

/-!
# Patterns with backtracking

A pattern is matched against the beginning of a text. The engine takes the longer
run of a class before a shorter one and an optional part before its absence, and
goes back to the next choice where what follows fails. Its choices in the order of
their trial are the ways of the pattern, and the match is the first of them.

No choice is taken back before a part that matches every text, and a run that a
foreign character has to close is taken whole or not at all. A pattern of optional
parts of this kind is matched by reading the text once.
-/
namespace FlightsOptimizer.Regex

/-- Patterns over classes of characters; `many` takes at least one of its class. -/
inductive Pattern (α : Type) where
  | one (p : α → Bool)
  | many (p : α → Bool)
  | seq (x y : Pattern α)
  | opt (x : Pattern α)
  | group (i : ℕ) (x : Pattern α)

/-- What was matched, what is left, and the groups that took part. -/
structure Way (α : Type) where
  text : List α
  rest : List α
  groups : List (ℕ × List α)

section
variable {α β : Type}

def Way.skip (s : List α) : Way α := ⟨[],s,[]⟩

def Way.longer (c : α) (w : Way α) : Way α := {w with text := c :: w.text}

def Way.append (w v : Way α) : Way α := ⟨w.text ++ v.text,v.rest,w.groups ++ v.groups⟩

def Way.capture (i : ℕ) (w : Way α) : Way α := {w with groups := (i,w.text) :: w.groups}

def runOne (p : α → Bool) : List α → (Way α → Option β) → Option β
  | [],_ => none
  | c :: s,k => if p c then k ⟨[c],s,[]⟩ else none

/-- The run goes on before it ends. -/
def runMany (p : α → Bool) : List α → (Way α → Option β) → Option β
  | [],_ => none
  | c :: s,k => if p c then (runMany p s fun w => k (w.longer c)).or (k ⟨[c],s,[]⟩) else none

/-- The continuation is what follows the pattern; where it fails the next choice
is tried. -/
def run : Pattern α → List α → (Way α → Option β) → Option β
  | .one p,s,k => runOne p s k
  | .many p,s,k => runMany p s k
  | .seq x y,s,k => run x s fun w => run y w.rest fun v => k (w.append v)
  | .opt x,s,k => (run x s k).or (k (.skip s))
  | .group i x,s,k => run x s fun w => k (w.capture i)

/-- The match at the beginning of the text. -/
def first (x : Pattern α) (s : List α) : Option (Way α) := run x s some

/-- The match at the first place that has one. -/
def search (x : Pattern α) : List α → Option (Way α)
  | [] => first x []
  | c :: s => (first x (c :: s)).or (search x s)

def waysOne (p : α → Bool) : List α → List (Way α)
  | [] => []
  | c :: s => if p c then [⟨[c],s,[]⟩] else []

def waysMany (p : α → Bool) : List α → List (Way α)
  | [] => []
  | c :: s => if p c then (waysMany p s).map (.longer c) ++ [⟨[c],s,[]⟩] else []

def ways : Pattern α → List α → List (Way α)
  | .one p,s => waysOne p s
  | .many p,s => waysMany p s
  | .seq x y,s => (ways x s).flatMap fun w => (ways y w.rest).map w.append
  | .opt x,s => ways x s ++ [.skip s]
  | .group i x,s => (ways x s).map (.capture i)

theorem findSome?_flatMap {γ : Type} (l : List α) (f : α → List γ) (k : γ → Option β) :
    (l.flatMap f).findSome? k = l.findSome? fun a => (f a).findSome? k := by
  induction l with
  | nil => rfl
  | cons a l ih =>
      rw [List.flatMap_cons,List.findSome?_append,ih,List.findSome?_cons]
      cases (f a).findSome? k <;> rfl

theorem runOne_eq (p : α → Bool) (s : List α) (k : Way α → Option β) :
    runOne p s k = (waysOne p s).findSome? k := by
  cases s with
  | nil => rfl
  | cons c s =>
      rw [runOne,waysOne]
      split
      · rw [List.findSome?_singleton]
      · rfl

theorem runMany_eq (p : α → Bool) (s : List α) (k : Way α → Option β) :
    runMany p s k = (waysMany p s).findSome? k := by
  induction s generalizing k with
  | nil => rfl
  | cons c s ih =>
      rw [runMany,waysMany]
      split
      · rw [List.findSome?_append,List.findSome?_map,List.findSome?_singleton,ih]
        rfl
      · rfl

/-- The engine finds the first way that its continuation accepts. -/
theorem run_eq (x : Pattern α) (s : List α) (k : Way α → Option β) :
    run x s k = (ways x s).findSome? k := by
  induction x generalizing s k with
  | one p => exact runOne_eq p s k
  | many p => exact runMany_eq p s k
  | seq x y ihx ihy =>
      rw [run,ihx,ways,findSome?_flatMap]
      congr 1
      funext w
      rw [ihy,List.findSome?_map]
      rfl
  | opt x ih =>
      rw [run,ih,ways,List.findSome?_append,List.findSome?_singleton]
  | group i x ih =>
      rw [run,ih,ways,List.findSome?_map]
      rfl

theorem first_eq (x : Pattern α) (s : List α) : first x s = (ways x s).head? := by
  unfold first
  rw [run_eq]
  cases ways x s <;> rfl

theorem run_map (x : Pattern α) (s : List α) (f : Way α → β) :
    run x s (fun w => some (f w)) = (first x s).map f := by
  rw [run_eq,first_eq]
  cases ways x s <;> rfl

def Pattern.Total (x : Pattern α) : Prop := ∀ s, ∃ w, first x s = some w

theorem first_opt (x : Pattern α) (s : List α) :
    first (.opt x) s = some ((first x s).getD (.skip s)) := by
  unfold first
  rw [run]
  cases run x s some <;> rfl

theorem total_opt (x : Pattern α) : (Pattern.opt x).Total := fun s => ⟨_,first_opt x s⟩

/-- In front of a total part the first choice stands. -/
theorem first_seq {x y : Pattern α} (hy : y.Total) (s : List α) :
    first (.seq x y) s = (first x s).bind fun w => (first y w.rest).map w.append := by
  have hrun : first (.seq x y) s = run x s fun w => (first y w.rest).map w.append := by
    rw [first,run]
    congr 1
    funext w
    exact run_map y w.rest w.append
  rw [hrun,run_eq,first_eq]
  cases ways x s with
  | nil => rfl
  | cons w ws =>
      obtain ⟨v,hv⟩ := hy w.rest
      rw [List.findSome?_cons,hv]
      simp only [List.head?_cons,Option.bind_some,hv,Option.map_some]

theorem total_seq {x y : Pattern α} (hx : x.Total) (hy : y.Total) : (Pattern.seq x y).Total := by
  intro s
  obtain ⟨w,hw⟩ := hx s
  obtain ⟨v,hv⟩ := hy w.rest
  refine ⟨w.append v,?_⟩
  rw [first_seq hy,hw,Option.bind_some,hv,Option.map_some]

theorem first_one_seq (p : α → Bool) {y : Pattern α} (hy : y.Total) (c : α) (s : List α) :
    first (.seq (.one p) y) (c :: s) =
      if p c then (first y s).map (Way.append ⟨[c],s,[]⟩) else none := by
  rw [first_seq hy,first_eq,ways,waysOne]
  split <;> rfl

/-- A pattern that is total behind its first character is matched where this
character stands first. -/
theorem search_one_seq (p : α → Bool) {y : Pattern α} (hy : y.Total) (s : List α) :
    search (.seq (.one p) y) s =
      match s.dropWhile fun c => !p c with
      | [] => none
      | c :: rest => (first y rest).map (Way.append ⟨[c],rest,[]⟩) := by
  induction s with
  | nil => rfl
  | cons c s ih =>
      rw [search,first_one_seq p hy]
      cases hc : p c with
      | true =>
          obtain ⟨v,hv⟩ := hy s
          rw [List.dropWhile_cons_of_neg (by simp [hc])]
          simp only [hv,Option.map_some,if_true,Option.some_or]
      | false =>
          rw [List.dropWhile_cons_of_pos (by simp [hc]),← ih]
          rfl

/-- Behind every shorter run stands a character of its class. -/
theorem waysMany_closed {p q : α → Bool} (hq : ∀ c, q c = true → p c = false) (s : List α)
    (f : Way α → Way α → β) :
    ((waysMany p s).flatMap fun w => (waysOne q w.rest).map (f w)) =
      match s.dropWhile p with
      | [] => []
      | c :: rest =>
          if s.takeWhile p ≠ [] ∧ q c = true then
            [f ⟨s.takeWhile p,c :: rest,[]⟩ ⟨[c],rest,[]⟩]
          else [] := by
  induction s generalizing f with
  | nil => rfl
  | cons c s ih =>
      cases hc : p c with
      | false =>
          rw [waysMany,List.dropWhile_cons_of_neg (by simp [hc])]
          simp [hc]
      | true =>
          have hways : waysMany p (c :: s) =
              (waysMany p s).map (.longer c) ++ [⟨[c],s,[]⟩] := by
            rw [waysMany,if_pos hc]
          rw [hways,List.flatMap_append,List.flatMap_map,List.flatMap_singleton,
            List.takeWhile_cons_of_pos hc,List.dropWhile_cons_of_pos hc]
          have hlonger := ih fun w => f (w.longer c)
          refine (congrArg (· ++ _) hlonger).trans ?_
          cases s with
          | nil => rfl
          | cons d s =>
              cases hd : p d with
              | true =>
                  have hq' : q d = false :=
                    Bool.eq_false_iff.mpr fun h => by simp [hq d h] at hd
                  rw [waysOne,hq',List.takeWhile_cons_of_pos hd]
                  simp [Way.longer]
              | false =>
                  rw [waysOne,List.takeWhile_cons_of_neg (by simp [hd]),
                    List.dropWhile_cons_of_neg (by simp [hd])]
                  cases hqd : q d <;> simp [hqd]

/-- A captured run and the foreign character that closes it. -/
theorem first_closed {p q : α → Bool} (hq : ∀ c, q c = true → p c = false) (i : ℕ)
    (s : List α) :
    first (.seq (.group i (.many p)) (.one q)) s =
      match s.dropWhile p with
      | [] => none
      | c :: rest =>
          if s.takeWhile p ≠ [] ∧ q c = true then
            some ⟨s.takeWhile p ++ [c],rest,[(i,s.takeWhile p)]⟩
          else none := by
  have hways := waysMany_closed hq s fun w v => (w.capture i).append v
  rw [first_eq,ways,ways,ways,List.flatMap_map]
  refine (congrArg List.head? hways).trans ?_
  cases s.dropWhile p with
  | nil => rfl
  | cons c rest =>
      simp only
      split <;> rfl

end

end FlightsOptimizer.Regex
