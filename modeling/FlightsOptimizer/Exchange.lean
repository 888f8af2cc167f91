import Mathlib.Data.List.Basic

/-!
# Requests that wait for their answers

A party writes a request and writes the next only when the answer to it is
there. The other party reads it, holds it while it does what is asked, and
writes the answer, which is noted before the first party takes it. Answers do
not say what they answer. They need not: at any time there is one request under
way or none, and the four places where it can be show which.
-/
namespace FlightsOptimizer.Exchange
variable {α β : Type} {answer : α → Option β}

inductive Place
  | unread
  | held
  | answered
  | noted
  deriving DecidableEq

/-- What has been written and not read, what is being done, and the answers on
their way and at their destination. -/
@[ext] structure Lane (α β : Type) where
  wire : List α
  held : List α
  answers : List β
  noted : List β

/-- The lane of a request that is under way, or of none. -/
def lane (answer : α → Option β) : Option (α × Place) → Lane α β
  | none => ⟨[],[],[],[]⟩
  | some (a,.unread) => ⟨[a],[],[],[]⟩
  | some (a,.held) => ⟨[],[a],[],[]⟩
  | some (a,.answered) => ⟨[],[],(answer a).toList,[]⟩
  | some (a,.noted) => ⟨[],[],[],(answer a).toList⟩

/-- What is left to do for what is under way, each place nearer to the end. -/
def Lane.weight (l : Lane α β) : ℕ :=
  4*l.wire.length + 3*l.held.length + 2*l.answers.length + l.noted.length

variable {at' : Option (α × Place)} {a : α} {as : List α} {b : β} {bs : List β}

/-- What is on the wire is the request under way, and nothing is behind it. -/
theorem wire_eq_cons (h : (lane answer at').wire = a :: as) : at' = some (a,.unread) ∧ as = [] := by
  rcases at' with _ | ⟨a',place⟩
  · cases h
  · cases place with
    | unread =>
        obtain ⟨rfl,rfl⟩ := List.cons.inj h
        exact ⟨rfl,rfl⟩
    | held => cases h
    | answered => cases h
    | noted => cases h

theorem held_eq_cons (h : (lane answer at').held = a :: as) : at' = some (a,.held) ∧ as = [] := by
  rcases at' with _ | ⟨a',place⟩
  · cases h
  · cases place with
    | held =>
        obtain ⟨rfl,rfl⟩ := List.cons.inj h
        exact ⟨rfl,rfl⟩
    | unread => cases h
    | answered => cases h
    | noted => cases h

theorem toList_eq_cons {o : Option β} (h : o.toList = b :: bs) : o = some b ∧ bs = [] := by
  cases o with
  | none => cases h
  | some b' =>
      obtain ⟨rfl,rfl⟩ := List.cons.inj h
      exact ⟨rfl,rfl⟩

/-- An answer on its way is the answer to the request under way. -/
theorem answers_eq_cons (h : (lane answer at').answers = b :: bs) :
    ∃ a, at' = some (a,.answered) ∧ answer a = some b ∧ bs = [] := by
  rcases at' with _ | ⟨a',place⟩
  · cases h
  · cases place with
    | answered => exact ⟨a',rfl,toList_eq_cons h⟩
    | unread => cases h
    | held => cases h
    | noted => cases h

theorem noted_eq_cons (h : (lane answer at').noted = b :: bs) :
    ∃ a, at' = some (a,.noted) ∧ answer a = some b ∧ bs = [] := by
  rcases at' with _ | ⟨a',place⟩
  · cases h
  · cases place with
    | noted => exact ⟨a',rfl,toList_eq_cons h⟩
    | unread => cases h
    | held => cases h
    | answered => cases h

/-- When nothing is at any of the places, nothing is under way. -/
theorem eq_none (hanswer : ∀ a place, at' = some (a,place) → (answer a).isSome)
    (hw : (lane answer at').wire = []) (hh : (lane answer at').held = [])
    (ha : (lane answer at').answers = []) (hn : (lane answer at').noted = []) : at' = none := by
  rcases at' with _ | ⟨a,place⟩
  · rfl
  · obtain ⟨b,hb⟩ := Option.isSome_iff_exists.mp (hanswer a place rfl)
    cases place with
    | unread => cases hw
    | held => cases hh
    | answered =>
        change (answer a).toList = [] at ha
        rw [hb] at ha
        cases ha
    | noted =>
        change (answer a).toList = [] at hn
        rw [hb] at hn
        cases hn

/-- What is left when the party that does what is asked is gone. -/
def answeredOnly (at' : Option (α × Place)) : Option (α × Place) :=
  at'.filter fun x => x.2 == .answered || x.2 == .noted

/-- What is left when the party that asks is gone. -/
def requestedOnly (at' : Option (α × Place)) : Option (α × Place) :=
  at'.filter fun x => x.2 == .unread || x.2 == .held

theorem lane_answeredOnly (at' : Option (α × Place)) : lane answer (answeredOnly at') =
    {lane answer at' with wire := [], held := []} := by
  rcases at' with _ | ⟨a,place⟩
  · rfl
  · cases place <;> rfl

theorem lane_requestedOnly (at' : Option (α × Place)) : lane answer (requestedOnly at') =
    {lane answer at' with answers := [], noted := []} := by
  rcases at' with _ | ⟨a,place⟩
  · rfl
  · cases place <;> rfl

end FlightsOptimizer.Exchange
