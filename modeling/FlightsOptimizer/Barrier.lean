import Mathlib.Algebra.Order.BigOperators.Group.Finset
import FlightsOptimizer.Grouper

/-!
# MediaGeneral behind its duplicate catcher

Each grouper reports under its own replica id, so a report that comes again is
dropped, and what media_general has added up are the reports seen so far, in the
order in which they came first. The report that completes them is answered by
their average, unless the division raises, and then the groupers that wait for
the average get none.
-/
namespace FlightsOptimizer.MaxAvg
open Logger Finset Arithmetic

/-- A report on the queue of media_general; its message id is the replica id of
the grouper. -/
structure Report (F : Type := ℚ) where
  clientId : ClientId
  messageId : MessageId
  message : PartialSum F
  deriving DecidableEq

inductive Answer (F : Type := ℚ) where
  | nothing
  | average (mediaGeneral : F)
  | raised
  deriving DecidableEq

/-- The replica with its catchers and its processors. -/
structure Service (F : Type := ℚ) where
  duplicateCatchers : Dict ClientId DuplicateCatcher
  processors : Dict ClientId (MediaGeneral F)

section
variable {F : Type}

/-- The groupers that a client's deliveries came from, in the order of their first
reports. -/
def seen (c : ClientId) (ds : List (Report F)) : List MessageId :=
  ds.foldl (fun ids d =>
    if d.clientId = c ∧ d.messageId ∉ ids then ids ++ [d.messageId] else ids) []

def replicaIds (G : ℕ) : List MessageId := List.range' 1 G

/-- The reports of a client: those of the groupers from 1 to `G`, each at least
once, among the reports of other clients. -/
structure Arrives (G : ℕ) (sent : MessageId → PartialSum F) (c : ClientId)
    (ds : List (Report F)) : Prop where
  report : ∀ d ∈ ds, d.clientId = c → d.messageId ∈ replicaIds G ∧ d.message = sent d.messageId
  complete : ∀ i ∈ replicaIds G, ∃ d ∈ ds, d.clientId = c ∧ d.messageId = i

def totalAmount (sent : MessageId → PartialSum F) (ids : List MessageId) : ℕ :=
  (ids.map fun i => (sent i).amount).sum

/-- The reports of a client, each once, in a given order. -/
def inOrder (sent : MessageId → PartialSum F) (c : ClientId) (order : List MessageId) :
    List (Report F) :=
  order.map fun i => ⟨c,i,sent i⟩

variable {G : ℕ} {sent : MessageId → PartialSum F} {c : ClientId} {ds : List (Report F)}
  {d : Report F}

section
variable (h : Arrives G sent c ds)
include h

end

variable [Arithmetic F]

/-- `process`. -/
def MediaGeneral.process (grouperReplicasCount : ℕ) (message : PartialSum F)
    (s : MediaGeneral F) : Answer F × MediaGeneral F :=
  let s := s.receive message
  (if s.amountReceived = grouperReplicasCount then s.average.elim .raised .average else .nothing,s)

def Answer.response : Answer F → Option (Connection.Response F)
  | .average mediaGeneral => some (.single mediaGeneral)
  | _ => none

/-- Where the receiver swallows what is raised, nothing is answered. -/
theorem mediaGeneral_process (G : ℕ) (m : PartialSum F) (s : MediaGeneral F) :
    (mediaGeneral G).process m s =
      ((MediaGeneral.process G m s).1.response,(MediaGeneral.process G m s).2) := by
  unfold mediaGeneral MediaGeneral.process
  simp only
  by_cases hG : (s.receive m).amountReceived = G
  · rw [if_pos hG,if_pos hG]
    cases (s.receive m).average <;> rfl
  · rw [if_neg hG,if_neg hG]
    rfl

namespace Service

def initial : Service F := ⟨.empty,.empty⟩

def duplicateCatcher (c : ClientId) (s : Service F) : DuplicateCatcher :=
  s.duplicateCatchers.getD c .empty

def processor (c : ClientId) (s : Service F) : MediaGeneral F := s.processors.getD c .init

/-- `callback` of a report. A known duplicate goes back without requeue. -/
def callback (G : ℕ) (d : Report F) (s : Service F) : Option (Answer F) × Service F :=
  let checked := (s.duplicateCatcher d.clientId).isDuplicate d.messageId
  let s := {s with duplicateCatchers := s.duplicateCatchers.set d.clientId checked.2}
  if checked.1 then (none,s)
  else
    let answer := (s.processor d.clientId).process G d.message
    (some answer.1,{s with processors := s.processors.set d.clientId answer.2})

/-- The replica after some deliveries. -/
def run (G : ℕ) (ds : List (Report F)) : Service F :=
  ds.foldl (fun s d => (s.callback G d).2) initial

end Service

/-- What media_general has added up of some reports. -/
def addedUp (sent : MessageId → PartialSum F) (ids : List MessageId) : MediaGeneral F :=
  ⟨ids.length,addUp (ids.map fun i => (sent i).totalFare),totalAmount sent ids⟩

theorem Service.run_append_singleton (G : ℕ) (ds : List (Report F)) (d : Report F) :
    run G (ds ++ [d]) = ((run G ds).callback G d).2 := by
  unfold run
  rw [List.foldl_append]
  rfl

/-- The catcher has seen what the processor has added up. -/
structure Counted (sent : MessageId → PartialSum F) (c : ClientId) (ids : List MessageId)
    (s : Service F) : Prop where
  catcher : s.duplicateCatcher c = ⟨ids.toFinset⟩
  processor : s.processor c = addedUp sent ids

theorem Service.callback_eq (G : ℕ) (d : Report F) (s : Service F) :
    s.callback G d =
      if ((s.duplicateCatcher d.clientId).isDuplicate d.messageId).1 = true then
        (none,⟨s.duplicateCatchers.set d.clientId
          ((s.duplicateCatcher d.clientId).isDuplicate d.messageId).2,s.processors⟩)
      else
        (some ((s.processor d.clientId).process G d.message).1,
          ⟨s.duplicateCatchers.set d.clientId
            ((s.duplicateCatcher d.clientId).isDuplicate d.messageId).2,
            s.processors.set d.clientId ((s.processor d.clientId).process G d.message).2⟩) := rfl

end

end FlightsOptimizer.MaxAvg
