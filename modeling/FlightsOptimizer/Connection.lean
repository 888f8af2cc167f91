import FlightsOptimizer.Receiver

/-!
# Connection.process

The loop that hands the rows of a batch to the processor of their client and
collects what it answers, and the regrouping by topic. Only the outcome matters
to the receiver: how often `send_all` is called, and whether the processor asked
for an EOF, which is the `Handling` of the batch.
-/
namespace FlightsOptimizer.Connection
open Receiver

inductive Response (α : Type) where
  | single (payload : α)
  | multiple (payload : List α)
  | notReady
  | sendEof (payload : α)

/-- The processor that `get_processor` keeps for one client. -/
structure Processor (σ μ α : Type) where
  init : σ
  process : μ → σ → Option (Response α) × σ
  finishProcessing : σ → Option (Response α) × σ

variable {σ μ α : Type}

/-- `processed_messages` and `send_eof` when the loop over the payload is done;
`none` is its early return. -/
def Processor.collect (p : Processor σ μ α) : List μ → σ → Option (List α × Bool) × σ
  | [], s => (some ([],false),s)
  | m :: ms, s =>
      let answer := p.process m s
      match answer.1 with
      | some .notReady => (none,answer.2)
      | none => p.collect ms answer.2
      | some (.single a) =>
          let rest := p.collect ms answer.2
          (rest.1.map fun c => (a :: c.1,c.2),rest.2)
      | some (.multiple as) =>
          let rest := p.collect ms answer.2
          (rest.1.map fun c => (as ++ c.1,c.2),rest.2)
      | some (.sendEof a) =>
          let rest := p.collect ms answer.2
          (rest.1.map fun c => (a :: c.1,true),rest.2)

/-- The rows that a processor answers to one batch after another. -/
def Processor.run (p : Processor σ μ α) : List (List μ) → σ → List α × σ
  | [],s => ([],s)
  | b :: bs,s =>
      let answer := p.collect b s
      let rest := p.run bs answer.2
      (((answer.1.map Prod.fst).getD []) ++ rest.1,rest.2)

/-- `send_messages_topic`: one message for each topic among the rows. -/
def messagesByTopic (messages : List (ℕ × α)) : Dict ℕ (List α) := Dict.group messages

/-- A topic exchange gets one message for each topic, a queue gets one message. -/
def handlingTopic : Option (List (ℕ × α) × Bool) → Handling
  | none => .notReady
  | some c => .done (messagesByTopic c.1).entries.length c.2

def handlingQueue : Option (List α × Bool) → Handling
  | none => .notReady
  | some c => .done (if c.1.isEmpty then 0 else 1) c.2

/-- A processor that answers every row with one message. -/
theorem collect_single {p : Processor σ μ α} {f : μ → α} {s : σ}
    (h : ∀ m, p.process m s = (some (.single (f m)),s)) (ms : List μ) :
    p.collect ms s = (some (ms.map f,false),s) := by
  induction ms with
  | nil => rfl
  | cons m ms ih =>
      unfold Processor.collect
      rw [h m]
      simp only [ih,Option.map_some,List.map_cons]

/-- A processor that takes every row in and answers nothing. -/
theorem collect_none {p : Processor σ μ α} {f : σ → μ → σ}
    (h : ∀ m s, p.process m s = (none,f s m)) (ms : List μ) (s : σ) :
    p.collect ms s = (some ([],false),ms.foldl f s) := by
  induction ms generalizing s with
  | nil => rfl
  | cons m ms ih =>
      unfold Processor.collect
      rw [h m s]
      exact ih (f s m)

theorem run_none {p : Processor σ μ α} {f : σ → μ → σ}
    (h : ∀ m s, p.process m s = (none,f s m)) (bs : List (List μ)) (s : σ) :
    p.run bs s = ([],bs.flatten.foldl f s) := by
  induction bs generalizing s with
  | nil => rfl
  | cons b bs ih =>
      unfold Processor.run
      simp only [collect_none h,ih,List.flatten_cons,List.foldl_append]
      rfl

/-- A processor that asks for an EOF with every row. -/
theorem collect_sendEof {p : Processor σ μ α} {f : μ → α} {s : σ}
    (h : ∀ m, p.process m s = (some (.sendEof (f m)),s)) (ms : List μ) :
    p.collect ms s = (some (ms.map f,!ms.isEmpty),s) := by
  induction ms with
  | nil => rfl
  | cons m ms ih =>
      unfold Processor.collect
      rw [h m]
      simp only [ih,Option.map_some,List.map_cons]
      rfl

theorem run_sendEof {p : Processor σ μ α} {f : μ → α} {s : σ}
    (h : ∀ m, p.process m s = (some (.sendEof (f m)),s)) (bs : List (List μ)) :
    p.run bs s = (bs.flatten.map f,s) := by
  induction bs with
  | nil => rfl
  | cons b bs ih =>
      unfold Processor.run
      simp only [collect_sendEof h,ih,List.flatten_cons,List.map_append]
      rfl

/-- There are as many messages as topics. -/
theorem length_messagesByTopic (messages : List (ℕ × α)) :
    (messagesByTopic messages).entries.length = (messages.map Prod.fst).toFinset.card := by
  have hset : (messagesByTopic messages).keys.toFinset = (messages.map Prod.fst).toFinset := by
    ext k
    rw [List.mem_toFinset,List.mem_toFinset]
    exact Dict.mem_keys_group messages k
  have hcard : (messagesByTopic messages).keys.toFinset.card = (messagesByTopic messages).keys.length :=
    List.toFinset_card_of_nodup (messagesByTopic messages).distinct
  rw [← hset,hcard]
  exact (List.length_map _).symm

end FlightsOptimizer.Connection
