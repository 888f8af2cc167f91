import Mathlib.Order.Basic

/-!
# Interruptible processes

A process takes one event at a time, answers it with a program of atomic
actions, and may be killed between any two of them; a killed process restarts
by a recovery function that reads what its state kept. The state is one value:
what a recovery forgets is the recovery's business.

`Run` collects the configurations reached by events that meet a guard. If a
property of idle states survives every complete program and every recovery from
a partly executed one, then each reached configuration is a partly executed
program of an idle state that has it. `Survives` packs the obligations, and
`Throughout` has one rule for each way of building a program.
-/
namespace FlightsOptimizer.Interruptible

structure Process (σ ε α : Type) where
  init : σ
  begin : ε → σ → Option (σ × List α)
  exec : α → σ → σ
  recover : σ → Option σ

structure Config (σ α : Type) where
  state : σ
  pending : List α

inductive Event (ε : Type) where
  | begin (e : ε)
  | tick
  | crash
  deriving DecidableEq

variable {σ ε α : Type}

def Config.idle (s : σ) : Config σ α := ⟨s,[]⟩

namespace Process
variable (P : Process σ ε α)

/-- All actions of a program in order. -/
def execAll (actions : List α) (s : σ) : σ := actions.foldl (fun t a => P.exec a t) s

@[simp] theorem execAll_nil (s : σ) : P.execAll [] s = s := rfl

@[simp] theorem execAll_cons (a : α) (as : List α) (s : σ) :
    P.execAll (a :: as) s = P.execAll as (P.exec a s) := rfl

theorem execAll_append (as bs : List α) (s : σ) :
    P.execAll (as ++ bs) s = P.execAll bs (P.execAll as s) := by
  simp only [execAll,List.foldl_append]

/-- An event begins only when nothing is pending; a crash may come at any time. -/
def step (c : Config σ α) : Event ε → Option (Config σ α)
  | .begin e =>
      match c.pending with
      | [] => (P.begin e c.state).map fun r => ⟨r.1,r.2⟩
      | _ :: _ => none
  | .tick =>
      match c.pending with
      | [] => none
      | a :: rest => some ⟨P.exec a c.state,rest⟩
  | .crash => (P.recover c.state).map Config.idle

/-- Replays a list of events, each of which has to pass a check. -/
def replay (allowed : Config σ α → Event ε → Bool) (c : Config σ α) (es : List (Event ε)) :
    Option (Config σ α) :=
  es.foldlM (fun c e => if allowed c e then P.step c e else none) c

/-- Configurations reached from the initial one by events that meet the guard. -/
inductive Run (guard : Config σ α → Event ε → Prop) : Config σ α → Prop
  | init : Run guard (.idle P.init)
  | step {c d : Config σ α} {e : Event ε} :
      Run guard c → guard c e → P.step c e = some d → Run guard d

/-- `c` executes, up to some action, a program that began in the idle state `s`. -/
def Midway (guard : Config σ α → Event ε → Prop) (s : σ) (c : Config σ α) : Prop :=
  c = .idle s ∨ ∃ e t program done, guard (.idle s) (.begin e) ∧ P.begin e s = some (t,program) ∧
    program = done ++ c.pending ∧ c.state = P.execAll done t

/-- What a property of idle states has to survive. -/
structure Preserves (guard : Config σ α → Event ε → Prop) (Good : σ → Prop) : Prop where
  init : Good P.init
  complete : ∀ e s t program, Good s → guard (.idle s) (.begin e) →
    P.begin e s = some (t,program) → Good (P.execAll program t)
  recovered : ∀ s c t, Good s → P.Midway guard s c → guard c .crash →
    P.recover c.state = some t → Good t

variable {P}
variable {guard : Config σ α → Event ε → Prop} {Good : σ → Prop} {c d : Config σ α}

theorem begin_of_step {e : ε} (h : P.step c (.begin e) = some d) :
    c.pending = [] ∧ ∃ t program, P.begin e c.state = some (t,program) ∧ d = ⟨t,program⟩ := by
  cases hc : c.pending with
  | cons a rest => simp [step,hc] at h
  | nil =>
      simp only [step,hc,Option.map_eq_some_iff] at h
      obtain ⟨⟨t,program⟩,hb,hd⟩ := h
      exact ⟨rfl,t,program,hb,hd.symm⟩

theorem tick_of_step (h : P.step c .tick = some d) :
    ∃ a rest, c.pending = a :: rest ∧ d = ⟨P.exec a c.state,rest⟩ := by
  cases hc : c.pending with
  | nil => simp [step,hc] at h
  | cons a rest =>
      simp only [step,hc,Option.some.injEq] at h
      exact ⟨a,rest,rfl,h.symm⟩

theorem crash_of_step (h : P.step c .crash = some d) :
    P.recover c.state = some d.state ∧ d.pending = [] := by
  simp only [step,Option.map_eq_some_iff] at h
  obtain ⟨t,ht,rfl⟩ := h
  exact ⟨ht,rfl⟩

theorem eq_idle (hi : c.pending = []) : c = .idle c.state := by
  cases c
  cases hi
  rfl

theorem Preserves.idle (hp : P.Preserves guard Good) {s : σ} {c : Config σ α} (hs : Good s)
    (hm : P.Midway guard s c) (hi : c.pending = []) : Good c.state := by
  rcases hm with rfl | ⟨e,t,program,done,hg,hb,hd,hc⟩
  · exact hs
  · rw [hi,List.append_nil] at hd
    subst hd
    rw [hc]
    exact hp.complete e s t program hs hg hb

/-- What is pending can be executed to its end. -/
theorem Run.drain (ht : ∀ c, guard c .tick) {s : σ} {as : List α} (h : P.Run guard ⟨s,as⟩) :
    P.Run guard (.idle (P.execAll as s)) := by
  induction as generalizing s with
  | nil => exact h
  | cons a as ih => exact ih (.step h (ht _) rfl)

theorem Run.midway (hp : P.Preserves guard Good) {c : Config σ α} (h : P.Run guard c) :
    ∃ s, Good s ∧ P.Midway guard s c := by
  induction h with
  | init => exact ⟨P.init,hp.init,Or.inl rfl⟩
  | @step c d e _ hg hstep ih =>
      obtain ⟨s,hs,hm⟩ := ih
      cases e with
      | begin e =>
          obtain ⟨hc,t,program,hb,rfl⟩ := begin_of_step hstep
          refine ⟨c.state,hp.idle hs hm hc,Or.inr ⟨e,t,program,[],?_,hb,rfl,rfl⟩⟩
          rw [← eq_idle hc]
          exact hg
      | tick =>
          obtain ⟨a,rest,hc,rfl⟩ := tick_of_step hstep
          rcases hm with rfl | ⟨e,t,program,done,hg,hb,hprogram,hs'⟩
          · simp [Config.idle] at hc
          · refine ⟨s,hs,Or.inr ⟨e,t,program,done ++ [a],hg,hb,?_,?_⟩⟩
            · rw [hprogram,hc,List.append_assoc]
              rfl
            · rw [P.execAll_append,← hs']
              rfl
      | crash =>
          obtain ⟨ht,hi⟩ := crash_of_step hstep
          exact ⟨d.state,hp.recovered s c d.state hs hm hg ht,Or.inl (eq_idle hi)⟩

/-- The invariant rule: at every idle configuration of a run the property holds. -/
theorem Run.good (hp : P.Preserves guard Good) {c : Config σ α} (h : P.Run guard c)
    (hi : c.pending = []) : Good c.state := by
  obtain ⟨s,hs,hm⟩ := h.midway hp
  exact hp.idle hs hm hi

/-- `I` holds between any two actions of a program, its two ends included. -/
def Throughout (P : Process σ ε α) (I : σ → Prop) (program : List α) (s : σ) : Prop :=
  ∀ done, done <+: program → I (P.execAll done s)

theorem throughout_nil {I : σ → Prop} {s : σ} (h : I s) : P.Throughout I [] s := by
  intro done hd
  rw [List.prefix_nil.mp hd]
  exact h

theorem throughout_cons {I : σ → Prop} {a : α} {as : List α} {s : σ} (h : I s)
    (hs : P.Throughout I as (P.exec a s)) : P.Throughout I (a :: as) s := by
  intro done hd
  cases done with
  | nil => exact h
  | cons b bs =>
      obtain ⟨rfl,hb⟩ := List.cons_prefix_cons.mp hd
      exact hs bs hb

theorem throughout_append {I : σ → Prop} {as bs : List α} {s : σ} (h : P.Throughout I as s)
    (hs : P.Throughout I bs (P.execAll as s)) : P.Throughout I (as ++ bs) s := by
  intro done hd
  rcases Nat.le_total done.length as.length with hl | hl
  · exact h done (List.prefix_of_prefix_length_le hd (List.prefix_append as bs) hl)
  · obtain ⟨rest,rfl⟩ := List.prefix_of_prefix_length_le (List.prefix_append as bs) hd hl
    rw [P.execAll_append]
    exact hs rest (List.prefix_append_right_inj as |>.mp hd)

theorem throughout_optional {I : σ → Prop} {b : Prop} [Decidable b] {a : α} {s : σ} (h : I s)
    (hs : I (P.execAll (if b then [a] else []) s)) :
    P.Throughout I (if b then [a] else []) s := by
  split_ifs at hs ⊢
  · exact throughout_cons h (throughout_nil hs)
  · exact throughout_nil h

/-- The rule for a stretch of alike actions: each of them keeps the property. -/
theorem throughout_of_forall {I : σ → Prop} {program : List α} {s : σ} (h : I s)
    (hs : ∀ a ∈ program, ∀ t, I t → I (P.exec a t)) : P.Throughout I program s := by
  induction program generalizing s with
  | nil => exact throughout_nil h
  | cons a as ih =>
      refine throughout_cons h (ih (hs a List.mem_cons_self s h) ?_)
      intro b hb
      exact hs b (List.mem_cons_of_mem a hb)

theorem Throughout.mono {I J : σ → Prop} {program : List α} {s : σ}
    (h : P.Throughout I program s) (hij : ∀ t, I t → J t) : P.Throughout J program s :=
  fun done hd => hij _ (h done hd)

/-- What a pair of properties has to survive: `Good` of idle states, and `Kept`
of every state, which is all that a recovery may rely on. -/
structure Survives (P : Process σ ε α) (guard : Config σ α → Event ε → Prop)
    (Good Kept : σ → Prop) : Prop where
  init : Good P.init
  kept : ∀ s, Good s → Kept s
  complete : ∀ e s t program, Good s → guard (.idle s) (.begin e) →
    P.begin e s = some (t,program) → Good (P.execAll program t)
  through : ∀ e s t program, Good s → guard (.idle s) (.begin e) →
    P.begin e s = some (t,program) → P.Throughout Kept program t
  recovered : ∀ c t, Kept c.state → guard c .crash → P.recover c.state = some t → Good t

theorem Survives.midway {Kept : σ → Prop} (hp : P.Survives guard Good Kept) {s : σ}
    {c : Config σ α} (hs : Good s) (hm : P.Midway guard s c) : Kept c.state := by
  rcases hm with rfl | ⟨e,t,program,done,hg,hb,hd,hc⟩
  · exact hp.kept s hs
  · rw [hc]
    exact hp.through e s t program hs hg hb done (hd ▸ List.prefix_append done c.pending)

theorem Survives.preserves {Kept : σ → Prop} (hp : P.Survives guard Good Kept) :
    P.Preserves guard Good where
  init := hp.init
  complete := hp.complete
  recovered := fun _ c t hs hm hg ht => hp.recovered c t (hp.midway hs hm) hg ht

theorem Run.idle {Kept : σ → Prop} (hp : P.Survives guard Good Kept) {c : Config σ α}
    (h : P.Run guard c) (hi : c.pending = []) : Good c.state :=
  h.good hp.preserves hi

theorem Run.kept {Kept : σ → Prop} (hp : P.Survives guard Good Kept) {c : Config σ α}
    (h : P.Run guard c) : Kept c.state := by
  obtain ⟨s,hs,hm⟩ := h.midway hp.preserves
  exact hp.midway hs hm

/-- One property that even a killed process keeps. -/
theorem Run.always {J : σ → Prop} (init : J P.init)
    (through : ∀ e s t program, J s → guard (.idle s) (.begin e) →
      P.begin e s = some (t,program) → P.Throughout J program t)
    (recovered : ∀ c t, J c.state → guard c .crash → P.recover c.state = some t → J t)
    {c : Config σ α} (h : P.Run guard c) : J c.state := by
  have hp : P.Survives guard J J := by
    refine ⟨init,fun _ hs => hs,?_,through,recovered⟩
    intro e s t program hs hg hb
    exact through e s t program hs hg hb program List.prefix_rfl
  exact h.kept hp

/-- A weaker guard admits more runs. -/
theorem Run.mono {guard' : Config σ α → Event ε → Prop} (hg : ∀ c e, guard c e → guard' c e)
    {c : Config σ α} (h : P.Run guard c) : P.Run guard' c := by
  induction h with
  | init => exact .init
  | step _ he hs ih => exact .step ih (hg _ _ he) hs

/-- A replayed list of events stays within the run. -/
theorem Run.replay {allowed : Config σ α → Event ε → Bool}
    (hg : ∀ c e, allowed c e = true → guard c e) {c d : Config σ α} (hc : P.Run guard c)
    {es : List (Event ε)} (hs : P.replay allowed c es = some d) : P.Run guard d := by
  induction es generalizing c with
  | nil =>
      simp only [Process.replay,List.foldlM_nil,Option.pure_def,Option.some.injEq] at hs
      exact hs ▸ hc
  | cons e es ih =>
      simp only [Process.replay,List.foldlM_cons,Option.bind_eq_bind,Option.bind_eq_some_iff] at hs
      obtain ⟨c₁,h₁,h₂⟩ := hs
      cases he : allowed c e with
      | false => simp [he] at h₁
      | true =>
          rw [he,if_pos rfl] at h₁
          exact ih (.step hc (hg c e he) h₁) h₂

theorem run_replay {allowed : Config σ α → Event ε → Bool}
    (hg : ∀ c e, allowed c e = true → guard c e) {es : List (Event ε)}
    (hs : (P.replay allowed (.idle P.init) es).isSome = true) :
    P.Run guard ((P.replay allowed (.idle P.init) es).get hs) :=
  Run.replay hg .init (Option.some_get hs).symm

/-- A process that does the actions of another among its own. -/
structure Hosts {σ' ε' α' : Type} (Q : Process σ' ε' α') (P : Process σ ε α) where
  state : σ' → σ
  action : α' → Option α
  exec : ∀ a s, state (Q.exec a s) = (action a).elim (state s) fun b => P.exec b (state s)

variable {σ' ε' α' : Type} {Q : Process σ' ε' α'}

theorem Hosts.execAll (h : Q.Hosts P) (as : List α') (s : σ') :
    h.state (Q.execAll as s) = P.execAll (as.filterMap h.action) (h.state s) := by
  induction as generalizing s with
  | nil => rfl
  | cons a as ih =>
      rw [execAll_cons,ih,h.exec]
      cases ha : h.action a with
      | none => rw [List.filterMap_cons_none ha,Option.elim_none]
      | some b => rw [List.filterMap_cons_some ha,Option.elim_some,execAll_cons]

theorem Hosts.throughout (h : Q.Hosts P) {I : σ → Prop} {program : List α'} {s : σ'}
    (hp : P.Throughout I (program.filterMap h.action) (h.state s)) :
    Q.Throughout (fun t => I (h.state t)) program s := by
  intro done hd
  rw [h.execAll]
  obtain ⟨rest,rfl⟩ := hd
  exact hp _ (by rw [List.filterMap_append]; exact List.prefix_append _ _)

end Process
end FlightsOptimizer.Interruptible
