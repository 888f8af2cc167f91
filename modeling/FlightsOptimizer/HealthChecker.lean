import Mathlib.Data.List.Infix
import Mathlib.Data.List.Nodup
import Mathlib.Logic.Function.Iterate
import Mathlib.Logic.Relation
import FlightsOptimizer.Text

/-!
# Health checkers

Every health checker watches all the processors and the next health checker. It
restarts a container that it cannot connect to, or that closes its connection: the
first that Docker lists for its name. Docker's listing is a parameter; it has the
containers that have the name somewhere in theirs, in any order. A checker process
whose connection fails in another way ends and watches no more.
-/
namespace FlightsOptimizer.HealthChecker
open Text Relation

def processorPrefixes : List String := ["tp1-filter_general_","tp1-filter_multiple_",
  "tp1-filter_avg_max_","tp1-filter_distancia_","tp1-filter_tres_escalas_o_mas_",
  "tp1-filter_dos_mas_rapidos_","tp1-filter_lat_long_","tp1-processor_tres_escalas_o_mas_",
  "tp1-processor_dos_mas_rapidos_","tp1-processor_distancias_","tp1-processor_max_avg_",
  "tp1-processor_media_general_","tp1-tagger_dos_mas_rapidos_","tp1-tagger_tres_escalas_o_mas_",
  "tp1-tagger_distancias_","tp1-tagger_max_avg_","tp1-load_balancer_","tp1-grouper_",
  "tp1-joiner_","tp1-server_"]

def healthCheckerPrefix : String := "tp1-health_checker_"

/-- `f"{processor_prefix}{i}{processor_suffix}"`. -/
def processorName (processorPrefix : String) (i : ℕ) : Text :=
  processorPrefix.toList ++ digits i ++ "-1".toList

/-- What `docker.containers.list(all=True, filters={"name": name})` answers: the
containers that have the name somewhere in theirs. -/
def ListsByName (containers : List Text) (list : Text → List Text) : Prop :=
  ∀ name c, c ∈ list name ↔ c ∈ containers ∧ name <:+: c

/-- The container that `restart_container` restarts, with Docker's listing. -/
def restartContainer (list : Text → List Text) (processorName : Text) : Option Text :=
  (list processorName).head?

/-- The name that Compose gives to the one container of a service. -/
def Composed (name : Text) : Prop :=
  ∃ service : Text, '-' ∉ service ∧ name = "tp1-".toList ++ service ++ "-1".toList

variable {a c name : Text} {containers : List Text} {list : Text → List Text} {i : ℕ}

theorem digits_no_dash (n : ℕ) : '-' ∉ digits n :=
  fun h => absurd ((allDigits_digits n).2 '-' h) (by decide)

theorem composed_processorName {p : String} (hp : p ∈ healthCheckerPrefix :: processorPrefixes)
    (i : ℕ) : Composed (processorName p i) := by
  have hall : ∀ p ∈ healthCheckerPrefix :: processorPrefixes,
      p.toList = "tp1-".toList ++ p.toList.drop 4 ∧ '-' ∉ p.toList.drop 4 := by decide
  obtain ⟨hstart,hdash⟩ := hall p hp
  refine ⟨p.toList.drop 4 ++ digits i,?_,?_⟩
  · rw [List.mem_append,not_or]
    exact ⟨hdash,digits_no_dash i⟩
  · unfold processorName
    rw [hstart]
    simp

theorem count_composed (h : Composed name) : name.count '-' = 2 := by
  obtain ⟨service,hs,rfl⟩ := h
  rw [List.count_append,List.count_append,List.count_eq_zero_of_not_mem hs]
  rfl

/-- The first of a symbol is in one place. -/
theorem eq_of_first {x : Char} {a a' b b' : Text} (ha : x ∉ a) (ha' : x ∉ a')
    (h : a ++ x :: b = a' ++ x :: b') : a = a' ∧ b = b' := by
  have hfirst : ∀ {a b : Text}, x ∉ a → Framing.splitFirst [x] (a ++ x :: b) = some (a,b) := by
    intro a b ha
    have hclean : Framing.Clean ([] ++ x :: []) a := clean_of_not_mem ha List.not_mem_nil
    have hsplit := Framing.splitFirst_clean hclean b
    rwa [List.append_assoc] at hsplit
  have heq := hfirst (b := b) ha
  rw [h,hfirst ha'] at heq
  obtain ⟨rfl,rfl⟩ := Prod.mk.inj (Option.some.inj heq)
  exact ⟨rfl,rfl⟩

/-- Two dashes hold a name in its place. -/
theorem eq_of_part (ha : Composed a) (hc : Composed c) (h : a <:+: c) : a = c := by
  obtain ⟨u,v,huv⟩ := h
  have hcount := congrArg (List.count '-') huv
  rw [List.count_append,List.count_append,count_composed ha,count_composed hc] at hcount
  have hu : '-' ∉ u := List.count_eq_zero.mp (by omega)
  have hv : '-' ∉ v := List.count_eq_zero.mp (by omega)
  obtain ⟨s,hs,rfl⟩ := ha
  obtain ⟨s',hs',rfl⟩ := hc
  have hsplit : (u ++ "tp1".toList) ++ '-' :: (s ++ "-1".toList ++ v) =
      "tp1".toList ++ '-' :: (s' ++ "-1".toList) := by
    simpa using huv
  have htp : '-' ∉ u ++ "tp1".toList := by
    rw [List.mem_append,not_or]
    exact ⟨hu,by decide⟩
  obtain ⟨_,hrest⟩ := eq_of_first htp (by decide) hsplit
  have hservice : s ++ '-' :: ('1' :: v) = s' ++ '-' :: ['1'] := by simpa using hrest
  obtain ⟨rfl,_⟩ := eq_of_first hs hs' hservice
  rfl

/-- A composed name lists no other container. -/
theorem restartContainer_eq (hlist : ListsByName containers list)
    (hcontainers : ∀ c ∈ containers, Composed c ∨ c.count '-' < 2) (hname : Composed name)
    (hmem : name ∈ containers) : restartContainer list name = some name := by
  have hall : ∀ c ∈ list name, c = name := by
    intro c hc
    obtain ⟨hc,hpart⟩ := (hlist name c).mp hc
    rcases hcontainers c hc with hcomposed | hfew
    · exact (eq_of_part hname hcomposed hpart).symm
    · have hle := hpart.sublist.count_le '-'
      rw [count_composed hname] at hle
      omega
  have hself : name ∈ list name := (hlist name name).mpr ⟨hmem,List.infix_refl name⟩
  unfold restartContainer
  cases hl : list name with
  | nil =>
      rw [hl] at hself
      cases hself
  | cons c cs =>
      rw [hall c (hl ▸ List.mem_cons_self)]
      rfl

/-- How many replicas there are of the processors, by prefix, and of the health
checkers. -/
structure HealthCheckerConfig where
  replicas : String → ℕ
  healthCheckerReplicas : ℕ

/-- The loop of `check_processor`: in `connect_to_processor`, or before the next
message on a connection that is open or closed, or out of the loop. -/
inductive Checker
  | connecting
  | watching (isOpen : Bool)
  | ended
  deriving DecidableEq

/-- Which containers are up, and the checker of each health checker for each
container. -/
structure Cluster where
  up : Text → Bool
  checker : ℕ → Text → Checker

section
variable (cfg : HealthCheckerConfig)

/-- The processors that `run` starts a checker for. -/
def processors : List Text :=
  processorPrefixes.flatMap fun p => (List.range' 1 (cfg.replicas p)).map (processorName p)

def nextReplicaId (currentReplicaId : ℕ) : ℕ := currentReplicaId % cfg.healthCheckerReplicas + 1

def healthChecker (replicaId : ℕ) : Text := processorName healthCheckerPrefix replicaId

/-- The containers that a health checker watches; itself it does not. -/
def targets (replicaId : ℕ) : List Text :=
  processors cfg ++ if nextReplicaId cfg replicaId = replicaId then [] else
    [healthChecker (nextReplicaId cfg replicaId)]

/-- A health checker with an id that is up. -/
def Alive (i : ℕ) (s : Cluster) : Prop :=
  1 ≤ i ∧ i ≤ cfg.healthCheckerReplicas ∧ s.up (healthChecker i) = true

end

def Checker.close : Checker → Checker
  | .watching _ => .watching false
  | k => k

/-- The connections to a container that goes down are closed. -/
def goDown (c : Text) (s : Cluster) : Cluster where
  up := Function.update s.up c false
  checker i t := if t = c then (s.checker i t).close else s.checker i t

/-- `container.restart(timeout=0)`: the connections to the container are closed,
and a health checker begins anew. -/
def restart (c : Text) (s : Cluster) : Cluster where
  up := Function.update s.up c true
  checker i t :=
    if c = healthChecker i then .connecting
    else if t = c then (s.checker i t).close else s.checker i t

def setChecker (i : ℕ) (t : Text) (k : Checker) (s : Cluster) : Cluster :=
  {s with checker := Function.update s.checker i (Function.update (s.checker i) t k)}

theorem setChecker_checker (i : ℕ) (t : Text) (k : Checker) (s : Cluster) (j : ℕ) (u : Text) :
    (setChecker i t k s).checker j u = if j = i ∧ u = t then k else s.checker j u := by
  change Function.update s.checker i (Function.update (s.checker i) t k) j u = _
  by_cases hj : j = i
  · subst hj
    rw [Function.update_self,Function.update_apply]
    by_cases hu : u = t
    · rw [if_pos hu,if_pos ⟨rfl,hu⟩]
    · rw [if_neg hu,if_neg fun h => hu h.2]
  · rw [Function.update_of_ne hj,if_neg fun h => hj h.1]

section
variable (cfg : HealthCheckerConfig) (list : Text → List Text)

/-- What a checker does: it connects, restarts a container that refuses, or
restarts one that has closed the connection. -/
inductive Check : Cluster → Cluster → Prop
  | connect {s : Cluster} {i : ℕ} {t : Text} : Alive cfg i s → t ∈ targets cfg i →
      s.checker i t = .connecting → s.up t = true → Check s (setChecker i t (.watching true) s)
  | refused {s : Cluster} {i : ℕ} {t c : Text} : Alive cfg i s → t ∈ targets cfg i →
      s.checker i t = .connecting → s.up t = false → restartContainer list t = some c →
      Check s (restart c s)
  | closed {s : Cluster} {i : ℕ} {t c : Text} : Alive cfg i s → t ∈ targets cfg i →
      s.checker i t = .watching false → restartContainer list t = some c →
      Check s (setChecker i t .connecting (restart c s))

/-- A checker does something, a container that is up does not take its connection
yet, a connection fails with an `OSError`, or a container goes down. -/
inductive Step : Cluster → Cluster → Prop
  | check {s s' : Cluster} : Check cfg list s s' → Step s s'
  | notYet {s : Cluster} {i : ℕ} {t c : Text} : Alive cfg i s → t ∈ targets cfg i →
      s.checker i t = .connecting → s.up t = true → restartContainer list t = some c →
      Step s (restart c s)
  | fails {s : Cluster} {i : ℕ} {t : Text} {isOpen : Bool} : s.checker i t = .watching isOpen →
      Step s (setChecker i t .ended s)
  | goDown {s : Cluster} (c : Text) : Step s (goDown c s)

end

/-- Everything is up and the checkers begin. -/
def started : Cluster := ⟨fun _ => true,fun _ _ => .connecting⟩

/-- What is deployed: the containers that are watched, among others whose names
Compose has given or have less than two dashes. -/
structure Deployed (cfg : HealthCheckerConfig) (containers : List Text) : Prop where
  named : ∀ c ∈ containers, Composed c ∨ c.count '-' < 2
  processors : ∀ t ∈ processors cfg, t ∈ containers
  healthCheckers : ∀ i, 1 ≤ i → i ≤ cfg.healthCheckerReplicas → healthChecker i ∈ containers

variable {cfg : HealthCheckerConfig} {s s' : Cluster} {t : Text}

/-- A connection is open only to a container that is up. -/
def Open (s : Cluster) : Prop := ∀ i t, s.checker i t = .watching true → s.up t = true

theorem close_ne_open (k : Checker) : k.close ≠ .watching true := by
  cases k <;> exact nofun

theorem close_ne_ended {k : Checker} (h : k ≠ .ended) : k.close ≠ .ended := by
  cases k with
  | ended => exact absurd rfl h
  | connecting => exact nofun
  | watching b => exact nofun

theorem Open.setChecker (h : Open s) {k : Checker} (hk : k = .watching true → s.up t = true) :
    Open (setChecker i t k s) := by
  intro j u hw
  rw [setChecker_checker] at hw
  split_ifs at hw with hju
  · rw [hju.2]
    exact hk hw
  · exact h j u hw

theorem Open.restart (h : Open s) (c : Text) : Open (restart c s) := by
  intro j u hw
  change (if c = healthChecker j then Checker.connecting
    else if u = c then (s.checker j u).close else s.checker j u) = .watching true at hw
  split_ifs at hw with hc hu
  · exact absurd hw (close_ne_open _)
  · refine (Function.update_of_ne hu _ s.up).trans (h j u hw)

theorem Open.goDown (h : Open s) (c : Text) : Open (goDown c s) := by
  intro j u hw
  change (if u = c then (s.checker j u).close else s.checker j u) = .watching true at hw
  split_ifs at hw with hu
  · exact absurd hw (close_ne_open _)
  · refine (Function.update_of_ne hu _ s.up).trans (h j u hw)

theorem Open.check (h : Open s) (hs : Check cfg list s s') : Open s' := by
  cases hs with
  | connect _ _ _ hup => exact h.setChecker fun _ => hup
  | refused _ _ _ _ _ => exact h.restart _
  | closed _ _ _ _ => exact (h.restart _).setChecker nofun

theorem open_of_run (h : ReflTransGen (Step cfg list) started s) : Open s := by
  induction h with
  | refl => exact fun i t hw => rfl
  | tail _ hs ih =>
      cases hs with
      | check hc => exact ih.check hc
      | notYet _ _ _ _ _ => exact ih.restart _
      | fails _ => exact ih.setChecker nofun
      | goDown c => exact ih.goDown c

/-- What a check does not undo. -/
structure Better (cfg : HealthCheckerConfig) (s s' : Cluster) : Prop where
  up : ∀ c, s.up c = true → s'.up c = true
  checker : ∀ i t, (Alive cfg i s → s.checker i t ≠ .ended) → Alive cfg i s' →
    s'.checker i t ≠ .ended

theorem Better.refl (s : Cluster) : Better cfg s s := ⟨fun _ h => h,fun _ _ h => h⟩

theorem Better.trans {s'' : Cluster} (h : Better cfg s s') (h' : Better cfg s' s'') :
    Better cfg s s'' :=
  ⟨fun c hc => h'.up c (h.up c hc),fun i t hk => h'.checker i t (h.checker i t hk)⟩

theorem better_restart (c : Text) (s : Cluster) : Better cfg s (restart c s) where
  up := fun u hu => by
    by_cases hc : u = c
    · rw [hc]
      exact Function.update_self ..
    · exact (Function.update_of_ne hc _ s.up).trans hu
  checker := fun i t hk hi => by
    change (if c = healthChecker i then Checker.connecting
      else if t = c then (s.checker i t).close else s.checker i t) ≠ .ended
    split_ifs with hc ht
    · exact nofun
    · have hup := hi.2.2
      change Function.update s.up c true (healthChecker i) = true at hup
      rw [Function.update_of_ne (Ne.symm hc)] at hup
      exact close_ne_ended (hk ⟨hi.1,hi.2.1,hup⟩)
    · have hup := hi.2.2
      change Function.update s.up c true (healthChecker i) = true at hup
      rw [Function.update_of_ne (Ne.symm hc)] at hup
      exact hk ⟨hi.1,hi.2.1,hup⟩

theorem better_setChecker {k : Checker} (hne : k ≠ .ended) (i : ℕ) (t : Text) (s : Cluster) :
    Better cfg s (setChecker i t k s) where
  up := fun _ h => h
  checker := fun j u hk hj => by
    rw [setChecker_checker]
    split_ifs
    · exact hne
    · exact hk hj

theorem composed_processors (ht : t ∈ processors cfg) : Composed t := by
  obtain ⟨p,hp,hmap⟩ := List.mem_flatMap.mp ht
  obtain ⟨k,_,rfl⟩ := List.mem_map.mp hmap
  exact composed_processorName (List.mem_cons_of_mem _ hp) k

/-- A restart hits the container that was meant. -/
theorem Deployed.target (hd : Deployed cfg containers) (hlist : ListsByName containers list)
    (hi : 1 ≤ i) (hin : i ≤ cfg.healthCheckerReplicas) (ht : t ∈ targets cfg i) :
    restartContainer list t = some t := by
  obtain ⟨hcomposed,hmem⟩ : Composed t ∧ t ∈ containers := by
    rcases List.mem_append.mp ht with hproc | hnext
    · exact ⟨composed_processors hproc,hd.processors t hproc⟩
    · split_ifs at hnext with hself
      · cases hnext
      · rw [List.mem_singleton] at hnext
        rw [hnext]
        refine ⟨composed_processorName List.mem_cons_self _,hd.healthCheckers _ ?_ ?_⟩
        · exact Nat.succ_pos _
        · exact Nat.mod_lt _ (Nat.lt_of_lt_of_le hi hin)
  exact restartContainer_eq hlist hd.named hcomposed hmem

/-- A target of a checker that has not ended is up, or is after one check. -/
theorem Deployed.revives (hd : Deployed cfg containers) (hlist : ListsByName containers list)
    (ho : Open s) (hi : Alive cfg i s) (ht : t ∈ targets cfg i) (hne : s.checker i t ≠ .ended) :
    s.up t = true ∨
    ∃ s', Check cfg list s s' ∧ Better cfg s s' ∧ s'.up t = true := by
  cases hup : s.up t with
  | true => exact Or.inl rfl
  | false =>
      have hrestart := hd.target hlist hi.1 hi.2.1 ht
      refine Or.inr ?_
      cases hk : s.checker i t with
      | connecting =>
          exact ⟨_,.refused hi ht hk hup hrestart,better_restart t s,Function.update_self ..⟩
      | watching b =>
          cases b with
          | true =>
              rw [ho i t hk] at hup
              cases hup
          | false =>
              have hconnecting : Checker.connecting ≠ .ended := nofun
              exact ⟨_,.closed hi ht hk hrestart,
                (better_restart t s).trans (better_setChecker hconnecting i t _),
                Function.update_self ..⟩
      | ended => exact absurd hk hne

/-- At most so many checks. -/
inductive Within (cfg : HealthCheckerConfig) (list : Text → List Text) (s : Cluster) :
    ℕ → Cluster → Prop
  | refl (n : ℕ) : Within cfg list s n s
  | step {n : ℕ} {s' s'' : Cluster} : Within cfg list s n s' →
      Check cfg list s' s'' → Within cfg list s (n+1) s''

theorem Within.mono {n m : ℕ} (h : Within cfg list s n s') (hnm : n ≤ m) :
    Within cfg list s m s' := by
  induction h generalizing m with
  | refl => exact .refl m
  | step _ hc ih =>
      obtain ⟨k,rfl⟩ : ∃ k, m = k+1 := ⟨m-1,by omega⟩
      exact (ih (by omega)).step hc

/-- The health checker that is reached from one of them by `k` hops. -/
def hop (cfg : HealthCheckerConfig) (i k : ℕ) : ℕ := (nextReplicaId cfg)^[k] i

theorem hop_succ (i k : ℕ) : hop cfg i (k+1) = nextReplicaId cfg (hop cfg i k) :=
  Function.iterate_succ_apply' ..

theorem hop_eq (hi : 1 ≤ i) (hin : i ≤ cfg.healthCheckerReplicas) (k : ℕ) :
    hop cfg i k = (i-1+k) % cfg.healthCheckerReplicas + 1 := by
  induction k with
  | zero =>
      rw [Nat.add_zero,Nat.mod_eq_of_lt (by omega)]
      change i = i-1+1
      omega
  | succ k ih => rw [hop_succ,ih,nextReplicaId,Nat.mod_add_mod,Nat.add_assoc]

/-- The ring leads to every health checker. -/
theorem exists_hop {j : ℕ} (hi : 1 ≤ i) (hin : i ≤ cfg.healthCheckerReplicas) (hj : 1 ≤ j)
    (hjn : j ≤ cfg.healthCheckerReplicas) : ∃ k, k < cfg.healthCheckerReplicas ∧ hop cfg i k = j := by
  by_cases hij : i ≤ j
  · refine ⟨j-i,by omega,?_⟩
    rw [hop_eq hi hin,show i-1+(j-i) = j-1 by omega,Nat.mod_eq_of_lt (by omega)]
    omega
  · refine ⟨j+cfg.healthCheckerReplicas-i,by omega,?_⟩
    rw [hop_eq hi hin,
      show i-1+(j+cfg.healthCheckerReplicas-i) = j-1+cfg.healthCheckerReplicas by omega,
      Nat.add_mod_right,Nat.mod_eq_of_lt (by omega)]
    omega

/-- No checker of the next health checker has ended, nor have all the checkers
of a processor, as far as their health checkers are up. -/
structure Watched (cfg : HealthCheckerConfig) (s : Cluster) : Prop where
  ring : ∀ i, Alive cfg i s → s.checker i (healthChecker (nextReplicaId cfg i)) ≠ .ended
  processors : ∀ t ∈ processors cfg, ∃ i, 1 ≤ i ∧ i ≤ cfg.healthCheckerReplicas ∧
    (Alive cfg i s → s.checker i t ≠ .ended)

theorem Watched.better (h : Watched cfg s) (hb : Better cfg s s') : Watched cfg s' where
  ring := fun i hi => hb.checker i _ (h.ring i) hi
  processors := fun t ht => by
    obtain ⟨i,hi,hin,hk⟩ := h.processors t ht
    exact ⟨i,hi,hin,hb.checker i t hk⟩

/-- Every `k` hops take `k` checks at most. -/
theorem Deployed.ring (hd : Deployed cfg containers) (hlist : ListsByName containers list)
    (ho : Open s) (hw : Watched cfg s) (hi : Alive cfg i s) (k : ℕ) :
    ∃ s', Within cfg list s k s' ∧ Better cfg s s' ∧ Open s' ∧
      ∀ m, m ≤ k → Alive cfg (hop cfg i m) s' := by
  induction k with
  | zero =>
      refine ⟨s,.refl 0,.refl s,ho,fun m hm => ?_⟩
      obtain rfl := Nat.le_zero.mp hm
      exact hi
  | succ k ih =>
      obtain ⟨s',hwithin,hb,ho',halive⟩ := ih
      have hlast := halive k (Nat.le_refl k)
      have hid : 1 ≤ hop cfg i (k+1) ∧ hop cfg i (k+1) ≤ cfg.healthCheckerReplicas := by
        rw [hop_eq hi.1 hi.2.1]
        exact ⟨Nat.succ_pos _,Nat.mod_lt _ (Nat.lt_of_lt_of_le hi.1 hi.2.1)⟩
      have hdone : ∀ s'' : Cluster, Better cfg s' s'' →
          s''.up (healthChecker (hop cfg i (k+1))) = true →
          ∀ m, m ≤ k+1 → Alive cfg (hop cfg i m) s'' := by
        intro s'' hb' hup m hm
        rcases Nat.lt_or_eq_of_le hm with hlt | rfl
        · have hm' := halive m (by omega)
          exact ⟨hm'.1,hm'.2.1,hb'.up _ hm'.2.2⟩
        · exact ⟨hid.1,hid.2,hup⟩
      by_cases hself : nextReplicaId cfg (hop cfg i k) = hop cfg i k
      · refine ⟨s',hwithin.mono (Nat.le_succ k),hb,ho',hdone s' (.refl s') ?_⟩
        rw [hop_succ,hself]
        exact hlast.2.2
      · have ht : healthChecker (hop cfg i (k+1)) ∈ targets cfg (hop cfg i k) := by
          unfold targets
          rw [if_neg hself,hop_succ]
          exact List.mem_append_right _ List.mem_cons_self
        have hne : s'.checker (hop cfg i k) (healthChecker (hop cfg i (k+1))) ≠ .ended := by
          rw [hop_succ]
          exact (hw.better hb).ring _ hlast
        rcases hd.revives hlist ho' hlast ht hne with hup | ⟨s'',hc,hb',hup⟩
        · exact ⟨s',hwithin.mono (Nat.le_succ k),hb,ho',hdone s' (.refl s') hup⟩
        · exact ⟨s'',hwithin.step hc,hb.trans hb',ho'.check hc,hdone s'' hb' hup⟩

/-- With all the health checkers up, each processor takes one check at most. -/
theorem all_revive (hd : Deployed cfg containers) (hlist : ListsByName containers list)
    (ho : Open s) (hw : Watched cfg s)
    (hall : ∀ j, 1 ≤ j → j ≤ cfg.healthCheckerReplicas → s.up (healthChecker j) = true)
    (ts : List Text) (hts : ts ⊆ processors cfg) : ∃ s', Within cfg list s ts.length s' ∧
      Better cfg s s' ∧ Open s' ∧ ∀ t ∈ ts, s'.up t = true := by
  induction ts with
  | nil => exact ⟨s,.refl 0,.refl s,ho,nofun⟩
  | cons t ts ih =>
      obtain ⟨s',hwithin,hb,ho',hup⟩ := ih fun u hu => hts (List.mem_cons_of_mem t hu)
      have ht := hts (List.mem_cons_self (a := t) (l := ts))
      obtain ⟨j,hj,hjn,hk⟩ := (hw.better hb).processors t ht
      have halive : Alive cfg j s' := ⟨hj,hjn,hb.up _ (hall j hj hjn)⟩
      rcases hd.revives hlist ho' halive (List.mem_append_left _ ht) (hk halive) with
        hone | ⟨s'',hc,hb',hone⟩
      · refine ⟨s',hwithin.mono (Nat.le_succ _),hb,ho',fun u hu => ?_⟩
        rcases List.mem_cons.mp hu with rfl | hu
        · exact hone
        · exact hup u hu
      · refine ⟨s'',hwithin.step hc,hb.trans hb',ho'.check hc,fun u hu => ?_⟩
        rcases List.mem_cons.mp hu with rfl | hu
        · exact hone
        · exact hb'.up u (hup u hu)

theorem Within.append {n m : ℕ} {s'' : Cluster} (h : Within cfg list s n s')
    (h' : Within cfg list s' m s'') : Within cfg list s (n+m) s'' := by
  induction h' with
  | refl => exact h.mono (Nat.le_add_right _ _)
  | step _ hc ih => exact ih.step hc

theorem Within.eq_of_quiet {n : ℕ} (h : Within cfg list s n s')
    (hquiet : ∀ s', ¬ Check cfg list s s') : s' = s := by
  induction h with
  | refl => rfl
  | step _ hc ih =>
      rw [ih] at hc
      exact absurd hc (hquiet _)

/-- All the containers that are watched are up. -/
def AllUp (cfg : HealthCheckerConfig) (s : Cluster) : Prop :=
  (∀ j, 1 ≤ j → j ≤ cfg.healthCheckerReplicas → s.up (healthChecker j) = true) ∧
    ∀ t ∈ processors cfg, s.up t = true

/-- Each restart of a checker hits the container that was meant. As long as one health
checker is up and no container has lost its checkers, everything can be brought up
again with one check for each container, whatever went down and in whatever order;
and where the checkers have nothing to do, everything is up. -/
theorem cluster_recovers (hd : Deployed cfg containers) (hlist : ListsByName containers list)
    (h : ReflTransGen (Step cfg list) started s) (hi : Alive cfg i s) (hw : Watched cfg s) :
    (∀ j, 1 ≤ j → j ≤ cfg.healthCheckerReplicas → ∀ t ∈ targets cfg j,
      restartContainer list t = some t) ∧
    (∃ s', Within cfg list s (cfg.healthCheckerReplicas + (processors cfg).length) s' ∧
      AllUp cfg s') ∧ ((∀ s', ¬ Check cfg list s s') → AllUp cfg s) := by
  obtain ⟨s',hwithin,hb,ho,halive⟩ :=
    hd.ring hlist (open_of_run h) hw hi cfg.healthCheckerReplicas
  have hall : ∀ j, 1 ≤ j → j ≤ cfg.healthCheckerReplicas → s'.up (healthChecker j) = true := by
    intro j hj hjn
    obtain ⟨k,hk,rfl⟩ := exists_hop hi.1 hi.2.1 hj hjn
    exact (halive k (Nat.le_of_lt hk)).2.2
  obtain ⟨s'',hwithin',hb',_,hprocs⟩ :=
    all_revive hd hlist ho (hw.better hb) hall (processors cfg) (List.Subset.refl _)
  have hup : AllUp cfg s'' := ⟨fun j hj hjn => hb'.up _ (hall j hj hjn),hprocs⟩
  have hrun := hwithin.append hwithin'
  refine ⟨fun j hj hjn t ht => hd.target hlist hj hjn ht,⟨s'',hrun,hup⟩,fun hquiet => ?_⟩
  rw [← hrun.eq_of_quiet hquiet]
  exact hup

/-- Two servers and two health checkers. -/
def twoServers : HealthCheckerConfig := ⟨fun p => if p = "tp1-server_" then 2 else 0,2⟩

def deployed : List Text := healthChecker 1 :: healthChecker 2 :: processors twoServers

/-- The containers in the order in which they were deployed. -/
def listDeployed (name : Text) : List Text := deployed.filter fun c => name <:+: c

/-- The second health checker loses its checker of the first server, the server
goes down and then the health checker. -/
theorem cluster_recovers_twoServers :
    let s := goDown (healthChecker 2) (goDown (processorName "tp1-server_" 1)
      (setChecker 2 (processorName "tp1-server_" 1) .ended
        (setChecker 2 (processorName "tp1-server_" 1) (.watching true) started)))
    (∀ j, 1 ≤ j → j ≤ 2 → ∀ t ∈ targets twoServers j, restartContainer listDeployed t = some t) ∧
    (∃ s', Within twoServers listDeployed s 4 s' ∧ AllUp twoServers s') ∧
    ((∀ s', ¬ Check twoServers listDeployed s s') → AllUp twoServers s) := by
  have hd : Deployed twoServers deployed := by
    refine ⟨?_,?_,?_⟩
    · intro c hc
      rcases List.mem_cons.mp hc with rfl | hc
      · exact Or.inl (composed_processorName List.mem_cons_self 1)
      rcases List.mem_cons.mp hc with rfl | hc
      · exact Or.inl (composed_processorName List.mem_cons_self 2)
      · exact Or.inl (composed_processors hc)
    · exact fun t ht => List.mem_cons_of_mem _ (List.mem_cons_of_mem _ ht)
    · intro j hj hjn
      obtain rfl | rfl : j = 1 ∨ j = 2 := by
        change j ≤ 2 at hjn
        omega
      · exact List.mem_cons_self
      · exact List.mem_cons_of_mem _ List.mem_cons_self
  have hlist : ListsByName deployed listDeployed := fun name c => by
    simp [listDeployed,List.mem_filter]
  refine cluster_recovers (i := 1) hd hlist ?_ ?_ ?_
  · refine .tail (.tail (.tail (.single (.check (.connect ?_ ?_ rfl rfl)))
      (@Step.fails _ _ _ 2 (processorName "tp1-server_" 1) true ?_)) (.goDown _)) (.goDown _)
    · exact ⟨by decide,by decide,rfl⟩
    · decide
    · decide
  · exact ⟨by decide,by decide,by decide⟩
  · refine ⟨?_,?_⟩
    · intro i hi
      obtain rfl | rfl : i = 1 ∨ i = 2 := by
        have hle : i ≤ 2 := hi.2.1
        have hge := hi.1
        omega
      · decide
      · decide
    · intro t ht
      have hservers : ∀ t ∈ processors twoServers, t = processorName "tp1-server_" 1 ∨
          t = processorName "tp1-server_" 2 := by decide
      obtain rfl | rfl := hservers t ht
      · exact ⟨1,by decide,by decide,fun _ => by decide⟩
      · exact ⟨1,by decide,by decide,fun _ => by decide⟩

end FlightsOptimizer.HealthChecker
