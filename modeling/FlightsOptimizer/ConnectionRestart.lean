import Mathlib.Data.Set.List
import FlightsOptimizer.Restart

/-!
# Constructing a connection again

The four stateful processors side by side, and what a restart of their
connection gives for any batches that the receiver acknowledged, raising rows
among them. A restart goes through, and rebuilds what the live connection had,
exactly when no batch has a row on which the replay raises; for media_general,
moreover, when the live connection has lost no row behind a division that raised.
-/
namespace FlightsOptimizer.Statefull
open Text LoggerText Replay

inductive Kind where
  | dosMasRapidos
  | grouper
  | mediaGeneral (grouperReplicasCount : ℕ)
  | latLong
  deriving DecidableEq, Repr

namespace Kind
variable (b : Builtins)

def State : Kind → Type
  | .dosMasRapidos => Dict Text (List Row)
  | .grouper => Dict Text (List ℚ)
  | .mediaGeneral _ => MediaGeneral
  | .latLong => Dict Text (Text × Text)

def processor : (k : Kind) → Processor Row k.State
  | .dosMasRapidos => Statefull.dosMasRapidos b
  | .grouper => Statefull.grouper b
  | .mediaGeneral n => Statefull.mediaGeneral b n
  | .latLong => Statefull.latLong

/-- The row has its fields, and its numbers are numbers. -/
def WellFormed : Kind → Row → Prop
  | .dosMasRapidos, m => (convertMessageToTrajectory m).isSome = true ∧
      (convertMessageToTravelDuration b m).isSome = true
  | .grouper, m => Priced b m
  | .mediaGeneral _, m => Numeric b m
  | .latLong, m => Located m

def Equivalent : (k : Kind) → k.State → k.State → Prop
  | .dosMasRapidos => SameFastest b
  | .grouper => SameFares
  | .mediaGeneral _ => fun s t => s = t
  | .latLong => SameAirports

/-- No division that raises in the replay, and none that cost the live processor a row. -/
def Undivided : Kind → List (List Row) → Prop
  | .mediaGeneral n, batches => Divisible b n batches.reverse.flatten ∧ ¬Cuts b n batches
  | _, _ => True

/-- Coordinates depend on the order of the batches; the rest does not. -/
def UpToOrder (batches : List (List Row)) : (k : Kind) → k.State → k.State → Prop
  | .dosMasRapidos => Equivalent b .dosMasRapidos
  | .grouper => Equivalent b .grouper
  | .mediaGeneral n => Equivalent b (.mediaGeneral n)
  | .latLong => fun s _ => ∃ order : List (List Row), order.Perm batches ∧
      SameAirports s (Statefull.latLong.live order)

/-- The rows of the batches raise nothing in the replay. -/
def Fine : Kind → List (List Row) → Prop
  | .dosMasRapidos, batches => Timed b batches.flatten
  | .grouper, batches => ∀ m ∈ batches.flatten, Priced b m
  | .mediaGeneral n, batches => (∀ m ∈ batches.flatten, Numeric b m) ∧
      Divisible b n batches.reverse.flatten ∧ ¬Cuts b n batches
  | .latLong, batches => ∀ m ∈ batches.flatten, Located m

variable {b} {batches : List (List Row)}

/-- A restart of the airports, for any property of what it gives. -/
theorem replay_latLong {R : Dict Text (Text × Text) → Prop}
    (hR : (∀ m ∈ batches.flatten, Located m) → R (dict (batches.reverse.flatten.map located))) :
    (∃ t, Statefull.latLong.run batches.reverse.flatten Statefull.latLong.init = .done t ∧ R t) ↔
      ∀ m ∈ batches.flatten, Located m := by
  have hperm := Processor.perm_flatten_reverse batches
  constructor
  · rintro ⟨t,ht,-⟩ m hm
    exact ((run_latLong _ t).mp ht).1 m (hperm.mem_iff.mpr hm)
  · intro h
    exact ⟨_,(run_latLong batches.reverse.flatten _).mpr
      ⟨fun m hm => h m (hperm.mem_iff.mp hm),rfl⟩,hR h⟩

/-- The replay of one client's batches against its live processor. -/
theorem replay (k : Kind) : (∃ t, (k.processor b).run batches.reverse.flatten (k.processor b).init =
      .done t ∧ k.UpToOrder b batches t ((k.processor b).live batches)) ↔ k.Fine b batches := by
  cases k with
  | dosMasRapidos => exact (orderFree_dosMasRapidos b).replay batches
  | grouper => exact orderFree_grouper.replay batches
  | mediaGeneral n => exact replay_mediaGeneral batches
  | latLong =>
      apply replay_latLong
      intro h
      have hrun := (run_latLong batches.reverse.flatten _).mpr
        ⟨fun m hm => h m ((Processor.perm_flatten_reverse batches).mem_iff.mp hm),rfl⟩
      refine ⟨batches.reverse,List.reverse_perm batches,?_⟩
      rw [Processor.live_of_run hrun]
      exact fun code => rfl

/-- With consistent coordinates nothing depends on the order. -/
theorem replay_equivalent (k : Kind) (hc : k = .latLong → Consistent batches.flatten) :
    (∃ t, (k.processor b).run batches.reverse.flatten (k.processor b).init = .done t ∧
      k.Equivalent b t ((k.processor b).live batches)) ↔ k.Fine b batches := by
  cases k with
  | dosMasRapidos => exact replay .dosMasRapidos
  | grouper => exact replay .grouper
  | mediaGeneral n => exact replay (.mediaGeneral n)
  | latLong =>
      apply replay_latLong
      intro h code
      have hperm := Processor.perm_flatten_reverse batches
      have hlive := (run_latLong batches.flatten _).mpr ⟨h,rfl⟩
      have hrun := (run_latLong batches.reverse.flatten _).mpr
        ⟨fun m hm => h m (hperm.mem_iff.mp hm),rfl⟩
      exact (sameAirports_of_run hperm.symm (hc rfl) hlive hrun code).symm.trans
        (congrArg (fun d : Dict Text (Text × Text) => d.get? code)
          (Processor.live_of_run hlive).symm)

theorem fine_nil (k : Kind) : k.Fine b [] := by
  cases k with
  | dosMasRapidos => exact ⟨fun _ hm => (by cases hm),fun _ hlen => (by cases hlen)⟩
  | grouper => exact fun _ hm => by cases hm
  | mediaGeneral n =>
      refine ⟨fun _ hm => (by cases hm),?_,?_⟩
      · intro front hf hzero
        exact hzero.1 (List.prefix_nil.mp hf)
      · rintro ⟨before,front,rest,later,h,-⟩
        simp at h
  | latLong => exact fun _ hm => by cases hm

/-- Well-formed rows raise nothing but the division. -/
theorem fine_of_wellFormed {k : Kind} (h : ∀ m ∈ batches.flatten, k.WellFormed b m) :
    k.Fine b batches ↔ k.Undivided b batches := by
  cases k with
  | dosMasRapidos =>
      refine iff_of_true ⟨fun m hm => (h m hm).1,?_⟩ trivial
      intro t _ m hm
      exact (h m (List.mem_filter.mp hm).1).2
  | grouper => exact iff_of_true h trivial
  | mediaGeneral n => exact and_iff_right h
  | latLong => exact iff_of_true h trivial

end Kind

section
variable (b : Builtins) (k : Kind) (inputFields : List Text) (c : ℤ) (ds : List Batch)

/-- Restoring a client's processor from the log of well-formed batches gives what
the live one has, where media_general does not divide by zero. For LatLong, equal
airport codes come with equal coordinates. -/
theorem restore_equivalent
    (hrows : ∀ m ∈ (batchesOf (parsePayload b inputFields) c ds).flatten, k.WellFormed b m)
    (hcoordinates : k = .latLong →
      Consistent (batchesOf (parsePayload b inputFields) c ds).flatten) :
    (∃ s, restoreStatefullProcessor (k.processor b) c
          (received (k.processor b) (parsePayload b inputFields) ds).files = some s ∧
        k.Equivalent b s ((received (k.processor b) (parsePayload b inputFields) ds).getProcessor
          (k.processor b) c)) ↔
      k.Undivided b (batchesOf (parsePayload b inputFields) c ds) := by
  have hlive := processors_received (k.processor b) (parsePayload b inputFields) c ds
  rw [getProcessor_of_processors hlive,restore_received,← Kind.fine_of_wellFormed hrows,
    ← k.replay_equivalent hcoordinates]
  simp only [Outcome.done?_eq_some]

end

def routeFields : List Text :=
  ["startingAirport".toList,"destinationAirport".toList,"totalFare".toList]

def sumFields : List Text := ["sum".toList,"amount".toList]

/-- Two batches of one client, the first with two fares. -/
def twoBatches : List Batch := [⟨7,1,"A,B,10\nA,C,5".toList⟩,⟨8,1,"A,B,20".toList⟩]

theorem restore_equivalent_twoBatches : ∃ s, restoreStatefullProcessor
      (Kind.grouper.processor asciiBuiltins) 1 (received (Kind.grouper.processor asciiBuiltins)
        (parsePayload asciiBuiltins routeFields) twoBatches).files = some s ∧
    SameFares s ((received (Kind.grouper.processor asciiBuiltins)
      (parsePayload asciiBuiltins routeFields) twoBatches).getProcessor
        (Kind.grouper.processor asciiBuiltins) 1) := by
  have hrows : ∀ m ∈ (batchesOf (parsePayload asciiBuiltins routeFields) 1 twoBatches).flatten,
      Priced asciiBuiltins m := by decide
  exact (restore_equivalent asciiBuiltins .grouper routeFields 1 twoBatches hrows
    (fun h => by cases h)).mpr trivial

/-- One grouper, which had no flights: its well-formed report keeps media_general
from starting again. -/
theorem restore_noFlights : (∀ m ∈ (batchesOf (parsePayload asciiBuiltins sumFields) 1
      [⟨1,1,"0,0".toList⟩]).flatten, Numeric asciiBuiltins m) ∧
    restoreStatefullProcessor ((Kind.mediaGeneral 1).processor asciiBuiltins) 1
      (received ((Kind.mediaGeneral 1).processor asciiBuiltins)
        (parsePayload asciiBuiltins sumFields) [⟨1,1,"0,0".toList⟩]).files = none := by
  refine ⟨by decide,?_⟩
  rw [restore_received]
  rfl

section
variable {σ : Type} (P : Processor Row σ) (rows : Text → List Row) (ds : List Batch)

theorem batchesOf_ne_nil (c : ℤ) : batchesOf rows c ds ≠ [] ↔ ∃ d ∈ ds, d.clientId = c := by
  unfold batchesOf
  rw [ne_eq,List.map_eq_nil_iff,List.filter_eq_nil_iff]
  simp

/-- Each client with a batch has a log, and nobody else. -/
theorem mem_keys_received (name : Text) : name ∈ (received P rows ds).files.connection.keys ↔
    ∃ d ∈ ds, ofInt d.clientId = name := by
  induction ds using List.reverseRecOn with
  | nil => simp [received,LogRestore.noFiles,Dict.empty,Dict.keys]
  | append_singleton ds d ih =>
      rw [received_append_singleton]
      unfold Connection.handle saveConnection appendLine
      rw [Dict.mem_keys_set,ih]
      simp only [List.mem_append,List.mem_singleton,or_and_right,exists_or,exists_eq_left]
      exact or_comm.trans (or_congr_right eq_comm)

/-- The loop of the constructor, when every client is restored. -/
theorem foldlM_set {κ : Type} [DecidableEq κ] {F : κ → Option σ} {cs : List κ}
    (h : ∀ c ∈ cs, (F c).isSome = true) (d : Dict κ σ) :
    ∃ ps, cs.foldlM (fun d c => (F c).map (d.set c)) d = some ps ∧
      ∀ c, ps.get? c = if c ∈ cs then F c else d.get? c := by
  induction cs generalizing d with
  | nil => exact ⟨d,rfl,fun c => rfl⟩
  | cons c cs ih =>
      obtain ⟨hc,hcs⟩ := List.forall_mem_cons.mp h
      obtain ⟨s,hs⟩ := Option.isSome_iff_exists.mp hc
      obtain ⟨ps,hps,hget⟩ := ih hcs (d.set c s)
      refine ⟨ps,?_,?_⟩
      · rw [List.foldlM_cons,hs]
        exact hps
      · intro c'
        rw [hget,Dict.get?_set]
        by_cases hmem : c' ∈ cs
        · rw [if_pos hmem,if_pos (List.mem_cons_of_mem c hmem)]
        · by_cases he : c = c'
          · subst he
            rw [if_neg hmem,if_pos rfl,if_pos List.mem_cons_self,hs]
          · have hcons : c' ∉ c :: cs := by
              simp only [List.mem_cons,not_or]
              exact ⟨Ne.symm he,hmem⟩
            rw [if_neg hmem,if_neg he,if_neg hcons]

theorem isSome_of_foldlM_set {F : ℤ → Option σ} {cs : List ℤ} {d ps : Dict ℤ σ}
    (h : cs.foldlM (fun d c => (F c).map (d.set c)) d = some ps) : ∀ c ∈ cs, (F c).isSome = true := by
  induction cs generalizing d with
  | nil => exact fun _ hc => by cases hc
  | cons c cs ih =>
      rw [List.foldlM_cons] at h
      cases hc : F c with
      | none => simp [hc] at h
      | some s =>
          rw [hc] at h
          exact List.forall_mem_cons.mpr ⟨by rw [hc]; rfl,ih h⟩

variable {P rows ds} {names : List Text}

/-- The names of the logs are read as the ids of the clients with a batch. -/
theorem clients_received (hnames : names.Perm (received P rows ds).files.connection.keys) :
    ∃ cs, obtainAllActiveConnectionClients names = some cs ∧
      ∀ c, c ∈ cs ↔ batchesOf rows c ds ≠ [] := by
  have hids : ∀ name ∈ names, ∃ c, ofInt c = name := by
    intro name hname
    obtain ⟨d,-,hd⟩ := (mem_keys_received P rows ds name).mp (hnames.mem_iff.mp hname)
    exact ⟨d.clientId,hd⟩
  have hrange : names ∈ Set.range (List.map ofInt) := by
    rw [Set.range_list_map]
    exact hids
  obtain ⟨cs,rfl⟩ := hrange
  refine ⟨cs,mapM_map_eq_some toInt?_ofInt cs,?_⟩
  intro c
  rw [batchesOf_ne_nil]
  have hmem : c ∈ cs ↔ ofInt c ∈ cs.map ofInt := (List.mem_map_of_injective ofInt_injective).symm
  rw [hmem,hnames.mem_iff,mem_keys_received]
  simp only [ofInt_injective.eq_iff]

/-- The constructor restores each client with a batch, or raises. -/
theorem construct_received (hnames : names.Perm (received P rows ds).files.connection.keys)
    {R : ℤ → Option σ → Prop} (hnone : ∀ c, batchesOf rows c ds = [] → R c none) :
    (∃ ps, construct P names (received P rows ds).files = some ps ∧ ∀ c, R c (ps.get? c)) ↔
      ∀ c, batchesOf rows c ds ≠ [] →
        ∃ t, P.run (batchesOf rows c ds).reverse.flatten P.init = .done t ∧ R c (some t) := by
  obtain ⟨cs,hcs,hmem⟩ := clients_received hnames
  have hconstruct : construct P names (received P rows ds).files =
      cs.foldlM (fun d c => ((P.run (batchesOf rows c ds).reverse.flatten P.init).done?).map
        (d.set c)) .empty := by
    unfold construct
    rw [hcs]
    simp only [Option.bind_eq_bind,Option.bind_some,restore_received]
  rw [hconstruct]
  constructor
  · rintro ⟨ps,hps,hR⟩ c hc
    have hall := isSome_of_foldlM_set hps
    obtain ⟨ps',hps',hget⟩ := foldlM_set hall .empty
    obtain rfl : ps = ps' := Option.some.inj (hps.symm.trans hps')
    obtain ⟨t,ht⟩ := Option.isSome_iff_exists.mp (hall c ((hmem c).mpr hc))
    have hRc := hR c
    rw [hget,if_pos ((hmem c).mpr hc),ht] at hRc
    exact ⟨t,Outcome.done?_eq_some.mp ht,hRc⟩
  · intro h
    have hall : ∀ c ∈ cs, ((P.run (batchesOf rows c ds).reverse.flatten P.init).done?).isSome =
        true := by
      intro c hc
      obtain ⟨t,ht,-⟩ := h c ((hmem c).mp hc)
      rw [ht]
      rfl
    obtain ⟨ps,hps,hget⟩ := foldlM_set hall .empty
    refine ⟨ps,hps,?_⟩
    intro c
    rw [hget]
    by_cases hc : c ∈ cs
    · obtain ⟨t,ht,hR⟩ := h c ((hmem c).mp hc)
      rw [if_pos hc,ht]
      exact hR
    · rw [if_neg hc]
      exact hnone c (not_not.mp fun hne => hc ((hmem c).mpr hne))

end

/-- A connection is constructed again, each client's processor as the live one had
it up to the order of its batches, exactly when the batches of every client raise
nothing in the replay. -/
theorem construct_restarts (b : Builtins) (k : Kind) (inputFields : List Text) (ds : List Batch)
    (names : List Text) (hnames : names.Perm (received (k.processor b) (parsePayload b inputFields)
      ds).files.connection.keys) :
    (∃ ps, construct (k.processor b) names
          (received (k.processor b) (parsePayload b inputFields) ds).files = some ps ∧
        ∀ c, Option.Rel (k.UpToOrder b (batchesOf (parsePayload b inputFields) c ds)) (ps.get? c)
          ((received (k.processor b) (parsePayload b inputFields) ds).processors.get? c)) ↔
      ∀ c, k.Fine b (batchesOf (parsePayload b inputFields) c ds) := by
  have hnone : ∀ c, batchesOf (parsePayload b inputFields) c ds = [] →
      Option.Rel (k.UpToOrder b (batchesOf (parsePayload b inputFields) c ds)) none
        ((received (k.processor b) (parsePayload b inputFields) ds).processors.get? c) := by
    intro c hc
    rw [processors_received,if_pos hc]
    exact .none
  refine (construct_received hnames (R := fun c o => Option.Rel
    (k.UpToOrder b (batchesOf (parsePayload b inputFields) c ds)) o
    ((received (k.processor b) (parsePayload b inputFields) ds).processors.get? c)) hnone).trans ?_
  apply forall_congr'
  intro c
  rw [processors_received]
  by_cases hc : batchesOf (parsePayload b inputFields) c ds = []
  · rw [hc]
    exact iff_of_true (fun hne => absurd rfl hne) k.fine_nil
  · have hrel : ∀ t, Option.Rel (k.UpToOrder b (batchesOf (parsePayload b inputFields) c ds))
        (some t) (some ((k.processor b).live (batchesOf (parsePayload b inputFields) c ds))) ↔
          k.UpToOrder b (batchesOf (parsePayload b inputFields) c ds) t
            ((k.processor b).live (batchesOf (parsePayload b inputFields) c ds)) := by
      intro t
      constructor
      · rintro ⟨h⟩
        exact h
      · exact .some
    rw [if_neg hc]
    simp only [hrel]
    exact (imp_iff_right hc).trans k.replay

/-- Fares that are numbers. -/
theorem construct_restarts_twoBatches : ∃ ps, construct (Kind.grouper.processor asciiBuiltins)
      ["1".toList] (received (Kind.grouper.processor asciiBuiltins)
        (parsePayload asciiBuiltins routeFields) twoBatches).files = some ps ∧
    ∀ c, Option.Rel (Kind.grouper.UpToOrder asciiBuiltins
        (batchesOf (parsePayload asciiBuiltins routeFields) c twoBatches)) (ps.get? c)
      ((received (Kind.grouper.processor asciiBuiltins)
        (parsePayload asciiBuiltins routeFields) twoBatches).processors.get? c) := by
  refine (construct_restarts asciiBuiltins .grouper routeFields twoBatches ["1".toList] ?_).mpr ?_
  · exact List.Perm.refl _
  · intro c
    by_cases hc : c = 1
    · subst hc
      have hrows : ∀ m ∈ (batchesOf (parsePayload asciiBuiltins routeFields) 1 twoBatches).flatten,
          Priced asciiBuiltins m := by decide
      exact hrows
    · have hnil : batchesOf (parsePayload asciiBuiltins routeFields) c twoBatches = [] := by
        unfold batchesOf twoBatches
        simp [Ne.symm hc]
      rw [hnil]
      exact Kind.fine_nil .grouper

/-- The receiver acknowledges a batch whose fare is no number, and saves it; the
constructor raises on it. -/
theorem construct_badFare : construct (Kind.grouper.processor asciiBuiltins) ["1".toList]
    (received (Kind.grouper.processor asciiBuiltins) (parsePayload asciiBuiltins routeFields)
      [⟨7,1,"A,B,x".toList⟩]).files = none := by
  have hone : obtainAllActiveConnectionClients ["1".toList] = some [1] := rfl
  unfold construct
  rw [hone]
  simp only [Option.bind_eq_bind,Option.bind_some,List.foldlM_cons,restore_received]
  rfl

end FlightsOptimizer.Statefull
