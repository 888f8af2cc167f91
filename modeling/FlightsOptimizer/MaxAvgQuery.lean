import Mathlib.Algebra.Order.BigOperators.Group.Finset
import FlightsOptimizer.Grouper

/-!
# The max/avg query

What the load balancer, the groupers, media_general and max_avg answer together,
against the query on all flights at once. The load balancer sends every route to
one grouper, so what a grouper has of a route is all there is of it; the sums of
the groupers add up to the sum of all fares.
-/
namespace FlightsOptimizer.MaxAvg
open Connection Receiver Finset Arithmetic

def mean (flights : List Flight) : ℚ := (flights.map Flight.totalFare).sum / flights.length

/-- The fares of a route above the mean of all fares. -/
def aboveMean (flights : List Flight) (route : String) : List ℚ :=
  ((flights.filter fun f => getRoute f = route).map Flight.totalFare).filter fun p =>
    mean flights < p

/-- One row for each route with a fare above the mean. -/
structure Answers (flights : List Flight) (rows : List Row) : Prop where
  nodup : (rows.map Row.route).Nodup
  complete : ∀ route, aboveMean flights route ≠ [] → ∃ row ∈ rows, row.route = route
  above : ∀ row ∈ rows, aboveMean flights row.route ≠ []
  avg : ∀ row ∈ rows, row.avg =
    (aboveMean flights row.route).sum / (aboveMean flights row.route).length
  maxPrice : ∀ row ∈ rows, IsGreatest {p | p ∈ aboveMean flights row.route} row.maxPrice

section
variable {F : Type} (hash : String → ℕ) (G : ℕ)

/-- The messages that the load balancer sends for a batch, by topic. -/
def balanced (b : List (Flight F)) : Dict ℕ (List (Flight F)) :=
  messagesByTopic ((((loadBalancer hash G).collect b ()).1.map Prod.fst).getD [])

/-- The batches that grouper `g` gets, in the order of their sending. -/
def forGrouper (g : ℕ) (batches : List (List (Flight F))) : List (List (Flight F)) :=
  batches.filterMap fun b => (balanced hash G b).get? g

/-- A grouper after its last batch. -/
def collected (arrivals : List (List (Flight F))) : Grouper F :=
  (Grouper.processor.run arrivals Grouper.init).2

def groupers : List ℕ := List.range' 1 G

section
variable [Arithmetic F]

/-- The sums that some groupers send when the EOF comes. -/
def sumsOf (order : List ℕ) (arrivals : ℕ → List (List (Flight F))) : List (PartialSum F) :=
  order.filterMap fun g => ((collected (arrivals g)).finishProcessing []).2

def partialSums (arrivals : ℕ → List (List (Flight F))) : List (PartialSum F) :=
  sumsOf (groupers G) arrivals

/-- The averages that media_general sends for sums that arrive one by one. -/
def averages (sums : List (PartialSum F)) : List F :=
  ((mediaGeneral G).run (sums.map fun m => [m]) (mediaGeneral G).init).1

/-- The batches that the groupers send for the averages they get. -/
def filteredBatches (arrivals : ℕ → List (List (Flight F))) (averages : List F) :
    List (List (RoutePrices F)) :=
  (groupers G).filterMap fun g => (averages.foldl Grouper.processSingle (collected (arrivals g))).batch

end

variable {hash G}

theorem mem_groupers {g : ℕ} : g ∈ groupers G ↔ 1 ≤ g ∧ g ≤ G := by
  unfold groupers
  rw [List.mem_range'_1]
  omega

theorem queueId_mem (hG : 1 ≤ G) (f : Flight F) : queueId hash G f ∈ groupers G := by
  have hlt := Nat.mod_lt (hash (getRoute f)) hG
  rw [mem_groupers]
  unfold queueId
  omega

theorem get?_balanced (b : List (Flight F)) (g : ℕ) : (balanced hash G b).get? g =
    if b.filter (fun f => queueId hash G f = g) = [] then none
    else some (b.filter fun f => queueId hash G f = g) := by
  have hvalues := Dict.valuesOf_map (queueId hash G) (fun f : Flight F => f) g b
  rw [List.map_id'] at hvalues
  unfold balanced messagesByTopic
  rw [collect_single fun _ => rfl]
  simp only [Option.map_some,Option.getD_some]
  rw [Dict.get?_group,hvalues]

/-- A grouper gets the flights of its routes. -/
theorem flatten_forGrouper (g : ℕ) (batches : List (List (Flight F))) :
    (forGrouper hash G g batches).flatten =
      batches.flatten.filter fun f => queueId hash G f = g := by
  unfold forGrouper
  induction batches with
  | nil => rfl
  | cons b bs ih =>
      rw [List.filterMap_cons,get?_balanced,List.flatten_cons,List.filter_append,← ih]
      split_ifs with h
      · rw [h,List.nil_append]
      · exact List.flatten_cons

theorem collected_eq (arrivals : List (List (Flight F))) :
    collected arrivals = ⟨Dict.group (arrivals.flatten.map fare),[]⟩ := by
  unfold collected
  rw [Grouper.run_processor]

end

theorem sum_ite_of_nodup {M : Type} [AddCommMonoid M] {gs : List ℕ} {a : ℕ} (hn : gs.Nodup)
    (ha : a ∈ gs) (x : M) : (gs.map fun g => if a = g then x else 0).sum = x := by
  induction gs with
  | nil => cases ha
  | cons g gs ih =>
      obtain ⟨hg,hn⟩ := List.nodup_cons.mp hn
      rw [List.map_cons,List.sum_cons]
      rcases List.mem_cons.mp ha with rfl | ha
      · have hrest : gs.map (fun g => if a = g then x else 0) = gs.map fun _ => 0 := by
          apply List.map_congr_left
          intro g hm
          exact if_neg fun he : a = g => hg (he ▸ hm)
        rw [if_pos rfl,hrest,List.map_const',List.sum_replicate,nsmul_zero,add_zero]
      · rw [if_neg fun he : a = g => hg (he ▸ ha),zero_add]
        exact ih hn ha

/-- The flights by their groupers add up to all flights. -/
theorem sum_groupers {F M : Type} [AddCommMonoid M] (hash : String → ℕ) {G : ℕ} (hG : 1 ≤ G)
    (V : Flight F → M) (flights : List (Flight F)) :
    ((groupers G).map fun g => ((flights.filter fun f => queueId hash G f = g).map V).sum).sum =
      (flights.map V).sum := by
  induction flights with
  | nil => simp
  | cons f fs ih =>
      have hcons : ∀ g, (((f :: fs).filter fun f => queueId hash G f = g).map V).sum =
          (if queueId hash G f = g then V f else 0) +
            ((fs.filter fun f => queueId hash G f = g).map V).sum := by
        intro g
        by_cases hq : queueId hash G f = g
        · simp only [List.filter_cons,hq,decide_true,if_true,List.map_cons,List.sum_cons]
        · simp only [List.filter_cons,hq,decide_false,Bool.false_eq_true,if_false,zero_add]
      simp only [hcons,List.sum_map_add]
      have hn : (groupers G).Nodup := List.nodup_range'
      rw [ih,sum_ite_of_nodup hn (queueId_mem hG f),List.map_cons,List.sum_cons]

section
variable {F : Type} {hash : String → ℕ} {G : ℕ} {batches : List (List (Flight F))}
variable {arrivals : ℕ → List (List (Flight F))}

/-- Each grouper gets its batches in some order. -/
def Arrived (hash : String → ℕ) (G : ℕ) (batches : List (List (Flight F)))
    (arrivals : ℕ → List (List (Flight F))) : Prop :=
  ∀ g ∈ groupers G, (arrivals g).Perm (forGrouper hash G g batches)

theorem Arrived.flatten (h : Arrived hash G batches arrivals) {g : ℕ} (hg : g ∈ groupers G) :
    (arrivals g).flatten.Perm (batches.flatten.filter fun f => queueId hash G f = g) := by
  rw [← flatten_forGrouper]
  exact (h g hg).flatten

/-- The groupers have all flights. -/
theorem Arrived.sum_length (hG : 1 ≤ G) (h : Arrived hash G batches arrivals) {order : List ℕ}
    (horder : order.Perm (groupers G)) :
    (order.map fun g => (arrivals g).flatten.length).sum = batches.flatten.length := by
  have hcount := sum_groupers hash hG (fun _ => 1) batches.flatten
  simp only [List.map_const',List.sum_replicate,nsmul_eq_mul,Nat.cast_id,mul_one] at hcount
  rw [(horder.map _).sum_eq,← hcount]
  congr 1
  apply List.map_congr_left
  intro g hg
  exact (h.flatten hg).length_eq

theorem getD_collected (fs : List (List (Flight F))) (route : String) :
    (collected fs).routes.getD route [] =
      (fs.flatten.filter fun f => getRoute f = route).map Flight.totalFare := by
  rw [collected_eq]
  exact (Dict.getD_group _ _).trans (Dict.valuesOf_map getRoute Flight.totalFare route _)

theorem flatten_filterMap {A B : Type} (f : A → Option (List B)) (as : List A) :
    (as.filterMap f).flatten = as.flatMap fun a => ((f a).toList).flatten := by
  induction as with
  | nil => rfl
  | cons a as ih =>
      rw [List.filterMap_cons,List.flatMap_cons,← ih]
      cases f a with
      | none => rfl
      | some b => simp

variable [Arithmetic F]

theorem finishProcessing_collected (fs : List (List (Flight F))) :
    (collected fs).finishProcessing [] = (collected fs,some (collected fs).partialSum) := by
  have hrows : (collected fs).vuelosMessageToSend = [] := by rw [collected_eq]
  unfold Grouper.finishProcessing Grouper.restoreMediaGeneral
  exact if_neg fun h => h hrows

/-- What a grouper adds up: the fares of each route, and then the routes. -/
def fareSum (flights : List (Flight F)) : F :=
  addUp ((Dict.group (flights.map fare)).values.map addUp)

theorem sumsOf_eq (order : List ℕ) (arrivals : ℕ → List (List (Flight F))) :
    sumsOf order arrivals = order.map fun g =>
      ⟨fareSum (arrivals g).flatten,(arrivals g).flatten.length⟩ := by
  unfold sumsOf
  simp only [finishProcessing_collected]
  rw [List.filterMap_eq_map']
  apply List.map_congr_left
  intro g _
  rw [collected_eq,partialSum_eq,length_group,List.length_map]
  rfl

/-- The average of the flights: the groupers' sums are added up in the order in which
they arrive, and divided by the number of flights. -/
def meanOf (order : List ℕ) (arrivals : ℕ → List (List (Flight F)))
    (flights : List (Flight F)) : Option F :=
  divide (addUp (order.map fun g => fareSum (arrivals g).flatten)) flights.length

/-- media_general answers once, with the average, unless the division raises. -/
theorem averages_sumsOf (hG : 1 ≤ G) (h : Arrived hash G batches arrivals) {order : List ℕ}
    (horder : order.Perm (groupers G)) :
    averages G (sumsOf order arrivals) = (meanOf order arrivals batches.flatten).toList := by
  have hlength : (sumsOf order arrivals).length = G := by
    rw [sumsOf_eq,List.length_map,horder.length_eq,groupers,List.length_range']
  have hpos : sumsOf order arrivals ≠ [] := List.ne_nil_of_length_pos (by omega)
  unfold averages
  rw [run_mediaGeneral hpos ((Nat.zero_add _).trans hlength),sumsOf_eq]
  simp only [List.map_map,Function.comp_def,mediaGeneral,MediaGeneral.init,h.sum_length hG horder,
    Nat.zero_add]
  rfl

/-- All that max_avg gets, whatever the batches are. -/
theorem flatten_filteredBatches (arrivals : ℕ → List (List (Flight F))) (m : F) :
    (filteredBatches G arrivals [m]).flatten =
      (groupers G).flatMap fun g => (collected (arrivals g)).filtered m := by
  unfold filteredBatches
  rw [flatten_filterMap]
  congr 1
  funext g
  rw [batch_toList,collected_eq]
  exact List.nil_append _

/-- A grouper whose share of the flights has a fare above the average. -/
def HasAbove (m : F) (hash : String → ℕ) (G : ℕ) (flights : List (Flight F)) (g : ℕ) : Prop :=
  ∃ f ∈ flights, queueId hash G f = g ∧ greater f.totalFare m = true

theorem filtered_ne_nil (fs : List (List (Flight F))) (m : F) :
    (collected fs).filtered m ≠ [] ↔ ∃ f ∈ fs.flatten, greater f.totalFare m = true := by
  have hmem : ∀ route p, p ∈ MaxAvg.filterPrices ((collected fs).routes.getD route []) m ↔
      ∃ f ∈ fs.flatten, getRoute f = route ∧ f.totalFare = p ∧ greater p m = true := by
    intro route p
    unfold MaxAvg.filterPrices
    rw [getD_collected,List.mem_filter,List.mem_map]
    constructor
    · rintro ⟨⟨f,hf,rfl⟩,hp⟩
      obtain ⟨hf,hr⟩ := List.mem_filter.mp hf
      exact ⟨f,hf,of_decide_eq_true hr,rfl,hp⟩
    · rintro ⟨f,hf,hr,rfl,hp⟩
      exact ⟨⟨f,List.mem_filter.mpr ⟨hf,decide_eq_true hr⟩,rfl⟩,hp⟩
  constructor
  · intro hne
    obtain ⟨x,hx⟩ := List.exists_mem_of_ne_nil _ hne
    obtain ⟨p,hp⟩ := List.exists_mem_of_ne_nil _ x.nonempty
    rw [mem_filtered.mp hx] at hp
    obtain ⟨f,hf,-,rfl,hp⟩ := (hmem x.route p).mp hp
    exact ⟨f,hf,hp⟩
  · rintro ⟨f,hf,hp⟩
    have hprice := (hmem (getRoute f) f.totalFare).mpr ⟨f,hf,rfl,rfl,hp⟩
    have hx : (⟨getRoute f,_,List.ne_nil_of_mem hprice⟩ : RoutePrices F) ∈
        (collected fs).filtered m := mem_filtered.mpr rfl
    exact List.ne_nil_of_mem hx

theorem Arrived.filtered_ne_nil (h : Arrived hash G batches arrivals) {g : ℕ}
    (hg : g ∈ groupers G) (m : F) :
    (collected (arrivals g)).filtered m ≠ [] ↔ HasAbove m hash G batches.flatten g := by
  rw [MaxAvg.filtered_ne_nil]
  constructor
  · rintro ⟨f,hf,hp⟩
    obtain ⟨hf,hq⟩ := List.mem_filter.mp ((h.flatten hg).mem_iff.mp hf)
    exact ⟨f,hf,of_decide_eq_true hq,hp⟩
  · rintro ⟨f,hf,hq,hp⟩
    exact ⟨f,(h.flatten hg).mem_iff.mpr (List.mem_filter.mpr ⟨hf,decide_eq_true hq⟩),hp⟩

end

section
variable {hash : String → ℕ} {G : ℕ} {batches : List (List Flight)}
variable {arrivals : ℕ → List (List Flight)}

theorem fareSum_rat (flights : List Flight) :
    fareSum flights = (flights.map Flight.totalFare).sum := by
  have hsum := congrArg PartialSum.totalFare (partialSum_group (flights.map fare) [])
  rw [partialSum_eq,List.map_map] at hsum
  exact hsum

/-- Of exact fares the average is the mean, whatever the order of the sums. -/
theorem averages_eq (hG : 1 ≤ G) (hne : batches.flatten ≠ [])
    (h : Arrived hash G batches arrivals) {sums : List PartialSum}
    (hsums : sums.Perm (partialSums G arrivals)) : averages G sums = [mean batches.flatten] := by
  have hlength : sums.length = G := by
    rw [hsums.length_eq,partialSums,sumsOf_eq,List.length_map,groupers,List.length_range']
  have hpos : sums ≠ [] := List.ne_nil_of_length_pos (by omega)
  have htotal : (sums.map PartialSum.totalFare).sum =
      (batches.flatten.map Flight.totalFare).sum := by
    rw [(hsums.map _).sum_eq,partialSums,sumsOf_eq,List.map_map,← sum_groupers hash hG]
    congr 1
    apply List.map_congr_left
    intro g hg
    exact (fareSum_rat _).trans ((h.flatten hg).map _).sum_eq
  have hamount : (sums.map PartialSum.amount).sum = batches.flatten.length := by
    rw [(hsums.map _).sum_eq,partialSums,sumsOf_eq,List.map_map]
    exact h.sum_length hG (.refl _)
  have hzero : batches.flatten.length ≠ 0 := fun he => hne (List.length_eq_zero_iff.mp he)
  unfold averages
  rw [run_mediaGeneral hpos ((Nat.zero_add _).trans hlength),hamount,foldl_add_rat,htotal]
  change (divide (0 + _) (0 + _)).toList = _
  rw [zero_add,Nat.zero_add,divide_rat,if_neg hzero]
  rfl

/-- Of a route, its grouper has all fares and the others have none. -/
theorem Arrived.filterPrices (h : Arrived hash G batches arrivals) {g : ℕ} (hg : g ∈ groupers G)
    (route : String) :
    (MaxAvg.filterPrices ((collected (arrivals g)).routes.getD route [])
      (mean batches.flatten)).Perm
      (if hash route % G + 1 = g then aboveMean batches.flatten route else []) := by
  have hroute : (collected (arrivals g)).routes.getD route [] =
      ((arrivals g).flatten.filter fun f => getRoute f = route).map Flight.totalFare := by
    rw [collected_eq]
    exact (Dict.getD_group _ _).trans (Dict.valuesOf_map getRoute Flight.totalFare route _)
  have hperm := (((h.flatten hg).filter fun f => getRoute f = route).map Flight.totalFare).filter
    fun p => mean batches.flatten < p
  unfold MaxAvg.filterPrices
  rw [hroute]
  refine hperm.trans (List.Perm.of_eq ?_)
  rw [List.filter_filter]
  split_ifs with hhome
  · have hall : batches.flatten.filter (fun f => getRoute f = route && queueId hash G f = g) =
        batches.flatten.filter fun f => getRoute f = route := by
      apply List.filter_congr
      intro f _
      by_cases hf : getRoute f = route
      · simp [hf,queueId,hhome]
      · simp [hf]
    rw [hall]
    rfl
  · have hnone : batches.flatten.filter (fun f => getRoute f = route && queueId hash G f = g) =
        [] := by
      apply List.filter_eq_nil_iff.mpr
      intro f _ hf
      simp only [Bool.and_eq_true,decide_eq_true_eq] at hf
      obtain ⟨hf,hq⟩ := hf
      unfold queueId at hq
      rw [hf] at hq
      exact hhome hq
    rw [hnone]
    rfl

/-- The rows of a grouper are the routes of its own, with their fares above the mean. -/
theorem Arrived.mem_filtered (h : Arrived hash G batches arrivals) {g : ℕ}
    (hg : g ∈ groupers G) {x : RoutePrices}
    (hx : x ∈ (collected (arrivals g)).filtered (mean batches.flatten)) :
    hash x.route % G + 1 = g ∧ x.prices.Perm (aboveMean batches.flatten x.route) := by
  have hperm := h.filterPrices hg x.route
  rw [← MaxAvg.mem_filtered.mp hx] at hperm
  split_ifs at hperm with hhome
  · exact ⟨hhome,hperm⟩
  · exact absurd hperm.eq_nil x.nonempty

/-- A route with a fare above the mean is among the rows of its grouper. -/
theorem Arrived.exists_filtered (h : Arrived hash G batches arrivals) {route : String}
    (hg : hash route % G + 1 ∈ groupers G) (hroute : aboveMean batches.flatten route ≠ []) :
    ∃ x ∈ (collected (arrivals (hash route % G + 1))).filtered (mean batches.flatten),
      x.route = route := by
  have hperm := h.filterPrices hg route
  rw [if_pos rfl] at hperm
  have hfiltered : MaxAvg.filterPrices ((collected (arrivals (hash route % G + 1))).routes.getD
      route []) (mean batches.flatten) ≠ [] :=
    fun hnil => hroute (List.nil_perm.mp (hnil ▸ hperm))
  exact ⟨⟨route,_,hfiltered⟩,MaxAvg.mem_filtered.mpr rfl,rfl⟩

theorem route_unique (h : Arrived hash G batches arrivals) :
    (((groupers G).flatMap fun g =>
      (collected (arrivals g)).filtered (mean batches.flatten)).map RoutePrices.route).Nodup := by
  rw [List.map_flatMap,List.nodup_flatMap]
  constructor
  · exact fun g _ => nodup_filtered _ _
  · have hn : (groupers G).Nodup := List.nodup_range'
    apply hn.imp_of_mem
    intro g g' hg hg' hne route hr hr'
    obtain ⟨x,hx,rfl⟩ := List.mem_map.mp hr
    obtain ⟨x',hx',hroute⟩ := List.mem_map.mp hr'
    have hhome := (h.mem_filtered hg hx).1
    have hhome' := (h.mem_filtered hg' hx').1
    rw [hroute] at hhome'
    exact hne (hhome.symm.trans hhome')

theorem getAvg_perm {prices prices' : List ℚ} (h : prices.Perm prices') :
    getAvg prices = prices'.sum / prices'.length := by
  unfold getAvg
  rw [addUp_rat,h.sum_eq,h.length_eq]
  rfl

theorem isGreatest_getMax {prices : List ℚ} (hne : prices ≠ []) :
    IsGreatest {p | p ∈ prices} (getMax prices hne) := by
  unfold getMax
  rw [greatest_rat]
  exact ⟨List.max_mem hne,fun _ hp => List.le_max_of_mem hp⟩

theorem max_avg_query (hG : 1 ≤ G) (hne : batches.flatten ≠ [])
    (h : Arrived hash G batches arrivals) {sums : List PartialSum}
    (hsums : sums.Perm (partialSums G arrivals)) :
    averages G sums = [mean batches.flatten] ∧
    ∀ sent, sent.Perm (filteredBatches G arrivals (averages G sums)) →
      Answers batches.flatten (maxAvg.run sent ()).1 := by
  have haverages := averages_eq hG hne h hsums
  refine ⟨haverages,?_⟩
  intro sent hsent
  rw [haverages] at hsent
  have hrows : (maxAvg.run sent ()).1 = sent.flatten.map RoutePrices.row := by
    rw [run_sendEof fun _ => rfl]
  have hflat := hsent.flatten
  rw [flatten_filteredBatches] at hflat
  have hmem : ∀ x ∈ sent.flatten, x.prices.Perm (aboveMean batches.flatten x.route) := by
    intro x hx
    obtain ⟨g,hg,hx⟩ := List.mem_flatMap.mp (hflat.mem_iff.mp hx)
    exact (h.mem_filtered hg hx).2
  rw [hrows]
  refine ⟨?_,?_,?_,?_,?_⟩
  · rw [List.map_map]
    exact ((hflat.map RoutePrices.route).nodup_iff).mpr (route_unique h)
  · intro route hroute
    have hlt := Nat.mod_lt (hash route) hG
    have hg : hash route % G + 1 ∈ groupers G := mem_groupers.mpr ⟨Nat.le_add_left 1 _,hlt⟩
    obtain ⟨x,hx,rfl⟩ := h.exists_filtered hg hroute
    exact ⟨_,List.mem_map_of_mem (hflat.mem_iff.mpr (List.mem_flatMap.mpr ⟨_,hg,hx⟩)),rfl⟩
  · intro row hrow hnil
    obtain ⟨x,hx,rfl⟩ := List.mem_map.mp hrow
    have hperm := hmem x hx
    rw [show aboveMean batches.flatten x.route = [] from hnil] at hperm
    exact x.nonempty hperm.eq_nil
  · intro row hrow
    obtain ⟨x,hx,rfl⟩ := List.mem_map.mp hrow
    exact getAvg_perm (hmem x hx)
  · intro row hrow
    obtain ⟨x,hx,rfl⟩ := List.mem_map.mp hrow
    have hset : {p | p ∈ aboveMean batches.flatten x.route} = {p | p ∈ x.prices} :=
      Set.ext fun p => (hmem x hx).mem_iff.symm
    rw [show x.row.route = x.route from rfl,hset]
    exact isGreatest_getMax x.nonempty

end

/-- Three fares on two routes with a grouper each, in two batches. -/
def threeFares : List (List Flight) :=
  [[⟨"EZE","JFK",100⟩,⟨"EZE","MIA",300⟩],[⟨"EZE","JFK",500⟩]]

def byRoute (route : String) : ℕ := if route = "EZE-JFK" then 0 else 1

theorem max_avg_query_threeFares :
    averages 2 (partialSums 2 fun g => forGrouper byRoute 2 g threeFares) =
      [mean threeFares.flatten] ∧
    ∀ sent, sent.Perm (filteredBatches 2 (fun g => forGrouper byRoute 2 g threeFares)
        (averages 2 (partialSums 2 fun g => forGrouper byRoute 2 g threeFares))) →
      Answers threeFares.flatten (maxAvg.run sent ()).1 := by
  have hne : threeFares.flatten ≠ [] := List.cons_ne_nil _ _
  exact max_avg_query (by decide) hne (fun _ _ => List.Perm.refl _) (List.Perm.refl _)

end FlightsOptimizer.MaxAvg
