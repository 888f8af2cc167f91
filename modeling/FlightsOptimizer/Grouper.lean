import FlightsOptimizer.Arithmetic
import FlightsOptimizer.LoadBalancer

/-!
# Grouper, media_general and max_avg

A grouper collects the fares of its client by route. When the client's EOF
arrives it sends their sum and amount to media_general and waits; with the
average that comes back it keeps the fares above it, route by route. media_general
answers when every grouper has sent its sum; max_avg makes one row of each route.

The numbers and their arithmetic are a parameter, since floats round. What is
written as text between the processors is read back as the same number.
-/
namespace FlightsOptimizer.MaxAvg
open Connection Receiver Arithmetic

/-- A route and the fares that `filter_prices` left of it, which are sent only if
there are any. -/
structure RoutePrices (F : Type := ℚ) where
  route : String
  prices : List F
  nonempty : prices ≠ []
  deriving DecidableEq

/-- `{"totalFare": total_fare, "amount": amount}`. -/
structure PartialSum (F : Type := ℚ) where
  totalFare : F
  amount : ℕ
  deriving DecidableEq

structure Grouper (F : Type := ℚ) where
  routes : Dict String (List F)
  vuelosMessageToSend : List (RoutePrices F)
  deriving DecidableEq

section
variable {F : Type}

def routePrices (route : String) (prices : List F) : Option (RoutePrices F) :=
  if h : prices ≠ [] then some ⟨route,prices,h⟩ else none

namespace Grouper

def init : Grouper F := ⟨.empty,[]⟩

def groupPricesByRoute (f : Flight F) (g : Grouper F) : Grouper F :=
  {g with routes := g.routes.push (getRoute f) f.totalFare}

/-- `process` answers nothing; what is returned in the end are the rows. -/
def processor : Processor (Grouper F) (Flight F) (RoutePrices F) where
  init := init
  process := fun f g => (none,g.groupPricesByRoute f)
  finishProcessing := fun g => (some (.multiple g.vuelosMessageToSend),g)

/-- `handle_eof` sends what `finish_processing` returned, if there is anything. -/
def batch (g : Grouper F) : Option (List (RoutePrices F)) :=
  if g.vuelosMessageToSend = [] then none else some g.vuelosMessageToSend

end Grouper

/-- A flight as its grouper files it. -/
def fare (f : Flight F) : String × F := (getRoute f,f.totalFare)

theorem Grouper.run_processor (batches : List (List (Flight F))) :
    processor.run batches init = ([],⟨Dict.group (batches.flatten.map fare),[]⟩) := by
  have hfold : ∀ (fs : List (Flight F)) (g : Grouper F),
      fs.foldl (fun g f => g.groupPricesByRoute f) g =
        {g with routes := (fs.map fare).foldl (fun d p => d.push p.1 p.2) g.routes} := by
    intro fs
    induction fs with
    | nil => exact fun g => rfl
    | cons f fs ih => exact fun g => ih (g.groupPricesByRoute f)
  rw [run_none (fun _ _ => rfl),hfold]
  rfl

theorem routePrices_eq_some {route : String} {prices : List F} {x : RoutePrices F} :
    routePrices route prices = some x ↔ x.route = route ∧ x.prices = prices := by
  obtain ⟨r,p,hp⟩ := x
  unfold routePrices
  split_ifs with h
  · simp only [Option.some.injEq,RoutePrices.mk.injEq]
    constructor
    · rintro ⟨rfl,rfl⟩
      exact ⟨rfl,rfl⟩
    · rintro ⟨rfl,rfl⟩
      exact ⟨rfl,rfl⟩
  · simp only [false_iff]
    rintro ⟨-,rfl⟩
    exact h hp

theorem length_group (ps : List (String × F)) :
    ((Dict.group ps).values.map List.length).sum = ps.length := by
  have hlength := Dict.sum_group (fun _ : F => 1) ps
  simp only [List.map_const',List.sum_replicate,nsmul_eq_mul,Nat.cast_id,mul_one] at hlength
  unfold Dict.values
  rw [List.map_map]
  exact hlength

theorem batch_toList (g : Grouper F) : (g.batch.toList).flatten = g.vuelosMessageToSend := by
  unfold Grouper.batch
  split_ifs with h
  · exact h.symm
  · exact List.append_nil _

variable [Arithmetic F]

def filterPrices (prices : List F) (mediaGeneral : F) : List F :=
  prices.filter fun price => greater price mediaGeneral

namespace Grouper

/-- The two loops of `finish_processing`. -/
def partialSum (g : Grouper F) : PartialSum F :=
  g.routes.values.foldl
    (fun s prices => ⟨add s.totalFare (addUp prices),s.amount + prices.length⟩) ⟨zero,0⟩

/-- `result` in `process_single`. -/
def filtered (g : Grouper F) (mediaGeneral : F) : List (RoutePrices F) :=
  g.routes.entries.filterMap fun e => routePrices e.1 (filterPrices e.2 mediaGeneral)

def processSingle (g : Grouper F) (mediaGeneral : F) : Grouper F :=
  {g with vuelosMessageToSend := g.vuelosMessageToSend ++ g.filtered mediaGeneral}

/-- `restore_media_general`, on the averages that the log has for the client. -/
def restoreMediaGeneral (stored : List F) (g : Grouper F) : Grouper F :=
  stored.foldl processSingle g

/-- `finish_processing` up to the point where it returns its rows, or sends its sum
and waits for an average. -/
def finishProcessing (stored : List F) (g : Grouper F) : Grouper F × Option (PartialSum F) :=
  let restored := g.restoreMediaGeneral stored
  if restored.vuelosMessageToSend ≠ [] then (restored,none) else (restored,some restored.partialSum)

end Grouper

structure MediaGeneral (F : Type := ℚ) where
  amountReceived : ℕ
  priceSum : F
  amount : ℕ

namespace MediaGeneral

def init : MediaGeneral F := ⟨0,zero,0⟩

def receive (message : PartialSum F) (s : MediaGeneral F) : MediaGeneral F :=
  ⟨s.amountReceived + 1,add s.priceSum message.totalFare,s.amount + message.amount⟩

/-- The division raises where there are no flights, or more than a float counts. -/
def average (s : MediaGeneral F) : Option F := divide s.priceSum s.amount

end MediaGeneral

/-- What raises is logged and answers nothing. -/
def mediaGeneral (grouperReplicasCount : ℕ) :
    Processor (MediaGeneral F) (PartialSum F) F where
  init := .init
  process := fun message s =>
    let s := s.receive message
    (if s.amountReceived = grouperReplicasCount then s.average.map .single else none,s)
  finishProcessing := fun s => (none,s)

structure Row (F : Type := ℚ) where
  route : String
  avg : F
  maxPrice : F
  deriving DecidableEq

/-- A route has not more fares than those that media_general has divided by. -/
def getAvg (prices : List F) : F := quotient (addUp prices) prices.length

def getMax (prices : List F) (h : prices ≠ []) : F := greatest prices h

def RoutePrices.row (m : RoutePrices F) : Row F :=
  ⟨m.route,getAvg m.prices,getMax m.prices m.nonempty⟩

def maxAvg : Processor Unit (RoutePrices F) (Row F) where
  init := ()
  process := fun m s => (some (.sendEof m.row),s)
  finishProcessing := fun s => (none,s)

theorem partialSum_eq (g : Grouper F) :
    g.partialSum = ⟨addUp (g.routes.values.map addUp),(g.routes.values.map List.length).sum⟩ := by
  have hfold : ∀ (vs : List (List F)) (s : PartialSum F),
      vs.foldl (fun s prices => ⟨add s.totalFare (addUp prices),s.amount + prices.length⟩) s =
        ⟨(vs.map addUp).foldl add s.totalFare,s.amount + (vs.map List.length).sum⟩ := by
    intro vs
    induction vs with
    | nil => exact fun s => rfl
    | cons v vs ih =>
        intro s
        simp only [List.foldl_cons,ih,List.map_cons,List.sum_cons,add_assoc]
  unfold Grouper.partialSum
  rw [hfold,Nat.zero_add]
  rfl

/-- A route is kept with its fares above the average. -/
theorem mem_filtered {g : Grouper F} {m : F} {x : RoutePrices F} :
    x ∈ g.filtered m ↔ x.prices = filterPrices (g.routes.getD x.route []) m := by
  unfold Grouper.filtered Dict.getD
  rw [List.mem_filterMap]
  constructor
  · rintro ⟨⟨route,prices⟩,he,hx⟩
    obtain ⟨rfl,hprices⟩ := routePrices_eq_some.mp hx
    rw [(g.routes.get?_eq_some_iff _ _).mpr he]
    exact hprices
  · intro hx
    cases hget : g.routes.get? x.route with
    | none =>
        rw [hget] at hx
        exact absurd hx x.nonempty
    | some prices =>
        rw [hget] at hx
        exact ⟨(x.route,prices),(g.routes.get?_eq_some_iff _ _).mp hget,
          routePrices_eq_some.mpr ⟨rfl,hx⟩⟩

/-- No route is kept twice. -/
theorem nodup_filtered (g : Grouper F) (m : F) :
    ((g.filtered m).map RoutePrices.route).Nodup := by
  have hsub : ∀ es : List (String × List F),
      (es.filterMap fun e => routePrices e.1 (filterPrices e.2 m)).map RoutePrices.route |>.Sublist
        (es.map Prod.fst) := by
    intro es
    induction es with
    | nil => exact .slnil
    | cons e es ih =>
        rw [List.filterMap_cons,List.map_cons]
        cases hx : routePrices e.1 (filterPrices e.2 m) with
        | none => exact ih.cons _
        | some x =>
            simp only [List.map_cons,(routePrices_eq_some.mp hx).1]
            exact ih.cons_cons _
  exact (hsub g.routes.entries).nodup g.routes.distinct

theorem collect_mediaGeneral (G : ℕ) (m : PartialSum F) (s : MediaGeneral F) :
    (mediaGeneral G).collect [m] s =
      (some (if (s.receive m).amountReceived = G then (s.receive m).average.toList else [],false),
        s.receive m) := by
  unfold Processor.collect Processor.collect mediaGeneral
  by_cases h : (s.receive m).amountReceived = G
  · simp only [if_pos h]
    cases (s.receive m).average <;> rfl
  · simp only [if_neg h]

/-- Only the last of the sums is answered. -/
theorem run_mediaGeneral {G : ℕ} {sums : List (PartialSum F)} {s : MediaGeneral F}
    (hne : sums ≠ []) (hG : s.amountReceived + sums.length = G) :
    ((mediaGeneral G).run (sums.map fun m => [m]) s).1 =
      (divide ((sums.map PartialSum.totalFare).foldl add s.priceSum)
        (s.amount + (sums.map PartialSum.amount).sum)).toList := by
  induction sums generalizing s with
  | nil => exact absurd rfl hne
  | cons m ms ih =>
      have hreceived : (s.receive m).amountReceived = s.amountReceived + 1 := rfl
      simp only [List.map_cons,List.sum_cons,List.length_cons,List.foldl_cons,Processor.run,
        collect_mediaGeneral] at hG ⊢
      rcases eq_or_ne ms [] with rfl | hms
      · rw [if_pos (hreceived.trans hG)]
        simp only [Option.map_some,Option.getD_some,List.map_nil,Processor.run,List.append_nil,
          List.foldl_nil,List.sum_nil,add_zero]
        rfl
      · have hlength := List.length_pos_iff.mpr hms
        have hrest := ih (s := s.receive m) hms (by omega)
        rw [if_neg fun h => by omega]
        simp only [Option.map_some,Option.getD_some,List.nil_append]
        rw [hrest,← add_assoc]
        rfl

end

/-- Of exact fares the sum and the amount of all that were filed are sent. -/
theorem partialSum_group (ps : List (String × ℚ)) (rows : List RoutePrices) :
    (⟨Dict.group ps,rows⟩ : Grouper).partialSum = ⟨(ps.map Prod.snd).sum,ps.length⟩ := by
  have hsum := Dict.sum_group (fun v : ℚ => v) ps
  rw [partialSum_eq,length_group,addUp_rat]
  simp only [List.map_id',Dict.values,List.map_map,PartialSum.mk.injEq,and_true] at hsum ⊢
  rw [← hsum]
  congr 1
  exact List.map_congr_left fun e _ => addUp_rat e.2

end FlightsOptimizer.MaxAvg
