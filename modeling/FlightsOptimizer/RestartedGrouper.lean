import FlightsOptimizer.Grouper
import FlightsOptimizer.Restart

/-!
# What a restarted grouper sends

A restart is about rows of text, the query about flights. A priced row is a
flight, and a grouper of rows holds what a grouper of flights holds; so a grouper
whose connection was restored sends the sum that it would have sent, and keeps
the same fares above the average.
-/
namespace FlightsOptimizer.Statefull
open Text LoggerText Replay
open MaxAvg (fare filterPrices)

theorem ofList_injective : Function.Injective String.ofList :=
  fun _ _ h => String.ofList_injective h

/-- The routes of a grouper of rows, as those of a grouper of flights. -/
def grouped (s : Dict Text (List ℚ)) : MaxAvg.Grouper := ⟨s.rekey ofList_injective id,[]⟩

section
variable (b : Builtins)

def flight (message : Row) : Receiver.Flight where
  startingAirport := String.ofList ((field "startingAirport" message).getD [])
  destinationAirport := String.ofList ((field "destinationAirport" message).getD [])
  totalFare := (getTotalFare b message).getD 0

variable {b} {rows : List Row} {s t : Dict Text (List ℚ)}

theorem fare_flight {m : Row} (h : Priced b m) :
    fare (flight b m) = (String.ofList (priced b m).1,(priced b m).2) := by
  obtain ⟨route,hroute⟩ := Option.isSome_iff_exists.mp h.1
  unfold getRoute convertMessageToTrajectory at hroute
  cases hstart : field "startingAirport" m with
  | none => simp [hstart] at hroute
  | some start =>
      cases hdestination : field "destinationAirport" m with
      | none => simp [hstart,hdestination] at hroute
      | some destination =>
          have happend : String.ofList start ++ "-" ++ String.ofList destination =
              String.ofList (start ++ '-' :: destination) := by
            apply String.toList_inj.mp
            simp
          simp [fare,flight,priced,getRoute,convertMessageToTrajectory,Receiver.getRoute,hstart,
            hdestination,happend]

theorem grouped_push (route : Text) (totalFare : ℚ) :
    grouped (s.push route totalFare) =
      {grouped s with routes := (grouped s).routes.push (String.ofList route) totalFare} := by
  unfold grouped Dict.push Dict.getD
  rw [Dict.rekey_set,Dict.get?_rekey]
  cases s.get? route <;> rfl

/-- A row does to a grouper what its flight does. -/
theorem grouped_process {m : Row} (h : (grouper b).process m s = .done t) :
    grouped t = (grouped s).groupPricesByRoute (flight b m) := by
  obtain ⟨hm,rfl⟩ := (process_grouper m s t).mp h
  have hfare := Prod.mk.inj (fare_flight hm)
  unfold MaxAvg.Grouper.groupPricesByRoute
  rw [grouped_push,← hfare.1,← hfare.2]

theorem grouped_run (h : (grouper b).run rows s = .done t) :
    grouped t = rows.foldl (fun g m => g.groupPricesByRoute (flight b m)) (grouped s) := by
  induction rows generalizing s with
  | nil => exact congrArg grouped (Outcome.done.inj h).symm
  | cons m rows ih =>
      obtain ⟨u,hu,hrun⟩ := (Processor.run_cons m rows).mp h
      rw [ih hrun,grouped_process hu]
      rfl

/-- The processor of the pipeline, on the flights of the rows. -/
theorem grouped_eq_run {batches : List (List Row)}
    (h : (grouper b).run batches.flatten (grouper b).init = .done t) :
    grouped t = (MaxAvg.Grouper.processor.run (batches.map (List.map (flight b))) .init).2 := by
  have hrun := Connection.run_none (p := MaxAvg.Grouper.processor) (fun _ _ => rfl)
    (batches.map (List.map (flight b))) .init
  rw [hrun,grouped_run h,← List.map_flatten,List.foldl_map]
  rfl

theorem grouped_eq_group {batches : List (List Row)}
    (h : (grouper b).run batches.flatten (grouper b).init = .done t) :
    grouped t = ⟨Dict.group ((batches.flatten.map (flight b)).map fare),[]⟩ := by
  rw [grouped_eq_run h,MaxAvg.Grouper.run_processor]
  simp only [List.map_flatten]

/-- A restored grouper sends the sum and the amount that the live one sends, and
keeps the same fares of each route for any average. -/
theorem restarted_grouper {batches : List (List Row)} (h : ∀ m ∈ batches.flatten, Priced b m) :
    ∃ t, (grouper b).run batches.reverse.flatten (grouper b).init = .done t ∧
      (grouped t).partialSum = (grouped ((grouper b).live batches)).partialSum ∧
      ∀ average route, (filterPrices ((grouped t).routes.getD route []) average).Perm
        (filterPrices ((grouped ((grouper b).live batches)).routes.getD route []) average) := by
  have hperm := Processor.perm_flatten_reverse batches
  have hlive := (run_grouper batches.flatten _).mpr ⟨h,rfl⟩
  have hrun := (run_grouper batches.reverse.flatten _).mpr
    ⟨fun m hm => h m (hperm.mem_iff.mp hm),rfl⟩
  have hfares := (hperm.map (flight b)).map fare
  refine ⟨_,hrun,?_,?_⟩
  · rw [Processor.live_of_run hlive,grouped_eq_group hlive,grouped_eq_group hrun,
      MaxAvg.partialSum_group,MaxAvg.partialSum_group,(hfares.map _).sum_eq,hfares.length_eq]
  · intro average route
    rw [Processor.live_of_run hlive,grouped_eq_group hlive,grouped_eq_group hrun]
    simp only [Dict.getD_group]
    exact (hfares.filterMap _).filter _

end

end FlightsOptimizer.Statefull
