import FlightsOptimizer.Isolation
import FlightsOptimizer.Statefull

/-!
# A grouper that finishes again

`finish_processing` first replays the averages that the log has for its client,
on top of the rows that it holds already. A grouper that has been answered holds
its rows and has the average in the log, so a second EOF of the client adds the
rows of that average once more. Where no fare is above it there are no rows, and
the grouper sends its sum again and waits for another average.
-/
namespace FlightsOptimizer.MaxAvg
open Receiver

/-- A live grouper with the averages that the log has for its client, the last
one first. -/
structure LiveGrouper where
  grouper : Grouper
  stored : List ℚ

/-- The end of a call of `finish_processing`: the rows that it returns and the
average that it waited for. -/
structure Finished where
  rows : List RoutePrices
  waited : Option ℚ

/-- `finish_processing` to its end. Where it sends its sum it ends only with an
average, which `process_media_general` stores. -/
inductive Finishes : LiveGrouper → Finished → LiveGrouper → Prop
  | restored {g g' : Grouper} {stored : List ℚ} (h : g.finishProcessing stored = (g',none)) :
      Finishes ⟨g,stored⟩ ⟨g'.vuelosMessageToSend,none⟩ ⟨g',stored⟩
  | received {g g' : Grouper} {stored : List ℚ} {sum : PartialSum} (m : ℚ)
      (h : g.finishProcessing stored = (g',some sum)) :
      Finishes ⟨g,stored⟩ ⟨(g'.processSingle m).vuelosMessageToSend,some m⟩
        ⟨g'.processSingle m,m :: stored⟩

/-- A grouper that has collected flights, after a restart or not, and has finished
any number of times, with flights between. -/
inductive Reached : LiveGrouper → Prop
  | collected (routes : Dict String (List ℚ)) (stored : List ℚ) : Reached ⟨⟨routes,[]⟩,stored⟩
  | process {s : LiveGrouper} (f : Flight) :
      Reached s → Reached ⟨s.grouper.groupPricesByRoute f,s.stored⟩
  | finishes {s s' : LiveGrouper} {first : Finished} : Reached s → Finishes s first s' → Reached s'

/-- Another call returns the same rows, each route once, and waits for nothing. -/
structure SameAgain (first : Finished) (s : LiveGrouper) : Prop where
  same : ∃ s', Finishes s ⟨first.rows,none⟩ s'
  nodup : (first.rows.map RoutePrices.route).Nodup

section
open Text Replay Statefull
variable (b : Builtins)

/-- `float(message["average"])`. -/
def average (message : Statefull.Row) : Option ℚ := (field "average" message).bind b.float

/-- `process_single` over the rows that the log gives back. -/
def processAverages (g : Grouper) : Replay.Processor Statefull.Row Grouper where
  init := g
  process message g :=
    match average b message with
    | some m => .done (g.processSingle m)
    | none => .raised g

/-- The averages of a client's messages, the last one first. -/
def averagesOf (rows : Text → List Statefull.Row) (c : ℤ) (ds : List Batch) : List ℚ :=
  (batchesOf rows c ds).reverse.flatten.filterMap (average b)

variable {b}

theorem run_processAverages {messages : List Statefull.Row} (g g' : Grouper)
    (h : ∀ message ∈ messages, (average b message).isSome = true) :
    (processAverages b g').run messages g =
      .done (g.restoreMediaGeneral (messages.filterMap (average b))) := by
  unfold Grouper.restoreMediaGeneral
  induction messages generalizing g with
  | nil => rfl
  | cons message messages ih =>
      obtain ⟨m,hm⟩ := Option.isSome_iff_exists.mp (h message List.mem_cons_self)
      have hprocess : (processAverages b g').process message g = .done (g.processSingle m) := by
        unfold processAverages
        simp only [hm]
      rw [Processor.run,hprocess,List.filterMap_cons_some hm]
      exact ih _ fun r hr => h r (List.mem_cons_of_mem _ hr)

/-- The file of a client's connection log replays the averages that were stored. -/
theorem restoreMediaGeneral_log {σ : Type} (P : Replay.Processor Statefull.Row σ)
    {rows : Text → List Statefull.Row} {c : ℤ} {ds : List Batch} (g : Grouper)
    (h : ∀ message ∈ (batchesOf rows c ds).flatten, (average b message).isSome = true) :
    restoreStatefullProcessor (processAverages b g) c (Statefull.received P rows ds).files =
      some (g.restoreMediaGeneral (averagesOf b rows c ds)) := by
  have hreverse : ∀ message ∈ (batchesOf rows c ds).reverse.flatten,
      (average b message).isSome = true := by
    intro message hm
    exact h message ((Processor.perm_flatten_reverse _).mem_iff.mp hm)
  rw [restore_received,run_processAverages _ _ hreverse]
  rfl

/-- Another average goes to the front. -/
theorem averagesOf_concat {rows : Text → List Statefull.Row} {c : ℤ} {ds : List Batch} {d : Batch}
    {m : ℚ} (hc : d.clientId = c) (hm : (rows d.payload).filterMap (average b) = [m]) :
    averagesOf b rows c (ds ++ [d]) = m :: averagesOf b rows c ds := by
  unfold averagesOf batchesOf
  rw [filter_concat_of_eq c ds hc,List.map_append,List.reverse_append,List.flatten_append,
    List.filterMap_append]
  simp [hm]

/-- `finish_processing` reads the file of the client's connection log, and after it
the file has the average that it waited for, if it waited. -/
theorem Finishes.log {σ : Type} {P : Replay.Processor Statefull.Row σ}
    {rows : Text → List Statefull.Row} {c : ℤ} {ds : List Batch} {d : Batch}
    {s s' : LiveGrouper} {first : Finished} (hf : Finishes s first s')
    (hstored : s.stored = averagesOf b rows c ds)
    (h : ∀ message ∈ (batchesOf rows c ds).flatten, (average b message).isSome = true)
    (hc : d.clientId = c) (hd : (rows d.payload).filterMap (average b) = first.waited.toList) :
    restoreStatefullProcessor (processAverages b s.grouper) c (Statefull.received P rows ds).files =
        some (s.grouper.restoreMediaGeneral s.stored) ∧
      s'.stored = averagesOf b rows c (if first.waited.isSome then ds ++ [d] else ds) := by
  rw [hstored]
  refine ⟨restoreMediaGeneral_log P s.grouper h,?_⟩
  cases hf with
  | restored _ => exact hstored
  | received m _ => exact (congrArg (m :: ·) hstored).trans (averagesOf_concat hc hd).symm

end

section
variable {routes : Dict String (List ℚ)} {rows : List RoutePrices} {stored : List ℚ} {m : ℚ}
  {s s' s'' : LiveGrouper} {first second : Finished}

/-- The rows of the averages, each on its own. -/
def replayed (routes : Dict String (List ℚ)) (stored : List ℚ) : List RoutePrices :=
  stored.flatMap fun m => (⟨routes,[]⟩ : Grouper).filtered m

theorem replayed_cons (routes : Dict String (List ℚ)) (m : ℚ) (stored : List ℚ) :
    replayed routes (m :: stored) = replayed routes [m] ++ replayed routes stored := by
  unfold replayed
  rw [List.flatMap_cons,List.flatMap_singleton]

theorem finishProcessing_eq (routes : Dict String (List ℚ)) (rows : List RoutePrices)
    (stored : List ℚ) :
    (⟨routes,rows⟩ : Grouper).finishProcessing stored =
      (⟨routes,rows ++ replayed routes stored⟩,
        if rows ++ replayed routes stored = [] then some (⟨routes,[]⟩ : Grouper).partialSum
        else none) := by
  unfold Grouper.finishProcessing
  rw [Groupers.restoreMediaGeneral_eq]
  change (if rows ++ replayed routes stored ≠ [] then _ else _) = _
  by_cases h : rows ++ replayed routes stored = []
  · rw [if_neg (not_not.mpr h),if_pos h]
    rfl
  · rw [if_pos h,if_neg h]
    rfl

/-- A call returns what it holds with what the log replays, if there is anything,
and otherwise the rows of the average that it waits for. -/
theorem finishes_iff : Finishes ⟨⟨routes,rows⟩,stored⟩ first s ↔
    rows ++ replayed routes stored ≠ [] ∧ first = ⟨rows ++ replayed routes stored,none⟩ ∧
        s = ⟨⟨routes,rows ++ replayed routes stored⟩,stored⟩ ∨
      rows ++ replayed routes stored = [] ∧ ∃ m, first = ⟨replayed routes [m],some m⟩ ∧
        s = ⟨⟨routes,replayed routes [m]⟩,m :: stored⟩ := by
  have hsingle : ∀ m, (⟨routes,[]⟩ : Grouper).processSingle m = ⟨routes,replayed routes [m]⟩ := by
    intro m
    unfold replayed Grouper.processSingle
    rw [List.flatMap_singleton]
    rfl
  constructor
  · intro h
    cases h with
    | restored hcall =>
        rw [finishProcessing_eq] at hcall
        obtain ⟨rfl,hsum⟩ := Prod.mk.inj hcall
        split_ifs at hsum with hnil
        exact Or.inl ⟨hnil,rfl,rfl⟩
    | received m hcall =>
        rw [finishProcessing_eq] at hcall
        obtain ⟨rfl,hsum⟩ := Prod.mk.inj hcall
        split_ifs at hsum with hnil
        rw [hnil,hsingle]
        exact Or.inr ⟨rfl,m,rfl,rfl⟩
  · rintro (⟨hne,rfl,rfl⟩ | ⟨hnil,m,rfl,rfl⟩)
    · exact .restored (by rw [finishProcessing_eq,if_neg hne])
    · have hcall : (⟨routes,rows⟩ : Grouper).finishProcessing stored =
          (⟨routes,[]⟩,some (⟨routes,[]⟩ : Grouper).partialSum) := by
        rw [finishProcessing_eq,hnil,if_pos rfl]
      have hfinishes := Finishes.received m hcall
      rw [hsingle] at hfinishes
      exact hfinishes

/-- A route with a fare above some average in the log is replayed. -/
theorem exists_replayed {route : String} (hm : m ∈ stored)
    (h : filterPrices (routes.getD route []) m ≠ []) :
    ∃ x ∈ replayed routes stored, x.route = route :=
  ⟨⟨route,_,h⟩,List.mem_flatMap.mpr ⟨m,hm,mem_filtered.mpr rfl⟩,rfl⟩

theorem exists_of_mem_replayed {x : RoutePrices} (hx : x ∈ replayed routes stored) :
    ∃ m ∈ stored, filterPrices (routes.getD x.route []) m ≠ [] := by
  obtain ⟨m,hm,hx⟩ := List.mem_flatMap.mp hx
  refine ⟨m,hm,?_⟩
  rw [← mem_filtered.mp hx]
  exact x.nonempty

/-- Each row that is held is of a route that the log leads to again. -/
def Covered (s : LiveGrouper) : Prop :=
  ∀ x ∈ s.grouper.vuelosMessageToSend,
    ∃ m ∈ s.stored, filterPrices (s.grouper.routes.getD x.route []) m ≠ []

/-- Another fare leaves the fares above an average. -/
theorem filterPrices_push_ne_nil {route : String} (f : Flight)
    (h : filterPrices (routes.getD route []) m ≠ []) :
    filterPrices ((routes.push (getRoute f) f.totalFare).getD route []) m ≠ [] := by
  unfold Dict.push
  rw [Dict.getD_set]
  split_ifs with hroute
  · subst hroute
    unfold filterPrices at h ⊢
    rw [List.filter_append]
    exact List.append_ne_nil_of_left_ne_nil h _
  · exact h

theorem Covered.process (h : Covered s) (f : Flight) :
    Covered ⟨s.grouper.groupPricesByRoute f,s.stored⟩ := by
  intro x hx
  obtain ⟨m,hm,hfares⟩ := h x hx
  exact ⟨m,hm,filterPrices_push_ne_nil f hfares⟩

theorem Covered.finishes (h : Covered s) (hf : Finishes s first s') : Covered s' := by
  obtain ⟨⟨routes,rows⟩,stored⟩ := s
  rcases finishes_iff.mp hf with ⟨-,-,rfl⟩ | ⟨-,m,-,rfl⟩
  · intro x hx
    rcases List.mem_append.mp hx with hx | hx
    · exact h x hx
    · exact exists_of_mem_replayed hx
  · intro x hx
    obtain ⟨m',hm,hfares⟩ := exists_of_mem_replayed hx
    rw [List.mem_singleton] at hm
    exact ⟨m,List.mem_cons_self,hm ▸ hfares⟩

theorem Reached.covered (h : Reached s) : Covered s := by
  induction h with
  | collected routes stored => exact nofun
  | process f _ ih => exact ih.process f
  | finishes _ hf ih => exact ih.finishes hf

/-- A grouper that holds rows returns more than these, with a route that comes
twice. -/
theorem Covered.finishes_again (h : Covered ⟨⟨routes,rows⟩,stored⟩) (hne : rows ≠ [])
    (hagain : Finishes ⟨⟨routes,rows⟩,stored⟩ second s) :
    second.rows ≠ rows ∧ ¬ (second.rows.map RoutePrices.route).Nodup := by
  obtain ⟨x,hx⟩ := List.exists_mem_of_ne_nil rows hne
  obtain ⟨m,hm,hfares⟩ := h x hx
  obtain ⟨y,hy,hroute⟩ := exists_replayed hm hfares
  rcases finishes_iff.mp hagain with ⟨-,rfl,-⟩ | ⟨hnil,-⟩
  · refine ⟨fun heq => List.ne_nil_of_mem hy (List.append_right_eq_self.mp heq),?_⟩
    intro hnodup
    rw [List.map_append] at hnodup
    exact (List.nodup_append.mp hnodup).2.2 _ (List.mem_map_of_mem hx) _ (List.mem_map_of_mem hy)
      hroute.symm
  · exact absurd (List.append_eq_nil_iff.mp hnil).1 hne

/-- A second call waits for another average where the first returned no rows, and
otherwise returns other rows, with a route that comes twice. -/
theorem Reached.finishes_again (h : Reached s) (hf : Finishes s first s')
    (hagain : Finishes s' second s'') : (first.rows = [] ∧ second.waited ≠ none) ∨
      second.rows ≠ first.rows ∧ ¬ (second.rows.map RoutePrices.route).Nodup := by
  have hcovered := (h.finishes hf).covered
  obtain ⟨⟨routes,rows⟩,stored⟩ := s
  rcases finishes_iff.mp hf with ⟨hne,rfl,rfl⟩ | ⟨hnil,m,rfl,rfl⟩
  · exact Or.inr (hcovered.finishes_again hne hagain)
  · by_cases hrows : replayed routes [m] = []
    · left
      refine ⟨hrows,?_⟩
      -- the averages that were in the log before lead to no rows either
      have hlog : replayed routes (m :: stored) = [] := by
        rw [replayed_cons,hrows,(List.append_eq_nil_iff.mp hnil).2]
        rfl
      rcases finishes_iff.mp hagain with ⟨hne,-⟩ | ⟨-,m',rfl,-⟩
      · exact absurd (by rw [hrows,hlog,List.append_nil]) hne
      · exact nofun
    · exact Or.inr (hcovered.finishes_again hrows hagain)

/-- No second call is the same again. -/
theorem not_sameAgain (h : Reached s) (hf : Finishes s first s') : ¬ SameAgain first s' := by
  rintro ⟨⟨s'',hagain⟩,-⟩
  rcases h.finishes_again hf hagain with ⟨-,hwaited⟩ | ⟨hrows,-⟩
  · exact hwaited rfl
  · exact hrows rfl

/-- A grouper without an average in its log: it waits for one, and called again it
returns the rows twice, or waits again where there are none. -/
theorem finishes_twice (routes : Dict String (List ℚ)) (m : ℚ) :
    Finishes ⟨⟨routes,[]⟩,[]⟩ ⟨replayed routes [m],some m⟩ ⟨⟨routes,replayed routes [m]⟩,[m]⟩ ∧
      (replayed routes [m] ≠ [] → Finishes ⟨⟨routes,replayed routes [m]⟩,[m]⟩
        ⟨replayed routes [m] ++ replayed routes [m],none⟩
        ⟨⟨routes,replayed routes [m] ++ replayed routes [m]⟩,[m]⟩) ∧
      (replayed routes [m] = [] → (⟨routes,replayed routes [m]⟩ : Grouper).finishProcessing [m] =
        (⟨routes,[]⟩,some (⟨routes,[]⟩ : Grouper).partialSum)) := by
  refine ⟨finishes_iff.mpr (Or.inr ⟨rfl,m,rfl,rfl⟩),?_,?_⟩
  · intro hne
    exact finishes_iff.mpr (Or.inl ⟨List.append_ne_nil_of_left_ne_nil hne _,rfl,rfl⟩)
  · intro hnil
    rw [finishProcessing_eq,hnil]
    rfl

end

/-- One route, with fares on both sides of an average of 15. -/
def oneRoute : Dict String (List ℚ) := ⟨[("A-B",[10,20])],by decide⟩

def above15 : RoutePrices := ⟨"A-B",[20],by decide⟩

theorem replayed_oneRoute : replayed oneRoute [15] = [above15] := by decide

/-- The second call returns the route twice. -/
theorem oneRoute_twice :
    Reached ⟨⟨oneRoute,[]⟩,[]⟩ ∧
    Finishes ⟨⟨oneRoute,[]⟩,[]⟩ ⟨[above15],some 15⟩ ⟨⟨oneRoute,[above15]⟩,[15]⟩ ∧
    Finishes ⟨⟨oneRoute,[above15]⟩,[15]⟩ ⟨[above15,above15],none⟩
      ⟨⟨oneRoute,[above15,above15]⟩,[15]⟩ ∧
    ¬ SameAgain ⟨[above15],some 15⟩ ⟨⟨oneRoute,[above15]⟩,[15]⟩ := by
  obtain ⟨hfirst,hsecond,-⟩ := finishes_twice oneRoute 15
  rw [replayed_oneRoute] at hfirst hsecond
  refine ⟨.collected oneRoute [],hfirst,hsecond (by decide),?_⟩
  rintro ⟨⟨s,hagain⟩,-⟩
  rcases finishes_iff.mp hagain with ⟨-,heq,-⟩ | ⟨hnil,-⟩
  · rw [replayed_oneRoute] at heq
    cases heq
  · cases hnil

/-- With an average of 30 there are no rows, and the second call waits. -/
theorem not_sameAgain_empty : ¬ SameAgain ⟨[],some 30⟩ ⟨⟨oneRoute,[]⟩,[30]⟩ := by
  have hnil : replayed oneRoute [30] = [] := by decide
  have hfirst := (finishes_twice oneRoute 30).1
  rw [hnil] at hfirst
  exact not_sameAgain (.collected oneRoute []) hfirst

end FlightsOptimizer.MaxAvg
