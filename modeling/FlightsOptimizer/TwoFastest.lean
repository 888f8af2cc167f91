import Mathlib.Data.List.Perm.Basic
import FlightsOptimizer.DosMasRapidos

/-!
# The two fastest flights of each trajectory

What finish_processing returns are flights that were received, each from its own
place in the input: the list that is kept of a trajectory, with what was dropped
or replaced behind it, is a rearrangement of the flights of the trajectory.
-/
namespace FlightsOptimizer.Statefull
open Text Replay

section
variable {α : Type} (key : α → ℕ)

/-- Of a list at most two are kept, in order, and the others are not below them. -/
structure TwoLeast (kept l : List α) : Prop where
  others : ∃ others, (kept ++ others).Perm l ∧ ∀ m ∈ others, ∀ x ∈ kept, key x ≤ key m
  sorted : kept.Pairwise fun x y => key x ≤ key y
  length : kept.length = min 2 l.length

variable {key} {kept kept' l : List α} {x y a : α}

theorem TwoLeast.singleton (a : α) : TwoLeast key [a] [a] where
  others := ⟨[],.refl _,nofun⟩
  sorted := List.pairwise_singleton _ a
  length := rfl

/-- The second flight joins the first. -/
theorem TwoLeast.second (h : TwoLeast key [x] l) (hp : kept'.Perm [x,a])
    (hs : kept'.Pairwise fun x y => key x ≤ key y) : TwoLeast key kept' (l ++ [a]) := by
  obtain ⟨others,hperm,-⟩ := h.others
  have hl : l.length = 1 := by
    have hlength := h.length
    rw [List.length_singleton] at hlength
    omega
  have hnil : others = [] := by
    have hlength := hperm.length_eq
    rw [List.length_append,List.length_singleton,hl] at hlength
    exact List.eq_nil_of_length_eq_zero (by omega)
  refine ⟨⟨[],?_,nofun⟩,hs,?_⟩
  · rw [hnil] at hperm
    rw [List.append_nil]
    exact hp.trans (hperm.append_right [a])
  · rw [hp.length_eq,List.length_append,hl]
    rfl

/-- Of three flights one goes, which is not below the two that stay. -/
theorem TwoLeast.third (dropped : α) (h : TwoLeast key [x,y] l)
    (hp : (kept' ++ [dropped]).Perm [x,y,a]) (hs : kept'.Pairwise fun x y => key x ≤ key y)
    (hkept : ∀ m ∈ kept', key m ≤ key y) (hdropped : key y ≤ key dropped) :
    TwoLeast key kept' (l ++ [a]) := by
  obtain ⟨others,hperm,hothers⟩ := h.others
  have hl : 2 ≤ l.length := by
    have hlength := h.length
    simp only [List.length_cons,List.length_nil] at hlength
    omega
  refine ⟨⟨dropped :: others,?_,?_⟩,hs,?_⟩
  · have hmiddle : (kept' ++ dropped :: others).Perm ([x,y,a] ++ others) := by
      have happend := hp.append_right others
      rwa [List.append_assoc] at happend
    have hmove : ([x,y,a] ++ others).Perm ([x,y] ++ others ++ [a]) := by
      have hcomm : ([a] ++ others).Perm (others ++ [a]) := List.perm_append_comm
      rw [List.append_assoc]
      exact hcomm.append_left [x,y]
    exact hmiddle.trans (hmove.trans (hperm.append_right [a]))
  · intro m hm z hz
    refine (hkept z hz).trans ?_
    rcases List.mem_cons.mp hm with rfl | hm
    · exact hdropped
    · exact hothers m hm y (by simp)
  · have hlength := hp.length_eq
    simp only [List.length_append,List.length_cons,List.length_nil] at hlength ⊢
    omega

end

section
variable {α : Type} {l l' : List α} {rows : List α} {is : List ℕ}

/-- The places hold the members of the list. -/
abbrev Places (rows : List α) : List ℕ → List α → Prop :=
  List.Forall₂ fun i m => rows[i]? = some m

theorem Places.eq (h : Places rows is l) : is.filterMap (fun i => rows[i]?) = l := by
  induction h with
  | nil => rfl
  | cons hi _ ih => rw [List.filterMap_cons,hi,ih]

/-- A rearrangement of the members is one of their places. -/
theorem Places.perm (h : Places rows is l) (hp : l.Perm l') : ∃ js, is.Perm js ∧ Places rows js l' := by
  have hcomp : Relation.Comp (Places rows) List.Perm is l' := ⟨l,h,hp⟩
  rwa [List.forall₂_comp_perm_eq_perm_comp_forall₂] at hcomp

theorem Places.get (h : Places rows is l) : ∀ i ∈ is, ∃ m ∈ l, rows[i]? = some m := by
  induction h with
  | nil => nofun
  | cons hi _ ih =>
      intro j hj
      rcases List.mem_cons.mp hj with rfl | hj
      · exact ⟨_,List.mem_cons_self,hi⟩
      · obtain ⟨m,hm,hjm⟩ := ih j hj
        exact ⟨m,List.mem_cons_of_mem _ hm,hjm⟩

end

/-- A message with the fields that the processor reads. -/
structure FlightMessage (message : Row) : Prop where
  startingAirport : (field "startingAirport" message).isSome = true
  destinationAirport : (field "destinationAirport" message).isSome = true
  travelDuration : (field "travelDuration" message).isSome = true

/-- `finish_processing`: the trajectories in the order of their first flights. -/
def finishProcessing (s : Dict Text (List Row)) : List Row := s.entries.flatMap Prod.snd

section
variable (b : Builtins)

def duration (message : Row) : ℕ := (convertMessageToTravelDuration b message).getD 0

variable {b} {message : Row} {fastest l : List Row}

theorem FlightMessage.trajectory (h : FlightMessage message) :
    (convertMessageToTrajectory message).isSome = true := by
  obtain ⟨start,hstart⟩ := Option.isSome_iff_exists.mp h.startingAirport
  obtain ⟨destination,hdestination⟩ := Option.isSome_iff_exists.mp h.destinationAirport
  unfold convertMessageToTrajectory
  simp only [hstart,hdestination,Option.bind_eq_bind,Option.bind_some,Option.isSome_some]

theorem FlightMessage.timed (h : FlightMessage message) :
    (convertMessageToTravelDuration b message).isSome = true := by
  unfold convertMessageToTravelDuration
  rw [Option.isSome_map]
  exact h.travelDuration

/-- The sort puts the list in order and nothing else. -/
theorem sortFastest_sorted (b : Builtins) (fastest : List Row)
    (h : ∀ m ∈ fastest, (convertMessageToTravelDuration b m).isSome = true) :
    ∃ fastest', sortFastest b fastest = .done fastest' ∧ fastest'.Perm fastest ∧
      fastest'.Pairwise fun x y => duration b x ≤ duration b y := by
  have htotal : Std.Total fun m m' : Row => duration b m ≤ duration b m' :=
    ⟨fun m m' => le_total (duration b m) (duration b m')⟩
  have htrans : IsTrans Row fun m m' => duration b m ≤ duration b m' :=
    ⟨fun _ _ _ hxy hyz => hxy.trans hyz⟩
  exact ⟨_,if_pos h,List.perm_insertionSort _ fastest,List.pairwise_insertionSort _ fastest⟩

/-- One message more of a trajectory that has been seen. -/
theorem TwoLeast.addToFastest (h : TwoLeast (duration b) fastest l) (hne : l ≠ [])
    (hall : ∀ m ∈ fastest, (convertMessageToTravelDuration b m).isSome = true)
    (hm : (convertMessageToTravelDuration b message).isSome = true) :
    ∃ fastest', addToFastest b fastest message = .done fastest' ∧
      TwoLeast (duration b) fastest' (l ++ [message]) := by
  obtain ⟨d,hd⟩ := Option.isSome_iff_exists.mp hm
  have hmessage : duration b message = d := by
    unfold duration
    rw [hd]
    rfl
  have hlength := h.length
  have hpos := List.length_pos_of_ne_nil hne
  rcases fastest with _ | ⟨x,_ | ⟨y,_ | ⟨z,rest⟩⟩⟩
  · simp only [List.length_nil] at hlength
    omega
  · obtain ⟨fastest',hsort,hp,hs⟩ := sortFastest_sorted b [x,message] (by
      intro m hmem
      rcases List.mem_pair.mp hmem with rfl | rfl
      · exact hall m List.mem_cons_self
      · exact hm)
    refine ⟨fastest',?_,h.second hp hs⟩
    unfold Statefull.addToFastest
    simp only [hd]
    exact hsort
  · obtain ⟨dy,hdy⟩ := Option.isSome_iff_exists.mp (hall y (by simp))
    have hsecond : duration b y = dy := by
      unfold duration
      rw [hdy]
      rfl
    have hfirst : duration b x ≤ duration b y := by simpa using h.sorted
    unfold Statefull.addToFastest
    simp only [hd,hdy]
    by_cases hless : d < dy
    · -- the message takes the place of the second one
      obtain ⟨fastest',hsort,hp,hs⟩ := sortFastest_sorted b [x,message] (by
        intro m hmem
        rcases List.mem_pair.mp hmem with rfl | rfl
        · exact hall m List.mem_cons_self
        · exact hm)
      rw [if_pos hless]
      refine ⟨fastest',hsort,h.third y ?_ hs ?_ le_rfl⟩
      · have hswap : ([message] ++ [y]).Perm ([y] ++ [message]) := List.perm_append_comm
        exact (hp.append_right [y]).trans (hswap.append_left [x])
      · intro m hmem
        rcases List.mem_pair.mp (hp.mem_iff.mp hmem) with rfl | rfl
        · exact hfirst
        · omega
    · obtain ⟨fastest',hsort,hp,hs⟩ := sortFastest_sorted b _ hall
      rw [if_neg hless]
      refine ⟨fastest',hsort,h.third message (hp.append_right [message]) hs ?_ ?_⟩
      · intro m hmem
        rcases List.mem_pair.mp (hp.mem_iff.mp hmem) with rfl | rfl
        · exact hfirst
        · exact le_rfl
      · omega
  · simp only [List.length_cons] at hlength
    omega

end

section
variable {b : Builtins} {rows : List Row} {s : Dict Text (List Row)} {message : Row}

/-- Each trajectory that has been seen has two least of its flights. -/
def KeepsTwo (b : Builtins) (rows : List Row) (s : Dict Text (List Row)) : Prop :=
  ∀ t, (s.get? t = none ∧ ofTrajectory rows t = []) ∨ ∃ fastest, s.get? t = some fastest ∧
    ofTrajectory rows t ≠ [] ∧ TwoLeast (duration b) fastest (ofTrajectory rows t)

theorem KeepsTwo.set (h : KeepsTwo b rows s) {trajectory : Text}
    (ht : convertMessageToTrajectory message = some trajectory) {fastest : List Row}
    (hf : TwoLeast (duration b) fastest (ofTrajectory rows trajectory ++ [message])) :
    KeepsTwo b (rows ++ [message]) (s.set trajectory fastest) :=
  fun t => set_trajectory h ht hf t

/-- What is kept was received. -/
theorem TwoLeast.mem {fastest l : List Row} (h : TwoLeast (duration b) fastest l) :
    ∀ m ∈ fastest, m ∈ l := by
  intro m hm
  obtain ⟨others,hp,-⟩ := h.others
  exact hp.mem_iff.mp (List.mem_append_left others hm)

/-- One flight message. -/
theorem KeepsTwo.process (h : KeepsTwo b rows s) (hrows : ∀ m ∈ rows, FlightMessage m)
    (hm : FlightMessage message) :
    ∃ s', (dosMasRapidos b).process message s = .done s' ∧ KeepsTwo b (rows ++ [message]) s' := by
  obtain ⟨t,ht⟩ := Option.isSome_iff_exists.mp hm.trajectory
  unfold dosMasRapidos
  simp only [ht]
  rcases h t with ⟨hnone,hnil⟩ | ⟨fastest,hs,hne,htwo⟩
  · simp only [hnone]
    refine ⟨_,rfl,h.set ht ?_⟩
    rw [hnil]
    exact .singleton message
  · have hall : ∀ m ∈ fastest, (convertMessageToTravelDuration b m).isSome = true := by
      intro m hmem
      exact (hrows m (List.mem_of_mem_filter (htwo.mem m hmem))).timed
    obtain ⟨fastest',hadd,htwo'⟩ := htwo.addToFastest hne hall hm.timed
    simp only [hs,hadd]
    exact ⟨_,rfl,h.set ht htwo'⟩

/-- Flight messages are all taken in. -/
theorem keepsTwo_run (hrows : ∀ m ∈ rows, FlightMessage m) :
    ∃ s, (dosMasRapidos b).run rows (dosMasRapidos b).init = .done s ∧ KeepsTwo b rows s := by
  induction rows using List.reverseRecOn with
  | nil => exact ⟨_,rfl,fun t => Or.inl ⟨rfl,rfl⟩⟩
  | append_singleton rows message ih =>
      have hinit : ∀ m ∈ rows, FlightMessage m := fun m hm => hrows m (List.mem_append_left _ hm)
      obtain ⟨u,hu,hk⟩ := ih hinit
      obtain ⟨s,hs,hk'⟩ := hk.process hinit (hrows message (by simp))
      exact ⟨s,(Processor.run_append_singleton rows message).mpr ⟨u,hu,hs⟩,hk'⟩

/-- The places of the flights of a trajectory. -/
def placesOf (rows : List Row) (t : Text) : List ℕ :=
  (rows.zipIdx.filter fun p => convertMessageToTrajectory p.1 = some t).map Prod.snd

theorem places_placesOf (rows : List Row) (t : Text) :
    Places rows (placesOf rows t) (ofTrajectory rows t) := by
  have hflights : ofTrajectory rows t =
      (rows.zipIdx.filter fun p => convertMessageToTrajectory p.1 = some t).map Prod.fst := by
    have hfst := List.zipIdx_map_fst 0 rows
    unfold ofTrajectory
    conv_lhs => rw [← hfst]
    rw [List.filter_map]
    rfl
  unfold Places placesOf
  rw [hflights,List.forall₂_map_left_iff,List.forall₂_map_right_iff,List.forall₂_same]
  intro p hp
  exact List.mem_zipIdx_iff_getElem?.mp (List.mem_of_mem_filter hp)

theorem nodup_placesOf (rows : List Row) (t : Text) : (placesOf rows t).Nodup := by
  have hsub : (placesOf rows t).Sublist (rows.zipIdx.map Prod.snd) := List.filter_sublist.map Prod.snd
  refine hsub.nodup ?_
  rw [List.zipIdx_map_snd]
  exact List.nodup_range'

theorem mem_placesOf {t : Text} {i : ℕ} {m : Row} (hi : rows[i]? = some m)
    (ht : convertMessageToTrajectory m = some t) : i ∈ placesOf rows t := by
  unfold placesOf
  rw [List.mem_map]
  refine ⟨(m,i),List.mem_filter.mpr ⟨List.mem_zipIdx_iff_getElem?.mpr hi,?_⟩,rfl⟩
  exact decide_eq_true ht

/-- Flights at these places are what is returned of a trajectory. -/
structure Fastest (b : Builtins) (rows : List Row) (t : Text) (places : List ℕ) : Prop where
  nodup : places.Nodup
  flights : ∀ i ∈ places, ∃ m, rows[i]? = some m ∧ convertMessageToTrajectory m = some t
  length : places.length = min 2 (ofTrajectory rows t).length
  sorted : (places.filterMap fun i => rows[i]?).Pairwise fun x y => duration b x ≤ duration b y
  rest : ∀ i m, rows[i]? = some m → convertMessageToTrajectory m = some t → i ∉ places →
    ∀ last ∈ (places.filterMap fun i => rows[i]?).getLast?, duration b last ≤ duration b m

/-- The places of two least flights. -/
theorem TwoLeast.fastest {fastest : List Row} {t : Text}
    (h : TwoLeast (duration b) fastest (ofTrajectory rows t)) :
    ∃ places, Fastest b rows t places ∧ places.filterMap (fun i => rows[i]?) = fastest := by
  obtain ⟨others,hp,hothers⟩ := h.others
  obtain ⟨places,hperm,hplaces⟩ := (places_placesOf rows t).perm hp.symm
  have hkept : Places rows (places.take fastest.length) fastest :=
    List.forall₂_take_append _ _ _ hplaces
  have hdropped : Places rows (places.drop fastest.length) others :=
    List.forall₂_drop_append _ _ _ hplaces
  have hnodup : places.Nodup := hperm.nodup (nodup_placesOf rows t)
  have heq : (places.take fastest.length).filterMap (fun i => rows[i]?) = fastest := hkept.eq
  refine ⟨places.take fastest.length,⟨?_,?_,?_,?_,?_⟩,heq⟩
  · exact hnodup.sublist (List.take_sublist _ _)
  · intro i hi
    obtain ⟨m,hm,him⟩ := hkept.get i hi
    exact ⟨m,him,of_decide_eq_true (List.mem_filter.mp (h.mem m hm)).2⟩
  · rw [hkept.length_eq]
    exact h.length
  · rw [heq]
    exact h.sorted
  · intro i m him ht hi last hlast
    rw [heq] at hlast
    have hmem : i ∈ places := hperm.mem_iff.mp (mem_placesOf him ht)
    rw [← List.take_append_drop fastest.length places] at hmem
    obtain ⟨m',hm',him'⟩ := hdropped.get i ((List.mem_append.mp hmem).resolve_left hi)
    rw [him] at him'
    cases him'
    exact hothers m hm' last (List.mem_of_getLast? hlast)

theorem finishProcessing_eq (s : Dict Text (List Row)) :
    finishProcessing s = s.keys.flatMap fun t => (s.get? t).getD [] := by
  unfold finishProcessing Dict.keys
  rw [List.flatMap_map]
  apply List.flatMap_congr
  intro e he
  rw [(s.get?_eq_some_iff e.1 e.2).mpr he]
  rfl

/-- For each trajectory that was seen, two of its flights or the only one, from
different places of the input, in order, and none of the others is faster. -/
theorem finishProcessing_fastest (hrows : ∀ m ∈ rows, FlightMessage m) :
    ∃ s, (dosMasRapidos b).run rows (dosMasRapidos b).init = .done s ∧
      ∃ (trajectories : List Text) (places : Text → List ℕ), trajectories.Nodup ∧
        (∀ t, t ∈ trajectories ↔ ∃ m ∈ rows, convertMessageToTrajectory m = some t) ∧
        finishProcessing s =
          trajectories.flatMap (fun t => (places t).filterMap fun i => rows[i]?) ∧
        ∀ t ∈ trajectories, Fastest b rows t (places t) := by
  obtain ⟨s,hs,hkeeps⟩ : ∃ s, (dosMasRapidos b).run rows (dosMasRapidos b).init = .done s ∧
      KeepsTwo b rows s := keepsTwo_run hrows
  have hplaces : ∀ t, ∃ places, t ∈ s.keys → Fastest b rows t places ∧
      places.filterMap (fun i => rows[i]?) = (s.get? t).getD [] := by
    intro t
    rcases hkeeps t with ⟨hnone,-⟩ | ⟨fastest,hsome,-,htwo⟩
    · refine ⟨[],fun hmem => ?_⟩
      rw [Dict.mem_keys_iff,hnone] at hmem
      cases hmem
    · obtain ⟨places,hfastest,heq⟩ := htwo.fastest
      rw [hsome]
      exact ⟨places,fun _ => ⟨hfastest,heq⟩⟩
  choose places hplaces using hplaces
  refine ⟨s,hs,s.keys,places,s.distinct,?_,?_,fun t ht => (hplaces t ht).1⟩
  · intro t
    have hseen : ofTrajectory rows t ≠ [] ↔ ∃ m ∈ rows, convertMessageToTrajectory m = some t := by
      unfold ofTrajectory
      simp
    rw [Dict.mem_keys_iff,← hseen]
    rcases hkeeps t with ⟨hnone,hnil⟩ | ⟨fastest,hsome,hne,-⟩
    · simp [hnone,hnil]
    · simp [hsome,hne]
  · rw [finishProcessing_eq]
    apply List.flatMap_congr
    intro t ht
    exact (hplaces t ht).2.symm

end

def flightFields : List Text :=
  ["startingAirport".toList,"destinationAirport".toList,"travelDuration".toList]

/-- Three flights of one trajectory around one of another. -/
def fourFlights : List Row :=
  ["A,B,PT3H".toList,"A,B,P1D".toList,"A,C,PT9M".toList,"A,B,PT1H30M".toList].map (parse flightFields)

theorem finishProcessing_fastest_fourFlights :
    ∃ s, (dosMasRapidos asciiBuiltins).run fourFlights (dosMasRapidos asciiBuiltins).init = .done s ∧
      ∃ (trajectories : List Text) (places : Text → List ℕ), trajectories.Nodup ∧
        (∀ t, t ∈ trajectories ↔ ∃ m ∈ fourFlights, convertMessageToTrajectory m = some t) ∧
        finishProcessing s =
          trajectories.flatMap (fun t => (places t).filterMap fun i => fourFlights[i]?) ∧
        ∀ t ∈ trajectories, Fastest asciiBuiltins fourFlights t (places t) := by
  have hfields : ∀ m ∈ fourFlights, (field "startingAirport" m).isSome = true ∧
      (field "destinationAirport" m).isSome = true ∧
      (field "travelDuration" m).isSome = true := by decide
  exact finishProcessing_fastest fun m hm =>
    ⟨(hfields m hm).1,(hfields m hm).2.1,(hfields m hm).2.2⟩

end FlightsOptimizer.Statefull
