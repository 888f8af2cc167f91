import FlightsOptimizer.Statefull

/-!
# The fastest messages of a trajectory

DosMasRapidos keeps at most two messages of a trajectory in a sorted list and
replaces the slower one. Whatever the order of the messages, their durations are
the two smallest of the trajectory. A message without a duration stays unnoticed
while it is the only one of its trajectory, and raises with the next one.
-/
namespace FlightsOptimizer.Statefull
open Text Replay

section
variable {α : Type} [LinearOrder α]

def twoSmallest (l : List α) : List α := (l.insertionSort (· ≤ ·)).take 2

theorem insertionSort_perm {l l' : List α} (h : l.Perm l') :
    l.insertionSort (· ≤ ·) = l'.insertionSort (· ≤ ·) :=
  ((List.perm_insertionSort _ l).trans (h.trans (List.perm_insertionSort _ l').symm)).eq_of_pairwise'
    (List.pairwise_insertionSort _ l) (List.pairwise_insertionSort _ l')

theorem twoSmallest_perm {l l' : List α} (h : l.Perm l') : twoSmallest l = twoSmallest l' :=
  congrArg (List.take 2) (insertionSort_perm h)

theorem pairwise_twoSmallest (l : List α) : (twoSmallest l).Pairwise (· ≤ ·) :=
  (List.pairwise_insertionSort _ l).sublist (List.take_sublist 2 _)

theorem length_twoSmallest (l : List α) : (twoSmallest l).length = min 2 l.length := by
  unfold twoSmallest
  rw [List.length_take,List.length_insertionSort]

/-- Of a longer list only its two smallest matter. -/
theorem take_two_orderedInsert (a : α) (l : List α) :
    (l.orderedInsert (· ≤ ·) a).take 2 = ((l.take 2).orderedInsert (· ≤ ·) a).take 2 := by
  rcases l with _ | ⟨x,_ | ⟨y,l⟩⟩
  · rfl
  · rfl
  · simp only [List.take_succ_cons,List.take_zero,List.orderedInsert_cons]
    split_ifs <;> rfl

theorem twoSmallest_cons (a : α) (l : List α) :
    twoSmallest (a :: l) = twoSmallest (a :: twoSmallest l) := by
  have hsorted : (twoSmallest l).insertionSort (· ≤ ·) = twoSmallest l :=
    (pairwise_twoSmallest l).insertionSort_eq
  unfold twoSmallest at hsorted ⊢
  rw [List.insertionSort_cons,List.insertionSort_cons,hsorted]
  exact take_two_orderedInsert a _

/-- A least element is one of the two smallest. -/
theorem mem_twoSmallest_of_least {a : α} {l : List α} (ha : ∀ x ∈ l, a ≤ x) :
    a ∈ twoSmallest l ↔ a ∈ l := by
  have hmem : ∀ x, x ∈ l.insertionSort (· ≤ ·) ↔ x ∈ l := fun x => List.mem_insertionSort _
  have hsorted := List.pairwise_insertionSort (· ≤ ·) l
  rw [← hmem a]
  unfold twoSmallest
  constructor
  · exact List.mem_of_mem_take
  · intro h
    cases hs : l.insertionSort (· ≤ ·) with
    | nil => rw [hs] at h; cases h
    | cons x xs =>
        rw [hs] at h hsorted hmem
        have hx : x = a := by
          rcases List.mem_cons.mp h with hx | hx
          · exact hx.symm
          · exact le_antisymm ((List.pairwise_cons.mp hsorted).1 a hx)
              (ha x ((hmem x).mp List.mem_cons_self))
        rw [hx]
        exact List.mem_cons_self

end

section
variable (b : Builtins)

/-- Durations as numbers, with a missing one before all others. -/
def rank (message : Row) : ℕ :=
  match convertMessageToTravelDuration b message with
  | none => 0
  | some duration => duration + 1

variable {b} {message : Row} {fastest : List Row}

theorem rank_eq_zero : rank b message = 0 ↔
    (convertMessageToTravelDuration b message).isSome = false := by
  unfold rank
  cases convertMessageToTravelDuration b message <;> simp

theorem zero_notMem_rank : 0 ∉ fastest.map (rank b) ↔
    ∀ m ∈ fastest, (convertMessageToTravelDuration b m).isSome = true := by
  rw [List.mem_map,not_exists]
  constructor
  · intro h m hm
    by_contra hn
    exact h m ⟨hm,rank_eq_zero.mpr (Bool.eq_false_of_not_eq_true hn)⟩
  · rintro h m ⟨hm,hr⟩
    rw [rank_eq_zero,h m hm] at hr
    cases hr

theorem sortFastest_eq_done {fastest' : List Row} (h : sortFastest b fastest = .done fastest') :
    (∀ m ∈ fastest, (convertMessageToTravelDuration b m).isSome = true) ∧
      fastest'.map (rank b) = (fastest.map (rank b)).insertionSort (· ≤ ·) := by
  unfold sortFastest at h
  split_ifs at h with hall
  refine ⟨hall,?_⟩
  rw [← Outcome.done.inj h]
  apply List.map_insertionSort
  intro m hm m' hm'
  obtain ⟨d,hd⟩ := Option.isSome_iff_exists.mp (hall m hm)
  obtain ⟨d',hd'⟩ := Option.isSome_iff_exists.mp (hall m' hm')
  unfold rank
  simp only [hd,hd',Option.getD_some]
  omega

theorem sortFastest_done
    (h : ∀ m ∈ fastest, (convertMessageToTravelDuration b m).isSome = true) :
    ∃ fastest', sortFastest b fastest = .done fastest' := ⟨_,if_pos h⟩

theorem rank_of_some {d : ℕ} (h : convertMessageToTravelDuration b message = some d) :
    rank b message = d + 1 := by
  unfold rank
  rw [h]

/-- A third number is dropped, or takes the place of the second one. -/
theorem twoSmallest_third {r x y : ℕ} (hxy : x ≤ y) : twoSmallest [r,x,y] =
    List.insertionSort (· ≤ ·) [x,if r < y then r else y] := by
  unfold twoSmallest
  simp only [List.insertionSort_cons,List.insertionSort_nil,List.orderedInsert_nil,
    List.orderedInsert_cons,if_pos hxy]
  rcases Nat.lt_or_ge r y with hy | hy
  · simp only [if_pos hy]
    rcases Nat.lt_trichotomy r x with hx | hx | hx
    · simp [hx.le,Nat.not_le.mpr hx]
    · simp [hx]
    · simp [Nat.not_le.mpr hx,hx.le,hy.le]
  · simp only [if_neg (Nat.not_lt.mpr hy),if_pos hxy]
    rcases Nat.eq_or_lt_of_le hy with rfl | hy
    · rcases Nat.eq_or_lt_of_le hxy with rfl | hx
      · simp
      · simp [Nat.not_le.mpr hx]
    · have hx : ¬ r ≤ x := by omega
      simp [hx,Nat.not_le.mpr hy]

/-- What the list holds after a message, if nothing raises. -/
theorem addToFastest_eq_done {fastest' : List Row} (hpos : fastest ≠ [])
    (hlen : fastest.length ≤ 2) (hsorted : (fastest.map (rank b)).Pairwise (· ≤ ·))
    (h : addToFastest b fastest message = .done fastest') :
    (convertMessageToTravelDuration b message).isSome = true ∧
      (∀ m ∈ fastest, (convertMessageToTravelDuration b m).isSome = true) ∧
      fastest'.map (rank b) = twoSmallest (rank b message :: fastest.map (rank b)) := by
  unfold addToFastest at h
  cases hd : convertMessageToTravelDuration b message with
  | none => simp [hd] at h
  | some d =>
      simp only [hd] at h
      rcases fastest with _ | ⟨x,_ | ⟨y,_ | ⟨z,rest⟩⟩⟩
      · exact absurd rfl hpos
      · obtain ⟨hall,hranks⟩ := sortFastest_eq_done h
        refine ⟨rfl,fun m hm => hall m (List.mem_append_left _ hm),?_⟩
        rw [hranks]
        have hswap : [rank b message,rank b x].Perm [rank b x,rank b message] := .swap _ _ _
        unfold twoSmallest
        rw [List.map_singleton,insertionSort_perm hswap,List.take_of_length_le]
        · rfl
        · rw [List.length_insertionSort]
          rfl
      · cases hy : convertMessageToTravelDuration b y with
        | none => simp [hy] at h
        | some dy =>
            simp only [hy] at h
            have hxy : rank b x ≤ rank b y := by simpa using hsorted
            obtain ⟨hall,hranks⟩ := sortFastest_eq_done h
            refine ⟨rfl,?_,?_⟩
            · intro m hm
              rcases List.mem_pair.mp hm with rfl | rfl
              · exact hall m (by split_ifs <;> exact List.mem_cons_self)
              · rw [hy]
                rfl
            · have hless : rank b message < rank b y ↔ d < dy := by
                rw [rank_of_some hd,rank_of_some hy]
                omega
              rw [hranks,List.map_cons,List.map_singleton,twoSmallest_third hxy]
              simp only [hless]
              split_ifs <;> rfl
      · simp at hlen

theorem addToFastest_done (hpos : fastest ≠ []) (hlen : fastest.length ≤ 2)
    (hm : (convertMessageToTravelDuration b message).isSome = true)
    (hall : ∀ m ∈ fastest, (convertMessageToTravelDuration b m).isSome = true) :
    ∃ fastest', addToFastest b fastest message = .done fastest' := by
  obtain ⟨d,hd⟩ := Option.isSome_iff_exists.mp hm
  unfold addToFastest
  simp only [hd]
  rcases fastest with _ | ⟨x,_ | ⟨y,_ | ⟨z,rest⟩⟩⟩
  · exact absurd rfl hpos
  · apply sortFastest_done
    intro m hmem
    rcases List.mem_pair.mp hmem with rfl | rfl
    · exact hall m List.mem_cons_self
    · exact hm
  · obtain ⟨dy,hy⟩ := Option.isSome_iff_exists.mp (hall y (by simp))
    simp only [hy]
    apply sortFastest_done
    intro m hmem
    split_ifs at hmem
    · rcases List.mem_pair.mp hmem with rfl | rfl
      · exact hall m List.mem_cons_self
      · exact hm
    · exact hall m hmem
  · simp at hlen

end

section
variable (b : Builtins) (rows : List Row)

/-- The messages of a trajectory, in order. -/
def ofTrajectory (trajectory : Text) : List Row :=
  rows.filter fun m => convertMessageToTrajectory m = some trajectory

/-- Every message has its airports, and its duration unless it is alone. -/
structure Timed : Prop where
  airports : ∀ m ∈ rows, (convertMessageToTrajectory m).isSome = true
  durations : ∀ t, 2 ≤ (ofTrajectory rows t).length → ∀ m ∈ ofTrajectory rows t,
    (convertMessageToTravelDuration b m).isSome = true

/-- Each trajectory has the messages with its two smallest durations. -/
def Keeps (s : Dict Text (List Row)) : Prop :=
  ∀ t, (s.get? t = none ∧ ofTrajectory rows t = []) ∨ ∃ fastest, s.get? t = some fastest ∧
    ofTrajectory rows t ≠ [] ∧
    fastest.map (rank b) = twoSmallest ((ofTrajectory rows t).map (rank b))

end

section
variable {b : Builtins} {rows : List Row} {s s' : Dict Text (List Row)} {message : Row}
variable {trajectory : Text}

theorem ofTrajectory_append (t : Text) : ofTrajectory (rows ++ [message]) t =
    ofTrajectory rows t ++ if convertMessageToTrajectory message = some t then [message] else [] := by
  unfold ofTrajectory
  rw [List.filter_append]
  congr 1
  split_ifs with h <;> simp [h]

/-- The durations of a kept trajectory are all there, if its messages' are. -/
theorem durations_of_kept {fastest : List Row}
    (h : fastest.map (rank b) = twoSmallest ((ofTrajectory rows trajectory).map (rank b))) :
    (∀ m ∈ fastest, (convertMessageToTravelDuration b m).isSome = true) ↔
      ∀ m ∈ ofTrajectory rows trajectory, (convertMessageToTravelDuration b m).isSome = true := by
  rw [← zero_notMem_rank,← zero_notMem_rank,h,
    mem_twoSmallest_of_least (fun x _ => Nat.zero_le x)]

/-- What holds of the messages that are kept of each trajectory, when another comes;
it leaves the other trajectories alone. -/
theorem set_trajectory {Q : List Row → List Row → Prop}
    (h : ∀ t, (s.get? t = none ∧ ofTrajectory rows t = []) ∨ ∃ fastest, s.get? t = some fastest ∧
      ofTrajectory rows t ≠ [] ∧ Q fastest (ofTrajectory rows t))
    (ht : convertMessageToTrajectory message = some trajectory) {fastest : List Row}
    (hf : Q fastest (ofTrajectory rows trajectory ++ [message])) (t : Text) :
    ((s.set trajectory fastest).get? t = none ∧ ofTrajectory (rows ++ [message]) t = []) ∨
      ∃ fastest', (s.set trajectory fastest).get? t = some fastest' ∧
        ofTrajectory (rows ++ [message]) t ≠ [] ∧ Q fastest' (ofTrajectory (rows ++ [message]) t) := by
  rw [ofTrajectory_append,Dict.get?_set]
  by_cases he : trajectory = t
  · subst he
    rw [if_pos rfl,if_pos ht]
    exact Or.inr ⟨fastest,rfl,by simp,hf⟩
  · have hne : ¬ convertMessageToTrajectory message = some t := by
      rw [ht]
      exact fun hs => he (Option.some.inj hs)
    rw [if_neg he,if_neg hne,List.append_nil]
    exact h t

theorem Keeps.set (h : Keeps b rows s) (ht : convertMessageToTrajectory message = some trajectory)
    {fastest : List Row} (hf : fastest.map (rank b) =
      twoSmallest ((ofTrajectory rows trajectory ++ [message]).map (rank b))) :
    Keeps b (rows ++ [message]) (s.set trajectory fastest) :=
  fun t => set_trajectory
    (Q := fun fastest rows => fastest.map (rank b) = twoSmallest (rows.map (rank b))) h ht hf t

theorem Timed.prefix (h : Timed b (rows ++ [message])) : Timed b rows := by
  refine ⟨fun m hm => h.airports m (List.mem_append_left _ hm),?_⟩
  intro t hlen m hm
  have happend : ofTrajectory (rows ++ [message]) t = ofTrajectory rows t ++
      if convertMessageToTrajectory message = some t then [message] else [] :=
    ofTrajectory_append t
  refine h.durations t ?_ m ?_
  · rw [happend,List.length_append]
    omega
  · rw [happend]
    exact List.mem_append_left _ hm

theorem Timed.append (h : Timed b rows) (hm : convertMessageToTrajectory message = some trajectory)
    (hd : ofTrajectory rows trajectory ≠ [] → ∀ m ∈ ofTrajectory rows trajectory ++ [message],
      (convertMessageToTravelDuration b m).isSome = true) : Timed b (rows ++ [message]) := by
  constructor
  · intro m hmem
    rcases List.mem_append.mp hmem with hmem | hmem
    · exact h.airports m hmem
    · rw [List.mem_singleton.mp hmem,hm]
      rfl
  · intro t hlen m hmem
    rw [ofTrajectory_append,hm] at hlen hmem
    by_cases he : trajectory = t
    · subst he
      rw [if_pos rfl] at hlen hmem
      refine hd ?_ m hmem
      intro hnil
      rw [hnil] at hlen
      simp at hlen
    · rw [if_neg fun hs => he (Option.some.inj hs),List.append_nil] at hlen hmem
      exact h.durations t hlen m hmem

/-- What is known of a list that is kept. -/
theorem Keeps.get (h : Keeps b rows s) {fastest : List Row} (hs : s.get? trajectory = some fastest) :
    ofTrajectory rows trajectory ≠ [] ∧
      fastest.map (rank b) = twoSmallest ((ofTrajectory rows trajectory).map (rank b)) ∧
      fastest ≠ [] ∧ fastest.length ≤ 2 ∧ (fastest.map (rank b)).Pairwise (· ≤ ·) := by
  rcases h trajectory with ⟨hnone,-⟩ | ⟨f,hf,hne,hranks⟩
  · rw [hs] at hnone
    cases hnone
  · rw [hs] at hf
    cases hf
    have hlen := length_twoSmallest ((ofTrajectory rows trajectory).map (rank b))
    rw [← hranks,List.length_map,List.length_map] at hlen
    have hpos := List.length_pos_of_ne_nil hne
    refine ⟨hne,hranks,?_,by omega,?_⟩
    · intro hnil
      rw [hnil,List.length_nil] at hlen
      omega
    · rw [hranks]
      exact pairwise_twoSmallest _

/-- One message that does not raise. -/
theorem Keeps.process (h : Keeps b rows s) (ht : Timed b rows)
    (hp : (dosMasRapidos b).process message s = .done s') :
    Timed b (rows ++ [message]) ∧ Keeps b (rows ++ [message]) s' := by
  unfold dosMasRapidos at hp
  cases hm : convertMessageToTrajectory message with
  | none => simp [hm] at hp
  | some t =>
      simp only [hm] at hp
      cases hs : s.get? t with
      | none =>
          simp only [hs] at hp
          rw [← Outcome.done.inj hp]
          have hnil : ofTrajectory rows t = [] := by
            rcases h t with ⟨-,hnil⟩ | ⟨f,hf,-⟩
            · exact hnil
            · rw [hs] at hf
              cases hf
          refine ⟨ht.append hm fun hne => absurd hnil hne,h.set hm ?_⟩
          rw [hnil]
          rfl
      | some fastest =>
          simp only [hs] at hp
          obtain ⟨hne,hranks,hpos,hlen,hsorted⟩ := h.get hs
          cases hadd : addToFastest b fastest message with
          | raised f => simp [hadd] at hp
          | done f =>
              simp only [hadd] at hp
              rw [← Outcome.done.inj hp]
              obtain ⟨hmessage,hall,hf⟩ := addToFastest_eq_done hpos hlen hsorted hadd
              rw [durations_of_kept hranks] at hall
              refine ⟨ht.append hm fun _ => ?_,h.set hm ?_⟩
              · intro m hmem
                rcases List.mem_append.mp hmem with hmem | hmem
                · exact hall m hmem
                · rw [List.mem_singleton.mp hmem]
                  exact hmessage
              · rw [hf,hranks,← twoSmallest_cons,List.map_append]
                exact twoSmallest_perm (List.perm_append_singleton _ _).symm

/-- One message that is timed. -/
theorem Keeps.process_timed (h : Keeps b rows s) (ht : Timed b (rows ++ [message])) :
    ∃ s', (dosMasRapidos b).process message s = .done s' := by
  obtain ⟨t,hm⟩ := Option.isSome_iff_exists.mp (ht.airports message (by simp))
  unfold dosMasRapidos
  simp only [hm]
  cases hs : s.get? t with
  | none => exact ⟨_,rfl⟩
  | some fastest =>
      obtain ⟨hne,hranks,hpos,hlen,-⟩ := h.get hs
      have happend : ofTrajectory (rows ++ [message]) t = ofTrajectory rows t ++ [message] := by
        rw [ofTrajectory_append,if_pos hm]
      have hall : ∀ m ∈ ofTrajectory rows t ++ [message],
          (convertMessageToTravelDuration b m).isSome = true := by
        rw [← happend]
        apply ht.durations t
        have hlength := List.length_pos_of_ne_nil hne
        rw [happend,List.length_append,List.length_singleton]
        omega
      obtain ⟨f,hf⟩ := addToFastest_done hpos hlen (hall message (by simp))
        ((durations_of_kept hranks).mpr fun m hmem => hall m (List.mem_append_left _ hmem))
      simp only [hf]
      exact ⟨_,rfl⟩

/-- A run that is done has kept the two smallest durations of each trajectory. -/
theorem keeps_of_run {s : Dict Text (List Row)}
    (h : (dosMasRapidos b).run rows (dosMasRapidos b).init = .done s) :
    Timed b rows ∧ Keeps b rows s := by
  induction rows using List.reverseRecOn generalizing s with
  | nil =>
      rw [← Outcome.done.inj h]
      refine ⟨⟨?_,?_⟩,fun t => Or.inl ⟨rfl,rfl⟩⟩
      · intro m hm
        cases hm
      · intro t hlen
        cases hlen
  | append_singleton rows message ih =>
      obtain ⟨u,hu,hp⟩ := (Processor.run_append_singleton rows message).mp h
      obtain ⟨ht,hk⟩ := ih hu
      exact hk.process ht hp

theorem run_of_timed (h : Timed b rows) :
    ∃ s, (dosMasRapidos b).run rows (dosMasRapidos b).init = .done s := by
  induction rows using List.reverseRecOn with
  | nil => exact ⟨_,rfl⟩
  | append_singleton rows message ih =>
      obtain ⟨u,hu⟩ := ih h.prefix
      obtain ⟨s,hs⟩ := (keeps_of_run hu).2.process_timed h
      exact ⟨s,(Processor.run_append_singleton rows message).mpr ⟨u,hu,hs⟩⟩

end

/-- The same trajectories with the same durations in order. -/
def SameFastest (b : Builtins) (s s' : Dict Text (List Row)) : Prop :=
  ∀ t, (s.get? t).map (List.map (convertMessageToTravelDuration b)) =
    (s'.get? t).map (List.map (convertMessageToTravelDuration b))

theorem durations_eq_of_ranks {b : Builtins} {l l' : List Row}
    (h : l.map (rank b) = l'.map (rank b)) :
    l.map (convertMessageToTravelDuration b) = l'.map (convertMessageToTravelDuration b) := by
  have hinjective : Function.Injective fun d : Option ℕ => (d.map (· + 1)).getD 0 := by
    intro d d' he
    cases d <;> cases d' <;> simp at he ⊢
    exact he
  have hrank : rank b = (fun d : Option ℕ => (d.map (· + 1)).getD 0) ∘
      convertMessageToTravelDuration b := by
    funext m
    unfold rank
    simp only [Function.comp]
    cases convertMessageToTravelDuration b m <;> rfl
  rw [hrank,← List.map_map,← List.map_map] at h
  exact List.map_injective_iff.mpr hinjective h

theorem ofTrajectory_perm {rows rows' : List Row} (h : rows.Perm rows') (t : Text) :
    (ofTrajectory rows t).Perm (ofTrajectory rows' t) := h.filter _

theorem orderFree_dosMasRapidos (b : Builtins) :
    (dosMasRapidos b).OrderFree (Timed b) (SameFastest b) := by
  refine ⟨fun rows => ⟨fun ⟨s,hs⟩ => (keeps_of_run hs).1,run_of_timed⟩,?_,?_⟩
  · intro rows rows' hp h
    refine ⟨fun m hm => h.airports m (hp.mem_iff.mpr hm),?_⟩
    intro t hlen m hm
    have ht := ofTrajectory_perm hp t
    exact h.durations t (ht.length_eq ▸ hlen) m (ht.mem_iff.mpr hm)
  · intro rows rows' s s' hp hs hs' t
    have ht := ofTrajectory_perm hp t
    rcases (keeps_of_run hs).2 t with ⟨hnone,hnil⟩ | ⟨f,hf,hne,hranks⟩
    · rcases (keeps_of_run hs').2 t with ⟨hnone',-⟩ | ⟨-,-,hne',-⟩
      · rw [hnone,hnone']
      · rw [hnil] at ht
        exact absurd ht.nil_eq.symm hne'
    · rcases (keeps_of_run hs').2 t with ⟨-,hnil'⟩ | ⟨f',hf',-,hranks'⟩
      · rw [hnil'] at ht
        exact absurd ht.eq_nil hne
      · rw [hf,hf']
        refine congrArg some (durations_eq_of_ranks ?_)
        rw [hranks,hranks']
        exact twoSmallest_perm (ht.map _)

end FlightsOptimizer.Statefull
