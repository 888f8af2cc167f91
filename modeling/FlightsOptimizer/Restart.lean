import Mathlib.Algebra.BigOperators.Group.List.Basic
import Mathlib.Algebra.Order.Group.Nat
import Mathlib.Algebra.Ring.Rat
import Mathlib.Data.Multiset.Basic
import FlightsOptimizer.DosMasRapidos

/-!
# Restarting a stateful processor

A restart replays the batches of a client from the last to the first. Whether
that raises, and what it yields against the live processor, is settled for each
of the four processors: fares and the fastest messages come out the same in any
order, the sums too, and the coordinates of an airport are those of the batch
that came first. media_general divides when a number of rows is reached, so what
raises there depends on the order.
-/
namespace FlightsOptimizer.Statefull
open Text LoggerText Replay

section
variable (b : Builtins)

def Priced (message : Row) : Prop :=
  (getRoute message).isSome = true ∧ (getTotalFare b message).isSome = true

instance (message : Row) : Decidable (Priced b message) := inferInstanceAs (Decidable (_ ∧ _))

/-- A message as it is grouped. -/
def priced (message : Row) : Text × ℚ :=
  ((getRoute message).getD [],(getTotalFare b message).getD 0)

/-- The same routes with the same fares, in any order. -/
def SameFares (s s' : Dict Text (List ℚ)) : Prop :=
  ∀ route, (s.get? route).map (fun prices => (prices : Multiset ℚ)) =
    (s'.get? route).map fun prices => (prices : Multiset ℚ)

variable {b}

theorem process_grouper (m : Row) (s t : Dict Text (List ℚ)) :
    (grouper b).process m s = .done t ↔
      Priced b m ∧ s.push (priced b m).1 (priced b m).2 = t := by
  unfold grouper Priced priced
  cases hroute : getRoute m <;> cases hfare : getTotalFare b m <;> simp [hroute,hfare]

theorem run_grouper (rows : List Row) (t : Dict Text (List ℚ)) :
    (grouper b).run rows (grouper b).init = .done t ↔
      (∀ m ∈ rows, Priced b m) ∧ Dict.group (rows.map (priced b)) = t := by
  rw [Processor.run_guarded process_grouper]
  unfold Dict.group
  rw [List.foldl_map]
  rfl

theorem orderFree_grouper :
    (grouper b).OrderFree (fun rows => ∀ m ∈ rows, Priced b m) SameFares := by
  refine ⟨?_,fun rows rows' hp h m hm => h m (hp.mem_iff.mpr hm),?_⟩
  · intro rows
    simp only [run_grouper,exists_and_left,exists_eq',and_true]
  · intro rows rows' s s' hp hs hs' route
    rw [← ((run_grouper rows s).mp hs).2,← ((run_grouper rows' s').mp hs').2]
    have hvalues : (Dict.valuesOf route (rows.map (priced b))).Perm
        (Dict.valuesOf route (rows'.map (priced b))) := (hp.map _).filterMap _
    rw [Dict.get?_group,Dict.get?_group]
    by_cases hnil : Dict.valuesOf route (rows.map (priced b)) = []
    · rw [if_pos hnil,if_pos (hnil ▸ hvalues).nil_eq.symm]
    · have hne : Dict.valuesOf route (rows'.map (priced b)) ≠ [] := fun h =>
        hnil (h ▸ hvalues).eq_nil
      rw [if_neg hnil,if_neg hne]
      exact congrArg some (Multiset.coe_eq_coe.mpr hvalues)

end

def Located (message : Row) : Prop :=
  (field "AirportCode" message).isSome = true ∧ (field "Latitude" message).isSome = true ∧
    (field "Longitude" message).isSome = true

/-- An airport with its coordinates. -/
def located (message : Row) : Text × (Text × Text) :=
  ((field "AirportCode" message).getD [],(field "Latitude" message).getD [],
    (field "Longitude" message).getD [])

/-- Equal airport codes come with equal coordinates. -/
def Consistent (rows : List Row) : Prop :=
  ∀ m ∈ rows, ∀ m' ∈ rows, (located m).1 = (located m').1 → (located m).2 = (located m').2

def SameAirports (s s' : Dict Text (Text × Text)) : Prop := ∀ code, s.get? code = s'.get? code

theorem process_latLong (m : Row) (s t : Dict Text (Text × Text)) :
    latLong.process m s = .done t ↔ Located m ∧ s.set (located m).1 (located m).2 = t := by
  unfold latLong Located located
  cases hcode : field "AirportCode" m <;> cases hlat : field "Latitude" m <;>
    cases hlong : field "Longitude" m <;> simp [hcode,hlat,hlong]

theorem run_latLong (rows : List Row) (t : Dict Text (Text × Text)) :
    latLong.run rows latLong.init = .done t ↔
      (∀ m ∈ rows, Located m) ∧ dict (rows.map located) = t := by
  rw [Processor.run_guarded process_latLong]
  unfold dict
  rw [List.foldl_map]
  rfl

/-- The last value of a key stays. -/
theorem get?_dict {κ α : Type} [DecidableEq κ] (ps : List (κ × α)) (k : κ) :
    (dict ps).get? k = (Dict.valuesOf k ps).getLast? := by
  induction ps using List.reverseRecOn with
  | nil => rfl
  | append_singleton ps p ih =>
      have hstep : dict (ps ++ [p]) = (dict ps).set p.1 p.2 := by
        unfold dict
        rw [List.foldl_append]
        rfl
      rw [hstep,Dict.get?_set,Dict.valuesOf_append]
      by_cases hk : p.1 = k
      · have hv : Dict.valuesOf k [p] = [p.2] := by simp [Dict.valuesOf,hk]
        rw [if_pos hk,hv,List.getLast?_append]
        rfl
      · have hv : Dict.valuesOf k [p] = [] := by simp [Dict.valuesOf,hk]
        rw [if_neg hk,hv,List.append_nil]
        exact ih

theorem getLast?_of_forall_eq {α : Type} {l l' : List α} (hp : l.Perm l')
    (h : ∀ x ∈ l, ∀ y ∈ l, x = y) : l.getLast? = l'.getLast? := by
  rcases l.eq_nil_or_concat' with rfl | ⟨m,x,rfl⟩
  · rw [hp.nil_eq.symm]
  · rcases l'.eq_nil_or_concat' with rfl | ⟨m',x',rfl⟩
    · exact absurd hp.eq_nil (by simp)
    · rw [List.getLast?_concat,List.getLast?_concat,
        h x (by simp) x' (hp.mem_iff.mpr (by simp))]

theorem sameAirports_of_run {rows rows' : List Row} {s s' : Dict Text (Text × Text)}
    (hp : rows.Perm rows') (hc : Consistent rows) (h : latLong.run rows latLong.init = .done s)
    (h' : latLong.run rows' latLong.init = .done s') : SameAirports s s' := by
  intro code
  rw [← ((run_latLong rows s).mp h).2,← ((run_latLong rows' s').mp h').2,get?_dict,get?_dict]
  apply getLast?_of_forall_eq ((hp.map _).filterMap _)
  have hvalue : ∀ v ∈ Dict.valuesOf code (rows.map located),
      ∃ m ∈ rows, (located m).1 = code ∧ (located m).2 = v := by
    intro v hv
    obtain ⟨p,hmem,hpv⟩ := List.mem_filterMap.mp hv
    obtain ⟨m,hm,rfl⟩ := List.mem_map.mp hmem
    split_ifs at hpv with hcode
    exact ⟨m,hm,hcode,Option.some.inj hpv⟩
  intro v hv w hw
  obtain ⟨m,hm,hcode,rfl⟩ := hvalue v hv
  obtain ⟨m',hm',hcode',rfl⟩ := hvalue w hw
  exact hc m hm m' hm' (hcode.trans hcode'.symm)

section
variable (b : Builtins) (n : ℕ)

def sumOf (message : Row) : Option ℚ := (field "sum" message).bind b.float

def amountOf (message : Row) : Option ℤ := (field "amount" message).bind b.int

def Numeric (message : Row) : Prop :=
  (sumOf b message).isSome = true ∧ (amountOf b message).isSome = true

instance (message : Row) : Decidable (Numeric b message) := inferInstanceAs (Decidable (_ ∧ _))

/-- A numeric message, added up. -/
def MediaGeneral.add (s : MediaGeneral) (message : Row) : MediaGeneral :=
  ⟨s.amountReceived + 1,s.priceSum + (sumOf b message).getD 0,
    s.amount + (amountOf b message).getD 0⟩

/-- The state in which the division raises. -/
def MediaGeneral.Raises (s : MediaGeneral) : Prop :=
  s.amountReceived = n ∧ (s.amount = 0 ∨ b.tooLarge s.amount = true)

def MediaGeneral.after (s : MediaGeneral) (rows : List Row) : MediaGeneral :=
  rows.foldl (MediaGeneral.add b) s

/-- The rows with which all groupers have reported add up to no flights at all, or to
an amount beyond all floats. -/
def NoQuotient (rows : List Row) : Prop :=
  rows ≠ [] ∧ rows.length = n ∧ ((rows.map fun m => (amountOf b m).getD 0).sum = 0 ∨
    b.tooLarge (rows.map fun m => (amountOf b m).getD 0).sum = true)

/-- No beginning of the rows makes the division raise. -/
def Divisible (rows : List Row) : Prop := ∀ front, front <+: rows → ¬NoQuotient b n front

/-- The division raises inside a batch, which goes on behind it. -/
def Cuts (batches : List (List Row)) : Prop :=
  ∃ before front rest later, batches = before ++ (front ++ rest) :: later ∧ front ≠ [] ∧
    rest ≠ [] ∧ NoQuotient b n (before.flatten ++ front)

variable {b n} {s t : MediaGeneral} {rows : List Row} {message : Row}

theorem amountReceived_after : (s.after b rows).amountReceived = s.amountReceived + rows.length := by
  induction rows generalizing s with
  | nil => rfl
  | cons m rows ih =>
      have hstep : s.after b (m :: rows) = (s.add b m).after b rows := rfl
      have hadd : (s.add b m).amountReceived = s.amountReceived + 1 := rfl
      rw [hstep,ih,List.length_cons,hadd]
      omega

theorem after_append (rows' : List Row) : s.after b (rows ++ rows') = (s.after b rows).after b rows' :=
  List.foldl_append

theorem after_init : MediaGeneral.after b ⟨0,0,0⟩ rows =
    ⟨rows.length,(rows.map fun m => (sumOf b m).getD 0).sum,
      (rows.map fun m => (amountOf b m).getD 0).sum⟩ := by
  induction rows using List.reverseRecOn with
  | nil => rfl
  | append_singleton rows m ih =>
      rw [after_append,ih]
      simp only [List.length_append,List.length_singleton,List.map_append,List.sum_append,
        List.map_singleton,List.sum_singleton]
      rfl

theorem raises_after_init (hne : rows ≠ []) :
    (MediaGeneral.after b ⟨0,0,0⟩ rows).Raises b n ↔ NoQuotient b n rows := by
  rw [after_init]
  unfold MediaGeneral.Raises NoQuotient
  simp [hne]

theorem process_done : (mediaGeneral b n).process message s = .done t ↔
    Numeric b message ∧ ¬(s.add b message).Raises b n ∧ s.add b message = t := by
  unfold mediaGeneral Numeric MediaGeneral.Raises MediaGeneral.add sumOf amountOf
  cases hsum : field "sum" message with
  | none => simp [hsum]
  | some sum =>
      cases hamount : field "amount" message with
      | none => simp [hsum,hamount]
      | some amount =>
          cases hfloat : b.float sum with
          | none => simp [hsum,hamount,hfloat]
          | some p =>
              cases hint : b.int amount with
              | none => simp [hsum,hamount,hfloat,hint]
              | some a =>
                  simp only [hsum,hamount,hfloat,hint,Option.bind_some,Option.getD_some]
                  split_ifs with hzero
                  · simp [hzero]
                  · simp [hzero]

theorem process_raised (hm : Numeric b message) (hz : (s.add b message).Raises b n) :
    (mediaGeneral b n).process message s = .raised (s.add b message) := by
  obtain ⟨p,hp⟩ := Option.isSome_iff_exists.mp hm.1
  obtain ⟨a,ha⟩ := Option.isSome_iff_exists.mp hm.2
  obtain ⟨sum,hsum,hfloat⟩ := Option.bind_eq_some_iff.mp hp
  obtain ⟨amount,hamount,hint⟩ := Option.bind_eq_some_iff.mp ha
  unfold MediaGeneral.Raises MediaGeneral.add at hz
  unfold mediaGeneral MediaGeneral.add
  rw [hp,ha] at hz ⊢
  simp only [hsum,hamount,hfloat,hint,Option.getD_some] at hz ⊢
  exact if_pos hz

/-- Numeric rows are added up, to their end or up to the division that raises. -/
theorem run_numeric (h : ∀ m ∈ rows, Numeric b m) :
    ((mediaGeneral b n).run rows s = .done (s.after b rows) ∧
        ∀ front, front <+: rows → front ≠ [] → ¬(s.after b front).Raises b n) ∨
      ∃ front rest, rows = front ++ rest ∧ front ≠ [] ∧ (s.after b front).Raises b n ∧
        (mediaGeneral b n).run rows s = .raised (s.after b front) := by
  induction rows generalizing s with
  | nil => exact Or.inl ⟨rfl,fun front hf hne => absurd (List.prefix_nil.mp hf) hne⟩
  | cons m rows ih =>
      obtain ⟨hm,hrows⟩ := List.forall_mem_cons.mp h
      by_cases hz : (s.add b m).Raises b n
      · refine Or.inr ⟨[m],rows,rfl,by simp,hz,?_⟩
        rw [Processor.run,process_raised hm hz]
        rfl
      · have hp : (mediaGeneral b n).process m s = .done (s.add b m) := process_done.mpr ⟨hm,hz,rfl⟩
        have hrun : (mediaGeneral b n).run (m :: rows) s =
            (mediaGeneral b n).run rows (s.add b m) := by
          rw [Processor.run,hp]
        rw [hrun]
        rcases ih hrows with ⟨hdone,hall⟩ | ⟨front,rest,rfl,hne,hzero,hraised⟩
        · refine Or.inl ⟨hdone,?_⟩
          intro front hf hne
          rcases List.prefix_cons_iff.mp hf with rfl | ⟨front,rfl,hfront⟩
          · exact absurd rfl hne
          · by_cases hnil : front = []
            · rw [hnil]
              exact hz
            · exact hall front hfront hnil
        · exact Or.inr ⟨m :: front,rest,rfl,by simp,hzero,hraised⟩

theorem numeric_of_run (h : (mediaGeneral b n).run rows s = .done t) :
    ∀ m ∈ rows, Numeric b m := by
  induction rows generalizing s with
  | nil => exact fun _ hm => by cases hm
  | cons m rows ih =>
      obtain ⟨u,hu,hrun⟩ := (Processor.run_cons m rows).mp h
      exact List.forall_mem_cons.mpr ⟨(process_done.mp hu).1,ih hrun⟩

theorem run_mediaGeneral : (mediaGeneral b n).run rows ⟨0,0,0⟩ = .done t ↔
    (∀ m ∈ rows, Numeric b m) ∧ Divisible b n rows ∧ MediaGeneral.after b ⟨0,0,0⟩ rows = t := by
  constructor
  · intro h
    have hnumeric := numeric_of_run h
    rcases run_numeric (n := n) (s := ⟨0,0,0⟩) hnumeric with ⟨hdone,hall⟩ | ⟨_,_,-,-,-,hraised⟩
    · refine ⟨hnumeric,?_,Outcome.done.inj (hdone.symm.trans h)⟩
      intro front hf hzero
      exact hall front hf hzero.1 ((raises_after_init hzero.1).mpr hzero)
    · rw [hraised] at h
      cases h
  · rintro ⟨hnumeric,hdivisible,rfl⟩
    rcases run_numeric (n := n) (s := ⟨0,0,0⟩) hnumeric with
      ⟨hdone,-⟩ | ⟨front,rest,rfl,hne,hzero,-⟩
    · exact hdone
    · exact absurd ((raises_after_init hne).mp hzero) (hdivisible front (List.prefix_append _ _))

theorem after_perm {rows' : List Row} (h : rows.Perm rows') :
    MediaGeneral.after b ⟨0,0,0⟩ rows = MediaGeneral.after b ⟨0,0,0⟩ rows' := by
  rw [after_init,after_init,h.length_eq,(h.map _).sum_eq,(h.map _).sum_eq]

variable {batches : List (List Row)}

/-- A batch at the end cuts, or an earlier one does. -/
theorem cuts_append (batch : List Row) : Cuts b n (batches ++ [batch]) ↔ Cuts b n batches ∨
    ∃ front rest, batch = front ++ rest ∧ front ≠ [] ∧ rest ≠ [] ∧
      NoQuotient b n (batches.flatten ++ front) := by
  constructor
  · rintro ⟨before,front,rest,later,h,hfront,hrest,hzero⟩
    rcases later.eq_nil_or_concat' with rfl | ⟨later,last,rfl⟩
    · obtain ⟨rfl,he⟩ := List.append_inj' h rfl
      exact Or.inr ⟨front,rest,List.singleton_inj.mp he,hfront,hrest,hzero⟩
    · have happend : before ++ (front ++ rest) :: (later ++ [last]) =
          (before ++ (front ++ rest) :: later) ++ [last] := by simp
      rw [happend] at h
      obtain ⟨rfl,-⟩ := List.append_inj' h rfl
      exact Or.inl ⟨before,front,rest,later,rfl,hfront,hrest,hzero⟩
  · rintro (⟨before,front,rest,later,rfl,h⟩ | ⟨front,rest,rfl,h⟩)
    · exact ⟨before,front,rest,later ++ [batch],by simp,h⟩
    · exact ⟨batches,front,rest,[],rfl,h⟩

/-- The live processor has read every row, or has lost the rest of a batch. -/
theorem live_mediaGeneral (h : ∀ m ∈ batches.flatten, Numeric b m) :
    (¬Cuts b n batches ∧ (mediaGeneral b n).live batches =
        MediaGeneral.after b ⟨0,0,0⟩ batches.flatten) ∨
      Cuts b n batches ∧ n ≤ ((mediaGeneral b n).live batches).amountReceived ∧
        ((mediaGeneral b n).live batches).amountReceived < batches.flatten.length := by
  induction batches using List.reverseRecOn with
  | nil =>
      refine Or.inl ⟨?_,rfl⟩
      rintro ⟨before,front,rest,later,he,-⟩
      simp at he
  | append_singleton batches batch ih =>
      have hflat : (batches ++ [batch]).flatten = batches.flatten ++ batch := by simp
      have hlive : (mediaGeneral b n).live (batches ++ [batch]) =
          ((mediaGeneral b n).run batch ((mediaGeneral b n).live batches)).state := by
        unfold Processor.live
        rw [List.foldl_append]
        rfl
      rw [hflat] at h ⊢
      rw [hlive,cuts_append]
      have hbatch : ∀ m ∈ batch, Numeric b m := fun m hm => h m (List.mem_append_right _ hm)
      rcases ih fun m hm => h m (List.mem_append_left _ hm) with ⟨hcuts,hu⟩ | ⟨hcuts,hle,hlt⟩
      · rw [hu]
        rcases run_numeric (n := n) (s := MediaGeneral.after b ⟨0,0,0⟩ batches.flatten) hbatch with
          ⟨hdone,hall⟩ | ⟨front,rest,rfl,hne,hzero,hraised⟩
        · refine Or.inl ⟨?_,?_⟩
          · rintro (hc | ⟨front,rest,rfl,hfront,-,hzero⟩)
            · exact hcuts hc
            · apply hall front (List.prefix_append _ _) hfront
              rw [← after_append]
              exact (raises_after_init hzero.1).mpr hzero
          · rw [hdone,after_append]
            rfl
        · rw [← after_append] at hzero hraised
          have hnoQuotient := (raises_after_init (by simp [hne])).mp hzero
          rw [hraised]
          by_cases hrest : rest = []
          · subst hrest
            refine Or.inl ⟨?_,by rw [List.append_nil]; rfl⟩
            rintro (hc | ⟨front',rest',he,-,hrest',hzero'⟩)
            · exact hcuts hc
            · have hlen := hnoQuotient.2.1.trans hzero'.2.1.symm
              have hlen' := congrArg List.length he
              simp only [List.length_append,List.length_nil] at hlen hlen'
              exact hrest' (List.eq_nil_of_length_eq_zero (by omega))
          · refine Or.inr ⟨Or.inr ⟨front,rest,rfl,hne,hrest,hnoQuotient⟩,?_,?_⟩
            · exact hzero.1.ge
            · have hreceived := hnoQuotient.2.1
              have hpos := List.length_pos_of_ne_nil hrest
              have hstate : (Outcome.raised (MediaGeneral.after b ⟨0,0,0⟩
                  (batches.flatten ++ front))).state.amountReceived = n := hzero.1
              rw [hstate]
              simp only [List.length_append] at hreceived ⊢
              omega
      · rcases run_numeric (n := n) (s := (mediaGeneral b n).live batches) hbatch with
          ⟨hdone,-⟩ | ⟨front,rest,rfl,hne,hzero,-⟩
        · have hstate : ((mediaGeneral b n).run batch
              ((mediaGeneral b n).live batches)).state.amountReceived =
                ((mediaGeneral b n).live batches).amountReceived + batch.length := by
            rw [hdone]
            exact amountReceived_after
          refine Or.inr ⟨Or.inl hcuts,?_,?_⟩
          · omega
          · rw [hstate,List.length_append]
            omega
        · have hreceived := hzero.1
          have hpos := List.length_pos_of_ne_nil hne
          rw [amountReceived_after] at hreceived
          omega

/-- A restart of media_general. -/
theorem replay_mediaGeneral (batches : List (List Row)) :
    (∃ t, (mediaGeneral b n).run batches.reverse.flatten (mediaGeneral b n).init = .done t ∧
        t = (mediaGeneral b n).live batches) ↔
      (∀ m ∈ batches.flatten, Numeric b m) ∧ Divisible b n batches.reverse.flatten ∧
        ¬Cuts b n batches := by
  have hperm := Processor.perm_flatten_reverse batches
  constructor
  · rintro ⟨t,ht,hlive⟩
    obtain ⟨hnumeric,hdivisible,rfl⟩ := run_mediaGeneral.mp ht
    have hall : ∀ m ∈ batches.flatten, Numeric b m := fun m hm => hnumeric m (hperm.mem_iff.mpr hm)
    refine ⟨hall,hdivisible,?_⟩
    rcases live_mediaGeneral (n := n) hall with ⟨hcuts,-⟩ | ⟨-,-,hlt⟩
    · exact hcuts
    · rw [← hlive,after_perm hperm,amountReceived_after] at hlt
      simp at hlt
  · rintro ⟨hnumeric,hdivisible,hcuts⟩
    refine ⟨_,run_mediaGeneral.mpr ⟨fun m hm => hnumeric m (hperm.mem_iff.mp hm),hdivisible,rfl⟩,?_⟩
    rcases live_mediaGeneral (n := n) hnumeric with ⟨-,hlive⟩ | ⟨hc,-⟩
    · rw [hlive,after_perm hperm]
    · exact absurd hc hcuts

end

end FlightsOptimizer.Statefull
