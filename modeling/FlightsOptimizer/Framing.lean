import Mathlib.Data.List.Infix

/-!
# Frames closed by an in-band delimiter

A frame is sent as it is and followed by a delimiter, with no escaping and no
length. The reader cuts the stream where the delimiter first stands. A frame
comes back from this exactly when the delimiter stands neither in it nor across
its end, which is what clean says below; otherwise the piece that comes back is
shorter than the frame.
-/
namespace FlightsOptimizer.Framing

variable {α : Type}

/-- In the frame and its delimiter the delimiter stands at the end only. -/
def Clean (delim frame : List α) : Prop :=
  ∀ pre post, frame ++ delim = pre ++ delim ++ post → post = []

/-- An occurrence that ends early enough lies in the first of two parts. -/
theorem occurs_left {delim l m pre post : List α} (h : l ++ m = pre ++ delim ++ post)
    (hl : pre.length+delim.length ≤ l.length) : ∃ post', l = pre ++ delim ++ post' := by
  have hp : pre ++ delim <+: l ++ m := ⟨post,h.symm⟩
  have hlen : (pre ++ delim).length ≤ l.length := by
    rw [List.length_append]
    exact hl
  obtain ⟨post',h'⟩ := List.prefix_of_prefix_length_le hp (List.prefix_append l m) hlen
  exact ⟨post',h'.symm⟩

theorem clean_nil (delim : List α) : Clean delim [] := by
  intro pre post h
  have hl := congrArg List.length h
  simp only [List.length_append,List.length_nil] at hl
  apply List.eq_nil_of_length_eq_zero
  omega

/-- A symbol that the delimiter does not have separates what stands before it
from what stands after it. -/
theorem clean_append_cons {delim : List α} {x : α} (hx : x ∉ delim) (l m : List α) :
    Clean delim (l ++ x :: m) ↔ ¬ delim <:+: l ∧ Clean delim m := by
  constructor
  · intro hc
    constructor
    · rintro ⟨pre,post,rfl⟩
      have h := hc pre (post ++ x :: m ++ delim) (by simp only [List.append_assoc])
      simp at h
    · intro pre post h
      apply hc (l ++ x :: pre) post
      simp only [List.append_assoc,List.cons_append] at h ⊢
      rw [h]
  · rintro ⟨hl,hm⟩ pre post h
    have h' : pre ++ (delim ++ post) = l ++ (x :: (m ++ delim)) := by
      simpa only [List.append_assoc,List.cons_append] using h.symm
    -- the occurrence starts in `l`, or with `x`, or after it
    rcases List.append_eq_append_iff.mp h' with ⟨r,hr,hr'⟩ | ⟨r,hr,hr'⟩
    · rcases List.append_eq_append_iff.mp hr' with ⟨q,hq,-⟩ | ⟨q,hq,hq'⟩
      · exact (hl ⟨pre,q,by rw [hr,hq,List.append_assoc]⟩).elim
      · cases q with
        | nil =>
            have hd : delim = r := by simpa using hq
            exact (hl ⟨pre,[],by rw [hr,hd,List.append_nil]⟩).elim
        | cons y q =>
            have hy : x = y := (List.cons.inj hq').1
            exact (hx (by rw [hq,hy]; simp)).elim
    · cases r with
      | nil =>
          cases delim with
          | nil => exact (hl List.nil_infix).elim
          | cons y delim =>
              have hy : x = y := (List.cons.inj hr').1
              exact (hx (by simp [hy])).elim
      | cons y r =>
          have hr'' : m ++ delim = r ++ (delim ++ post) := (List.cons.inj hr').2
          exact hm r post (by rw [hr'',List.append_assoc])

/-- What stands before each first delimiter, and the rest, which has none. -/
inductive Segments (delim : List α) : List α → List (List α) → List α → Prop
  | rest {l : List α} : ¬ delim <:+: l → Segments delim l [] l
  | cons {a b rest : List α} {segments : List (List α)} :
      (∀ pre post, a ++ delim ++ b = pre ++ delim ++ post → a.length ≤ pre.length) →
      Segments delim b segments rest → Segments delim (a ++ delim ++ b) (a :: segments) rest

/-- The segments and the rest make up the whole. -/
theorem Segments.eq {delim l rest : List α} {segments : List (List α)}
    (h : Segments delim l segments rest) :
    l = (segments.flatMap fun a => a ++ delim) ++ rest := by
  induction h with
  | rest => rfl
  | @cons a b rest segments _ _ ih => rw [List.flatMap_cons,List.append_assoc (a ++ delim),← ih]

variable [DecidableEq α]

/-- What stands before the first delimiter and what stands after it. -/
def splitFirst (delim : List α) : List α → Option (List α × List α)
  | [] => if delim = [] then some ([],[]) else none
  | x :: xs =>
      if delim <+: x :: xs then some ([],(x :: xs).drop delim.length)
      else (splitFirst delim xs).map fun p => (x :: p.1,p.2)

theorem splitFirst_none {delim l : List α} (h : splitFirst delim l = none) :
    ¬ delim <:+: l := by
  induction l with
  | nil =>
      intro hi
      rw [splitFirst,if_pos (List.eq_nil_of_infix_nil hi)] at h
      exact Option.some_ne_none _ h
  | cons x xs ih =>
      unfold splitFirst at h
      split_ifs at h with hp
      rw [Option.map_eq_none_iff] at h
      rw [List.infix_cons_iff]
      exact not_or.mpr ⟨hp,ih h⟩

theorem splitFirst_some {delim l a b : List α} (h : splitFirst delim l = some (a,b)) :
    l = a ++ delim ++ b ∧ ∀ pre post, l = pre ++ delim ++ post → a.length ≤ pre.length := by
  induction l generalizing a with
  | nil =>
      unfold splitFirst at h
      split_ifs at h with hd
      cases h
      exact ⟨by simp [hd],fun _ _ _ => Nat.zero_le _⟩
  | cons x xs ih =>
      unfold splitFirst at h
      split_ifs at h with hp
      · cases h
        exact ⟨by simpa using (List.prefix_iff_eq_append.mp hp).symm,fun _ _ _ => Nat.zero_le _⟩
      · obtain ⟨⟨c,d⟩,hs,hcd⟩ := Option.map_eq_some_iff.mp h
        cases hcd
        have hi := ih hs
        refine ⟨by rw [hi.1]; rfl,?_⟩
        intro pre post hpp
        cases pre with
        | nil => exact (hp ⟨post,hpp.symm⟩).elim
        | cons y pre =>
            have hxs : xs = pre ++ delim ++ post := (List.cons.inj hpp).2
            exact Nat.succ_le_succ (hi.2 pre post hxs)

/-- The first occurrence is the one the split finds. -/
theorem splitFirst_of_first {delim l a b : List α} (hl : l = a ++ delim ++ b)
    (first : ∀ pre post, l = pre ++ delim ++ post → a.length ≤ pre.length) :
    splitFirst delim l = some (a,b) := by
  cases hs : splitFirst delim l with
  | none => exact (splitFirst_none hs ⟨a,b,hl.symm⟩).elim
  | some p =>
      obtain ⟨c,d⟩ := p
      have h := splitFirst_some hs
      have hlen : c.length = a.length := le_antisymm (h.2 a b hl) (first c d h.1)
      have heq : c ++ (delim ++ d) = a ++ (delim ++ b) := by
        rw [← List.append_assoc,← List.append_assoc,← h.1,← hl]
      obtain ⟨hca,hdb⟩ := List.append_inj heq hlen
      rw [hca,List.append_cancel_left hdb]

/-- Data that arrives later does not move the cut. -/
theorem splitFirst_append {delim l a b : List α} (h : splitFirst delim l = some (a,b))
    (m : List α) : splitFirst delim (l ++ m) = some (a,b ++ m) := by
  obtain ⟨hl,first⟩ := splitFirst_some h
  apply splitFirst_of_first
  · rw [hl,List.append_assoc _ b m]
  · intro pre post hpp
    by_contra hlt
    have hlen := congrArg List.length hl
    simp only [List.length_append] at hlen
    obtain ⟨post',h'⟩ := occurs_left hpp (by omega)
    exact hlt (first pre post' h')

theorem splitFirst_clean {delim frame : List α} (h : Clean delim frame) (rest : List α) :
    splitFirst delim (frame ++ delim ++ rest) = some (frame,rest) := by
  apply splitFirst_of_first rfl
  intro pre post hpp
  by_contra hlt
  obtain ⟨post',h'⟩ := occurs_left hpp (by rw [List.length_append]; omega)
  have hlen := congrArg List.length h'
  simp only [h pre post' h',List.length_append,List.length_nil] at hlen
  omega

/-- The piece cut from a frame that is not clean is shorter than the frame. -/
theorem splitFirst_unclean {delim frame : List α} (h : ¬ Clean delim frame) (rest : List α) :
    ∃ a b, splitFirst delim (frame ++ delim ++ rest) = some (a,b) ∧ a.length < frame.length := by
  unfold Clean at h
  push Not at h
  obtain ⟨pre,post,hpp,hne⟩ := h
  have hpos := List.length_pos_of_ne_nil hne
  have hlen := congrArg List.length hpp
  simp only [List.length_append] at hlen
  have hwhole : frame ++ delim ++ rest = pre ++ delim ++ (post ++ rest) := by
    rw [hpp,List.append_assoc _ post rest]
  cases hs : splitFirst delim (frame ++ delim ++ rest) with
  | none => exact (splitFirst_none hs ⟨pre,post ++ rest,hwhole.symm⟩).elim
  | some p =>
      have hfirst := (splitFirst_some hs).2 pre (post ++ rest) hwhole
      exact ⟨p.1,p.2,rfl,by omega⟩

/-- The induction is on the length: a delimiter that is not empty is used up. -/
theorem exists_segments {delim : List α} (hdelim : delim ≠ []) (l : List α) :
    ∃ segments rest, Segments delim l segments rest := by
  have hpos := List.length_pos_of_ne_nil hdelim
  induction hn : l.length using Nat.strongRecOn generalizing l with
  | _ n ih =>
      cases hs : splitFirst delim l with
      | none => exact ⟨[],l,.rest (splitFirst_none hs)⟩
      | some p =>
          obtain ⟨a,b⟩ := p
          obtain ⟨hl,first⟩ := splitFirst_some hs
          have hlength := congrArg List.length hl
          simp only [List.length_append] at hlength
          obtain ⟨segments,rest,h⟩ := ih b.length (by omega) b rfl
          rw [hl] at first ⊢
          exact ⟨a :: segments,rest,.cons first h⟩

theorem splitFirst_eq_none {delim l : List α} (h : ¬ delim <:+: l) :
    splitFirst delim l = none := by
  cases hs : splitFirst delim l with
  | none => rfl
  | some p => exact (h ⟨p.1,p.2,(splitFirst_some hs).1.symm⟩).elim

end FlightsOptimizer.Framing
