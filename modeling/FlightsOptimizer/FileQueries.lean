import Mathlib.Data.List.TakeWhile
import FlightsOptimizer.ResultFiles
import FlightsOptimizer.RowQueries

/-!
# From the file of a client to its answers

The lines of a file are sent in batches, the batches go through the network in any
order, and the answers to them come back in any order and are merged. What the
client has in the end depends on none of this: it is what the query selects of the
lines of the file.
-/
namespace FlightsOptimizer.FileQueries
open Text LoggerText Statefull FileUploader RowProcessors RowNetwork RowQueries ResultFiles

/-- A line without its newline. -/
def chomp (line : Text) : Text := line.takeWhile fun c => c ≠ '\n'

def Closed (line : Text) : Prop := line = chomp line ++ ['\n']

/-- Lines as a file is read: only the last may lack its newline. -/
structure AsRead (ls : List Text) : Prop where
  closed : ls.Pairwise fun l _ => Closed l
  line : ∀ l ∈ ls, Closed l ∨ l = chomp l

/-- The line is not blank, and does not end in white space. -/
def Solid (b : Builtins) (line : Text) : Prop :=
  ∃ c, (chomp line).getLast? = some c ∧ b.space c = false

/-- The rows of a file. -/
def fileRows (u : FileUploader) : List Row :=
  u.bodyLines.map fun line => parse flightFields (chomp line)

/-- The data messages of a client, as the server puts them into the first queue. -/
def uploads (c : Word 8) (queued : List Queued) : List Upload :=
  queued.filterMap fun
    | .clientProtocol messageId _ content => some ⟨c,word 8 messageId,content⟩
    | .eof _ _ => none

section
variable {b : Builtins} {l : Text} {ls : List Text}

theorem feed_not_mem_chomp (l : Text) : '\n' ∉ chomp l := by
  intro h
  simpa using List.mem_takeWhile_imp h

theorem chomp_cons {c : Char} (hc : c ≠ '\n') (l : Text) : chomp (c :: l) = c :: chomp l := by
  unfold chomp
  rw [List.takeWhile_cons_of_pos (by simpa using hc)]

theorem closed_cons {c : Char} (hc : c ≠ '\n') (h : Closed l) : Closed (c :: l) := by
  unfold Closed
  rw [chomp_cons hc,List.cons_append,← h]

theorem asRead_consFirst {c : Char} (hc : c ≠ '\n') (h : AsRead ls) :
    AsRead (LineFile.consFirst c ls) := by
  cases ls with
  | nil =>
      refine ⟨List.pairwise_singleton _ _,?_⟩
      intro l hl
      rw [List.mem_singleton.mp hl]
      right
      rw [chomp_cons hc]
      rfl
  | cons first rest =>
      obtain ⟨hfirst,hrest⟩ := List.pairwise_cons.mp h.closed
      refine ⟨List.pairwise_cons.mpr ⟨?_,hrest⟩,?_⟩
      · exact fun l hl => closed_cons hc (hfirst l hl)
      · intro l hl
        rcases List.mem_cons.mp hl with rfl | hl
        · rcases h.line first List.mem_cons_self with hline | hline
          · exact Or.inl (closed_cons hc hline)
          · right
            rw [chomp_cons hc,← hline]
        · exact h.line l (List.mem_cons_of_mem first hl)

theorem asRead_lines (s : Text) : AsRead (FileUploader.lines s) := by
  induction s with
  | nil => exact ⟨List.Pairwise.nil,nofun⟩
  | cons c s ih =>
      rw [FileUploader.lines]
      split_ifs with hc
      · have hclosed : Closed ['\n'] := rfl
        refine ⟨List.pairwise_cons.mpr ⟨fun _ _ => hclosed,ih.closed⟩,?_⟩
        intro l hl
        rcases List.mem_cons.mp hl with rfl | hl
        · exact Or.inl hclosed
        · exact ih.line l hl
      · exact asRead_consFirst hc ih

theorem AsRead.sublist {part : List Text} (h : AsRead ls) (hsub : part.Sublist ls) : AsRead part :=
  ⟨h.closed.sublist hsub,fun l hl => h.line l (hsub.subset hl)⟩

/-- The text of some lines: a newline may be left at its end. -/
theorem AsRead.flatten (h : AsRead ls) (hne : ls ≠ []) :
    ls.flatten = ['\n'].intercalate (ls.map chomp) ∨
      ls.flatten = ['\n'].intercalate (ls.map chomp) ++ ['\n'] := by
  induction ls with
  | nil => exact absurd rfl hne
  | cons first rest ih =>
      cases rest with
      | nil =>
          rcases h.line first List.mem_cons_self with hline | hline
          · right
            have hclosed : first = chomp first ++ ['\n'] := hline
            simpa [List.intercalate] using hclosed
          · left
            simpa [List.intercalate] using hline
      | cons second rest =>
          obtain ⟨hfirst,-⟩ := List.pairwise_cons.mp h.closed
          have hclosed : first = chomp first ++ ['\n'] := hfirst second List.mem_cons_self
          have hrest := ih (h.sublist (List.sublist_cons_self _ _)) (List.cons_ne_nil _ _)
          rw [List.flatten_cons,List.map_cons,List.map_cons,List.intercalate_cons_cons,← List.map_cons]
          have hjoin : ∀ rest : Text, first ++ rest = chomp first ++ ['\n'] ++ rest := by
            intro rest
            rw [← hclosed]
          rcases hrest with hrest | hrest
          · left
            rw [hrest,hjoin]
          · right
            rw [hrest,hjoin]
            simp only [List.append_assoc]

/-- Solid lines are the rows of their text. -/
theorem parsePayload_flatten (hfeed : b.space '\n' = true) (h : AsRead ls) (hne : ls ≠ [])
    (hsolid : ∀ l ∈ ls, Solid b l) (fields : List Text) :
    parsePayload b fields ls.flatten = ls.map fun l => parse fields (chomp l) := by
  have hmap : ls.map chomp ≠ [] := fun hnil => hne (List.map_eq_nil_iff.mp hnil)
  obtain ⟨c,hc,hspace⟩ := hsolid _ (List.getLast_mem hne)
  have hlast : (ls.map chomp).getLast? = some (chomp (ls.getLast hne)) := by
    rw [List.getLast?_map,List.getLast?_eq_some_getLast hne,Option.map_some]
  have hend : (['\n'].intercalate (ls.map chomp)).getLast? = some c :=
    Hop.getLast?_intercalate hlast hc
  have hstrip : (ls.flatten.reverse.dropWhile b.space).reverse =
      ['\n'].intercalate (ls.map chomp) := by
    rcases h.flatten hne with hflatten | hflatten
    · rw [hflatten]
      exact Hop.rstrip_eq hend hspace
    · rw [hflatten,List.reverse_append,List.reverse_singleton,List.singleton_append,
        List.dropWhile_cons_of_pos hfeed]
      exact Hop.rstrip_eq hend hspace
  have hsplit : split ['\n'] (['\n'].intercalate (ls.map chomp)) = ls.map chomp := by
    apply split_intercalate hmap
    intro text htext
    obtain ⟨l,-,rfl⟩ := List.mem_map.mp htext
    exact feed_not_mem_chomp l
  unfold parsePayload
  rw [hstrip,hsplit,List.map_map]
  rfl

variable {u : FileUploader} {groups : List (List Text)}

theorem asRead_bodyLines (u : FileUploader) : AsRead u.bodyLines := by
  have hall := asRead_lines u.text
  unfold bodyLines
  split_ifs
  · exact hall.sublist (List.tail_sublist _)
  · exact hall

theorem flights_group (hfeed : b.space '\n' = true) (hsolid : ∀ l ∈ u.bodyLines, Solid b l)
    (hgroups : Partition u.batchSize u.bodyLines groups) {g : List Text} (hg : g ∈ groups)
    (c i : Word 8) : flights b ⟨c,i,g.flatten⟩ = g.map fun l => parse flightFields (chomp l) := by
  have hsub : g.Sublist u.bodyLines := by
    rw [← hgroups.concat]
    exact List.sublist_flatten_of_mem hg
  have hne : g ≠ [] := fun hnil => hgroups.nonempty g hg (by rw [hnil]; rfl)
  exact parsePayload_flatten hfeed ((asRead_bodyLines u).sublist hsub) hne
    (fun l hl => hsolid l (hsub.subset hl)) _

/-- The uploads are the groups, numbered from one. -/
theorem uploads_eq (c : Word 8) (t : MessageProtocolType) (n : ℕ) :
    uploads c (FileUploader.messages t 1 groups ++ [.eof t n]) =
      (groups.zipIdx 1).map fun g => ⟨c,word 8 g.2,g.1.flatten⟩ := by
  unfold uploads FileUploader.messages
  rw [List.filterMap_append,List.filterMap_map]
  simp only [List.filterMap_cons,List.filterMap_nil,List.append_nil]
  exact congrFun List.filterMap_eq_map' _

end

section
variable {b : Builtins}

theorem return_not_mem (s : Text) : '\r' ∉ universalNewlines s := by
  fun_induction universalNewlines s with
  | case1 => exact List.not_mem_nil
  | case2 s ih => simpa using ih
  | case3 s hs ih => simpa using ih
  | case4 c s hc hs ih =>
      intro h
      rcases List.mem_cons.mp h with rfl | h
      · exact hs rfl
      · exact ih h

theorem universalNewlines_of_not_mem {s : Text} (h : '\r' ∉ s) : universalNewlines s = s := by
  fun_induction universalNewlines s with
  | case1 => rfl
  | case2 s ih => exact absurd List.mem_cons_self h
  | case3 s hs ih => exact absurd List.mem_cons_self h
  | case4 c s hc hs ih => rw [ih fun hmem => h (List.mem_cons_of_mem c hmem)]

theorem mem_content {v : Upload} {row : Row} (hrow : row ∈ flights b v) {f x : Text}
    (hx : row.get? f = some x) : ∀ d ∈ x, d ∈ v.content := by
  obtain ⟨text,htext,rfl⟩ := List.mem_map.mp hrow
  have hcell := (List.of_mem_zip (mem_of_get?_dict hx)).2
  intro d hd
  have hd := (mem_splitMax le_rfl htext).2 d ((mem_splitMax le_rfl hcell).2 d hd)
  have hsub := (List.dropWhile_suffix b.space).subset (List.mem_reverse.mp hd)
  exact List.mem_reverse.mp hsub

theorem return_not_mem_tagged {v : Upload} {row : Row} (hrow : row ∈ flights b v)
    (hcontent : '\r' ∉ v.content) {tagName : String} (htag : '\r' ∉ tagName.toList)
    (fields : List Text) : '\r' ∉ tagged tagName fields row := by
  have hline : '\r' ∉ line fields row := by
    intro h
    rcases Hop.mem_intercalate h with h | ⟨cell,hcell,h⟩
    · exact absurd (List.mem_singleton.mp h) (by decide)
    · rw [cells_eq] at hcell
      obtain ⟨f,-,rfl⟩ := List.mem_map.mp hcell
      cases hget : row.get? f with
      | none =>
          rw [hget] at h
          cases h
      | some x =>
          rw [hget] at h
          exact hcontent (mem_content hrow hget _ h)
  intro h
  rcases List.mem_append.mp h with h | h
  · rcases List.mem_cons.mp h with h | h
    · exact absurd h (by decide)
    · exact htag h
  · rcases List.mem_cons.mp h with h | h
    · exact absurd h (by decide)
    · exact hline h

end

theorem intercalate_feed {ls : List Text} (hne : ls ≠ []) :
    ['\n'].intercalate ls ++ ['\n'] = ls.flatMap fun l => l ++ ['\n'] := by
  induction ls with
  | nil => exact absurd rfl hne
  | cons first rest ih =>
      cases rest with
      | nil => simp
      | cons second rest =>
          rw [List.intercalate_cons_cons,List.flatMap_cons,← ih (List.cons_ne_nil _ _)]
          simp only [List.append_assoc]

theorem flatMap_filter_ne_nil {α β : Type} [DecidableEq β] (f : α → List β) (as : List α) :
    (as.filter fun a => f a ≠ []).flatMap f = as.flatMap f := by
  induction as with
  | nil => rfl
  | cons a as ih =>
      rw [List.filter_cons]
      split_ifs with hne
      · rw [List.flatMap_cons,List.flatMap_cons,ih]
      · have hnil : f a = [] := by simpa using hne
        rw [List.flatMap_cons,hnil,ih]
        rfl

/-- Files of the answers to some batches, in any order, are the file of all lines
of these answers, in some order. -/
theorem answers_merge {us : List Upload} {answer : Upload → List Text}
    {order : List (Word 8 × Text)} (hids : (us.map Upload.messageId).Nodup)
    (hreturn : ∀ v ∈ us, ∀ l ∈ answer v, '\r' ∉ l) (hnodup : (order.map Prod.fst).Nodup)
    (hsound : ∀ x ∈ order, ∃ v ∈ us, answer v ≠ [] ∧
      x = (v.messageId,['\n'].intercalate (answer v)))
    (hcomplete : ∀ v ∈ us, answer v ≠ [] → v.messageId ∈ order.map Prod.fst) :
    ∃ ls : List Text, ls.Perm (us.flatMap answer) ∧
      (order.flatMap fun x => universalNewlines x.2 ++ ['\n']) = ls.flatMap fun l => l ++ ['\n'] := by
  have hkept : ∀ v, v ∈ us.filter (fun v => answer v ≠ []) ↔ v ∈ us ∧ answer v ≠ [] := by
    intro v
    simp [List.mem_filter]
  have hperm : order.Perm ((us.filter fun v => answer v ≠ []).map fun v =>
      (v.messageId,['\n'].intercalate (answer v))) := by
    have hfilter : ((us.filter fun v => answer v ≠ []).map fun v =>
        (v.messageId,['\n'].intercalate (answer v))).Nodup := by
      apply List.Nodup.of_map Prod.fst
      rw [List.map_map]
      exact hids.sublist (List.filter_sublist.map Upload.messageId)
    rw [List.perm_ext_iff_of_nodup hnodup.of_map hfilter]
    intro x
    rw [List.mem_map]
    constructor
    · intro hx
      obtain ⟨v,hv,hne,rfl⟩ := hsound x hx
      exact ⟨v,(hkept v).mpr ⟨hv,hne⟩,rfl⟩
    · rintro ⟨v,hv,rfl⟩
      obtain ⟨hv,hne⟩ := (hkept v).mp hv
      obtain ⟨x,hx,hid⟩ := List.mem_map.mp (hcomplete v hv hne)
      obtain ⟨v',hv',-,rfl⟩ := hsound x hx
      rw [List.inj_on_of_nodup_map hids hv' hv hid] at hx
      exact hx
  obtain ⟨order',horder,rfl⟩ := exists_order hperm
  refine ⟨order'.flatMap answer,?_,?_⟩
  · rw [← flatMap_filter_ne_nil answer us]
    exact horder.flatMap_right answer
  · rw [List.flatMap_map,List.flatMap_assoc]
    apply List.flatMap_congr
    intro v hv
    obtain ⟨hin,hne⟩ := (hkept v).mp (horder.subset hv)
    have hline : '\r' ∉ ['\n'].intercalate (answer v) := by
      intro h
      rcases Hop.mem_intercalate h with h | ⟨l,hl,h⟩
      · exact absurd (List.mem_singleton.mp h) (by decide)
      · exact hreturn v hin l hl h
    dsimp only
    rw [universalNewlines_of_not_mem hline,intercalate_feed hne]

/-- The server has put the batches of a file into the first queue, and nothing else
of this client. -/
def FileUploaded (c : Word 8) (u : FileUploader) (us : List Upload) : Prop :=
  ∃ queued, u.start = some queued ∧ ∀ v : Upload, v.clientId = c → (v ∈ us ↔ v ∈ uploads c queued)

/-- The client has received its results of a query from the listener, and no others. -/
structure Delivered {ρ κ σ : Type} (s : Redelivery.State Stage ρ Bytes κ σ) (c : Word 8) (t : Word 1)
    (messages : List Message) (h : ResultHandler) : Prop where
  handled : ResultHandler.receiveResults messages ResultHandler.start = some h
  sound : ∀ i text, .result t i text ∈ messages →
    (.resultsListener,dataBytes c i (some t) text.toList) ∈ s.queued
  complete : ∀ i text, (.resultsListener,dataBytes c i (some t) text) ∈ s.queued →
    i ∈ h.resultsReceived.getD t ∅

/-- The workers and the merging processes have left this file of a query. -/
def Leaves (lower : Text → Text) (h : ResultHandler) (t : Word 1) (merged : Text) : Prop :=
  ∃ processes s m, Savers.Reached lower processes h.workersQueue s ∧ s.Joined ∧
    Merging.Reached (fun t => (h.resultsReceived.get? t).isSome = true) s.temp m ∧
    m.mergers t = .finished merged

/-- What the client has got of the other queries has their tags. -/
def OthersTagged (lower : Text → Text) (t : Word 1) (messages : List Message) : Prop :=
  ∀ t' i text, t' ≠ t → .result t' i text ∈ messages → Tagged lower (.result t' i text)

/-- The tagger of a query has put its name before a result. -/
theorem getMessageTag_lines {lower : Text → Text} (hlower : AsciiLower lower) {tagName : String}
    (hopen : '[' ∉ tagName.toList) (hclose : ']' ∉ tagName.toList)
    (hascii : (tagName.toList.all fun d => decide (d.toNat < 128)) = true)
    (fields : List Text) {rows : List Row} (hne : rows.map (tagged tagName fields) ≠ []) :
    getMessageTag lower (['\n'].intercalate (rows.map (tagged tagName fields))) =
      some (tagName.toList.map Char.toLower) := by
  cases rows with
  | nil => exact absurd rfl hne
  | cons row rows =>
      obtain ⟨rest,hrest⟩ : ∃ rest : Text, ['\n'].intercalate ((row :: rows).map
          (tagged tagName fields)) = '[' :: tagName.toList ++ ']' :: rest := by
        cases rows with
        | nil => exact ⟨line fields row,by simp [tagged]⟩
        | cons second rows =>
            refine ⟨line fields row ++ '\n' ::
              ['\n'].intercalate ((second :: rows).map (tagged tagName fields)),?_⟩
            rw [List.map_cons,List.map_cons,List.intercalate_cons_cons,← List.map_cons]
            simp [tagged]
      rw [hrest]
      exact getMessageTag_tagger hlower hopen hclose
        (fun d hd => of_decide_eq_true (List.all_eq_true.mp hascii d hd)) rest

section
variable {u : FileUploader} {groups : List (List Text)} {us : List Upload} {c : Word 8}

theorem word_injOn {size m n : ℕ} (hm : m < 256^size) (hn : n < 256^size)
    (h : word size m = word size n) : m = n := by
  have hval := congrArg Fin.val h
  unfold word at hval
  dsimp only at hval
  rwa [Nat.mod_eq_of_lt hm,Nat.mod_eq_of_lt hn] at hval

theorem length_groups (hgroups : Partition u.batchSize u.bodyLines groups) :
    groups.length ≤ u.bodyLines.length := by
  have hsum : groups.length ≤ (groups.map List.length).sum := by
    have hpos : ∀ n ∈ groups.map List.length, 1 ≤ n := by
      intro n hn
      obtain ⟨g,hg,rfl⟩ := List.mem_map.mp hn
      exact (hgroups.size g hg).1
    have hle := List.length_le_sum_of_one_le _ hpos
    rwa [List.length_map] at hle
  rw [← hgroups.concat,List.length_flatten]
  exact hsum

theorem nodup_ids (hgroups : Partition u.batchSize u.bodyLines groups)
    (hshort : u.bodyLines.length < 256^8) (c : Word 8) :
    (((groups.zipIdx 1).map fun g => (⟨c,word 8 g.2,g.1.flatten⟩ : Upload)).map
      Upload.messageId).Nodup := by
  have hlength := length_groups hgroups
  have hids : (((groups.zipIdx 1).map fun g => (⟨c,word 8 g.2,g.1.flatten⟩ : Upload)).map
      Upload.messageId) = (List.range' 1 groups.length).map (word 8) := by
    rw [List.map_map,← List.zipIdx_map_snd 1 groups,List.map_map]
    rfl
  rw [hids]
  apply List.Nodup.map_on _ List.nodup_range'
  intro m hm n hn heq
  rw [List.mem_range'_1] at hm hn
  exact word_injOn (by omega) (by omega) heq

/-- The answers to the batches of a file, taken together. -/
theorem flatMap_answers {α : Type} {b : Builtins} (hfeed : b.space '\n' = true)
    (hsolid : ∀ l ∈ u.bodyLines, Solid b l) (hgroups : Partition u.batchSize u.bodyLines groups)
    (c : Word 8) (keep : Row → Bool) (f : Row → α) :
    (((groups.zipIdx 1).map fun g => (⟨c,word 8 g.2,g.1.flatten⟩ : Upload)).flatMap fun v =>
      ((flights b v).filter keep).map f) = ((fileRows u).filter keep).map f := by
  have hgroup : ∀ g ∈ groups.zipIdx 1, ((flights b ⟨c,word 8 g.2,g.1.flatten⟩).filter keep).map f =
      ((g.1.map fun l => parse flightFields (chomp l)).filter keep).map f := by
    intro g hg
    have hmem : g.1 ∈ groups := by
      rw [← List.zipIdx_map_fst 1 groups]
      exact List.mem_map_of_mem hg
    rw [flights_group hfeed hsolid hgroups hmem]
  rw [List.flatMap_map,List.flatMap_congr hgroup]
  have hfst : ((groups.zipIdx 1).flatMap fun g =>
      ((g.1.map fun l => parse flightFields (chomp l)).filter keep).map f) =
      groups.flatMap fun g => ((g.map fun l => parse flightFields (chomp l)).filter keep).map f := by
    conv_rhs => rw [← List.zipIdx_map_fst 1 groups,List.flatMap_map]
  rw [hfst]
  unfold fileRows
  rw [← hgroups.concat,List.map_flatten,List.filter_flatten,List.map_flatten,List.map_map,
    List.map_map]
  rfl

/-- What the server has of a file are its groups of lines. -/
theorem uploads_start (hsize : 1 ≤ u.batchSize) (hheader : u.removeFileHeader = true → u.text ≠ [])
    (c : Word 8) : ∃ groups queued, Partition u.batchSize u.bodyLines groups ∧
      u.start = some queued ∧
      uploads c queued = (groups.zipIdx 1).map fun g => ⟨c,word 8 g.2,g.1.flatten⟩ := by
  have hlines : ∀ l ∈ u.bodyLines, l ≠ [] := by
    intro l hl
    have hall := lines_ne_nil u.text
    unfold bodyLines at hl
    split_ifs at hl
    · exact hall l (List.mem_of_mem_tail hl)
    · exact hall l hl
  have hpos : ([] : List Text).length < u.batchSize := hsize
  obtain ⟨groups,hgroups,hyields⟩ := batches_partition hpos nofun hlines
  refine ⟨groups,_,hgroups,?_,uploads_eq c u.messageType groups.length⟩
  unfold start
  rw [u.nextBatch_eq hheader,Option.map_some,sendBatches_eq u.messageType le_rfl hyields,
    Nat.sub_self,Nat.zero_add]

/-- A file is read with newlines of one kind. -/
theorem uploads_client (hgroups : Partition u.batchSize u.bodyLines groups) (c : Word 8) :
    ∀ v ∈ (groups.zipIdx 1).map fun g => (⟨c,word 8 g.2,g.1.flatten⟩ : Upload),
      v.clientId = c ∧ '\r' ∉ v.content := by
  intro v hv
  obtain ⟨g,hg,rfl⟩ := List.mem_map.mp hv
  refine ⟨rfl,?_⟩
  have hmem : g.1 ∈ groups := by
    rw [← List.zipIdx_map_fst 1 groups]
    exact List.mem_map_of_mem hg
  have hbody : '\r' ∉ u.bodyLines.flatten := by
    rw [u.flatten_bodyLines]
    intro hin
    unfold FileUploader.body afterHeader at hin
    split_ifs at hin
    · exact return_not_mem u.file
        ((List.dropWhile_suffix _).subset (List.mem_of_mem_tail hin))
    · exact return_not_mem u.file hin
  rw [← hgroups.concat,List.flatten_flatten] at hbody
  exact fun hin => hbody (List.mem_flatten.mpr ⟨_,List.mem_map_of_mem hmem,hin⟩)

variable {b : Builtins} {ρ κ σ : Type} {s : Redelivery.State Stage ρ Bytes κ σ}
variable {lower : Text → Text} {messages : List Message} {h : ResultHandler}
variable {t : Word 1} {tagName merged : Text}

/-- Once the listener has the answers to the batches of a file, the file of the query
has, in some order, the answers to its rows. -/
theorem merged_perm (hfeed : b.space '\n' = true) (hsize : 1 ≤ u.batchSize)
    (hheader : u.removeFileHeader = true → u.text ≠ []) (hshort : u.bodyLines.length < 256^8)
    (hsolid : ∀ l ∈ u.bodyLines, Solid b l) (hfile : FileUploaded c u us)
    {keep : Row → Bool} {f : Row → Text}
    (hreturn : ∀ v : Upload, '\r' ∉ v.content → ∀ row ∈ flights b v, '\r' ∉ f row)
    (hanswers : ∀ i text, (.resultsListener,dataBytes c i (some t) text) ∈ s.queued ↔
      ∃ v ∈ us, v.clientId = c ∧ ((flights b v).filter keep).map f ≠ [] ∧
        (i,text) = (v.messageId,['\n'].intercalate (((flights b v).filter keep).map f)))
    (htag : ∀ rows : List Row, rows.map f ≠ [] →
      getMessageTag lower (['\n'].intercalate (rows.map f)) = some tagName)
    (hdelivered : Delivered s c t messages h) (hothers : OthersTagged lower t messages)
    (ht : getTagNameById t = some tagName) (hleaves : Leaves lower h t merged) :
    ∃ ls : List Text, ls.Perm (((fileRows u).filter keep).map f) ∧
      merged = ls.flatMap fun l => l ++ ['\n'] := by
  obtain ⟨groups,queued,hgroups,hstart,huploads⟩ := uploads_start hsize hheader c
  obtain ⟨queued',hstart',hown⟩ := hfile
  rw [hstart,Option.some.injEq] at hstart'
  subst hstart'
  have hclient : ∀ v ∈ uploads c queued, v.clientId = c ∧ '\r' ∉ v.content := by
    rw [huploads]
    exact uploads_client hgroups c
  have htagged : ∀ message ∈ messages, Tagged lower message := by
    rintro message hmem t' i text rfl
    rcases eq_or_ne t' t with rfl | hne
    · obtain ⟨v,-,-,hrows,heq⟩ := (hanswers i text.toList).mp (hdelivered.sound i text hmem)
      exact ⟨tagName,ht,by rw [(Prod.mk.inj heq).2]; exact htag _ hrows⟩
    · exact hothers t' i text hne hmem t' i text rfl
  obtain ⟨p,hpart,-,hp⟩ := handed hdelivered.handled
  obtain ⟨processes,sv,m,hsv,hjoined,hm,hfinished⟩ := hleaves
  obtain ⟨order,hnodup,hids,hsound,rfl⟩ := hp.merged
    (fun message hmem => htagged message (hpart.subset hmem)) hsv hjoined hm ht hfinished
  rw [← flatMap_answers hfeed hsolid hgroups c keep f,← huploads]
  refine answers_merge ?_ ?_ hnodup ?_ ?_
  · rw [huploads]
    exact nodup_ids hgroups hshort c
  · intro v hv l hl
    obtain ⟨row,hrow,rfl⟩ := List.mem_map.mp hl
    exact hreturn v (hclient v hv).2 row (List.mem_of_mem_filter hrow)
  · intro x hx
    have hqueued := hdelivered.sound _ _ (hpart.subset (hsound x hx))
    rw [String.toList_ofList] at hqueued
    obtain ⟨v,hv,hc,hne,hx⟩ := (hanswers x.1 x.2).mp hqueued
    exact ⟨v,(hown v hc).mp hv,hne,hx⟩
  · intro v hv hne
    have hc := (hclient v hv).1
    have hqueued := (hanswers v.messageId _).mpr ⟨v,(hown v hc).mpr hv,hc,hne,rfl⟩
    rw [hids,← hp.results]
    exact hdelivered.complete _ _ hqueued

end

section
variable {b : Builtins} {F : Type} {w : Measures F}
variable {coordinates : Logger.ClientId → String → Joiner.Coordinates}
variable {known : Logger.ClientId → Set String} {lower : Text → Text}
variable {ρ : Type} [DecidableEq ρ] {stage : ρ → Stage} {us : List Upload} {c : Word 8}
variable {s : Redelivery.State Stage ρ Bytes (Option (Word 8 × Word 8)) (Memory F)}

/-- What the listener has of a client with one tag comes from the tagger of that tag. -/
theorem queued_tagger (hdeployed : Deployed stage) (hc : Consistent us)
    (hs : (network b w coordinates known stage).Reached (uploaded us) s)
    (hquiet : (network b w coordinates known stage).Quiet s) {m : Stage} {t : Word 1}
    (hm : .resultsListener ∈ m.next) (ht : m.resultTagId = some t) (c i : Word 8) (text : Text) :
    (.resultsListener,dataBytes c i (some t) text) ∈ s.queued ↔
      ∃ v ∈ us, v.clientId = c ∧ v.messageId = i ∧
        through b w coordinates (m.way ++ [m]) v = some text := by
  constructor
  · intro hqueued
    obtain ⟨v,hv,ha⟩ := queued_arrives hc hs hqueued
    obtain ⟨m',text',hnext,htext,hbytes⟩ := Arrives.sender ha (by decide)
    obtain ⟨rfl,rfl,htag,rfl⟩ := dataBytes_inj hbytes
    have hm' : m' = m := by
      rw [← ht] at htag
      rcases (senders.1 m).mp hm with rfl | rfl <;> rcases (senders.1 m').mp hnext with rfl | rfl
      · rfl
      · exact absurd htag (by decide)
      · exact absurd htag (by decide)
      · rfl
    exact ⟨v,hv,rfl,rfl,hm' ▸ htext⟩
  · rintro ⟨v,hv,rfl,rfl,htext⟩
    have harrives := Arrives.sent (b := b) (w := w) hm htext
    rw [ht] at harrives
    exact arrives_queued hdeployed hc hs hquiet hv (by decide) harrives

theorem result_eq_some {tagName : String} {fields : List Text} {rows : List Row} {text : Text} :
    result tagName fields rows = some text ↔ rows.map (tagged tagName fields) ≠ [] ∧
      text = ['\n'].intercalate (rows.map (tagged tagName fields)) := by
  unfold result
  split_ifs with hnil
  · rw [hnil]
    exact ⟨nofun,fun h => absurd rfl h.1⟩
  · rw [Option.some.injEq,eq_comm]
    exact ⟨fun h => ⟨fun hmap => hnil (List.map_eq_nil_iff.mp hmap),h⟩,And.right⟩

variable {u : FileUploader}

/-- A row of a batch is one of the file. -/
theorem flights_of_file (hfeed : b.space '\n' = true) (hsize : 1 ≤ u.batchSize)
    (hheader : u.removeFileHeader = true → u.text ≠ []) (hsolid : ∀ l ∈ u.bodyLines, Solid b l)
    (hfile : FileUploaded c u us) : ∀ v ∈ us, v.clientId = c → ∀ row ∈ flights b v,
      row ∈ fileRows u := by
  obtain ⟨groups,queued,hgroups,hstart,huploads⟩ := uploads_start hsize hheader c
  obtain ⟨queued',hstart',hown⟩ := hfile
  rw [hstart,Option.some.injEq] at hstart'
  subst hstart'
  intro v hv hc row hrow
  have hin := (hown v hc).mp hv
  rw [huploads] at hin
  obtain ⟨g,hg,rfl⟩ := List.mem_map.mp hin
  have hmem : g.1 ∈ groups := by
    rw [← List.zipIdx_map_fst 1 groups]
    exact List.mem_map_of_mem hg
  rw [flights_group hfeed hsolid hgroups hmem] at hrow
  obtain ⟨l,hl,rfl⟩ := List.mem_map.mp hrow
  refine List.mem_map.mpr ⟨l,?_,rfl⟩
  rw [← hgroups.concat]
  exact List.mem_flatten.mpr ⟨g.1,hmem,hl⟩

variable {messages : List Message} {h : ResultHandler} {merged : Text}

/-- Whatever the batch size, whatever order the replicas handle, give back and repeat
the batches in, and whatever order the answers come back and are saved and merged in:
the client has, of each flight of its file with three stopovers or more, one line. -/
theorem file_tresEscalas (hcomma : b.space ',' = false) (hfeed : b.space '\n' = true)
    (hsize : 1 ≤ u.batchSize) (hheader : u.removeFileHeader = true → u.text ≠ [])
    (hshort : u.bodyLines.length < 256^8) (hsolid : ∀ l ∈ u.bodyLines, Solid b l)
    (hrows : ∀ row ∈ fileRows u, Complete b row) (hfile : FileUploaded c u us)
    (hdeployed : Deployed stage) (hc : Consistent us)
    (hs : (network b w coordinates known stage).Reached (uploaded us) s)
    (hquiet : (network b w coordinates known stage).Quiet s)
    (hlower : AsciiLower lower) (hdelivered : Delivered s c (word 1 2) messages h)
    (hothers : OthersTagged lower (word 1 2) messages) (hleaves : Leaves lower h (word 1 2) merged) :
    ∃ ls : List Text,
      ls.Perm ((withStopovers (fileRows u)).map (tagged "TRES_ESCALAS" tresEscalasFields)) ∧
      merged = ls.flatMap fun l => l ++ ['\n'] := by
  have hsub := flights_of_file hfeed hsize hheader hsolid hfile
  refine merged_perm hfeed hsize hheader hshort hsolid hfile ?_ ?_
    (fun _ hne => getMessageTag_lines hlower (by decide) (by decide) rfl _ hne)
    hdelivered hothers rfl hleaves
  · exact fun v hv row hrow => return_not_mem_tagged hrow hv (by decide) _
  · intro i text
    rw [queued_tagger hdeployed hc hs hquiet (m := .taggerTresEscalasOMas) (by decide) rfl]
    constructor
    · rintro ⟨v,hv,hclient,rfl,htext⟩
      rw [through_tresEscalas w coordinates hcomma
        fun row hrow => hrows row (hsub v hv hclient row hrow),result_eq_some] at htext
      exact ⟨v,hv,hclient,htext.1,by rw [htext.2]; rfl⟩
    · rintro ⟨v,hv,hclient,hne,heq⟩
      obtain ⟨rfl,rfl⟩ := Prod.mk.inj heq
      refine ⟨v,hv,hclient,rfl,?_⟩
      rw [through_tresEscalas w coordinates hcomma
        fun row hrow => hrows row (hsub v hv hclient row hrow),result_eq_some]
      exact ⟨hne,rfl⟩

/-- The same of the flights that are longer than four times their distance, if the
length of each is a number. -/
theorem file_distancias (hcomma : b.space ',' = false) (hfeed : b.space '\n' = true)
    (hsize : 1 ≤ u.batchSize) (hheader : u.removeFileHeader = true → u.text ≠ [])
    (hshort : u.bodyLines.length < 256^8) (hsolid : ∀ l ∈ u.bodyLines, Solid b l)
    (hrows : ∀ row ∈ fileRows u, Complete b row)
    (hfar : ∀ row ∈ fileRows u, far w coordinates c row ≠ none)
    (hplain : ∀ code, PlainCoordinates b (coordinates c code)) (hfile : FileUploaded c u us)
    (hdeployed : Deployed stage) (hc : Consistent us)
    (hs : (network b w coordinates known stage).Reached (uploaded us) s)
    (hquiet : (network b w coordinates known stage).Quiet s)
    (hlower : AsciiLower lower) (hdelivered : Delivered s c (word 1 3) messages h)
    (hothers : OthersTagged lower (word 1 3) messages) (hleaves : Leaves lower h (word 1 3) merged) :
    ∃ ls : List Text, ls.Perm ((farFlights w coordinates c (fileRows u)).map
      (tagged "DISTANCIAS" distanciaFields)) ∧ merged = ls.flatMap fun l => l ++ ['\n'] := by
  have hsub := flights_of_file hfeed hsize hheader hsolid hfile
  have hthrough : ∀ v ∈ us, v.clientId = c →
      through b w coordinates (Stage.taggerDistancias.way ++ [.taggerDistancias]) v =
        result "DISTANCIAS" distanciaFields (farFlights w coordinates c (flights b v)) := by
    rintro v hv rfl
    rw [through_distancias w coordinates hcomma (fun row hrow => hrows row (hsub v hv rfl row hrow))
      hplain]
    apply if_neg
    rintro ⟨row,hrow,hnone⟩
    exact hfar row (hsub v hv rfl row hrow) hnone
  refine merged_perm hfeed hsize hheader hshort hsolid hfile ?_ ?_
    (fun _ hne => getMessageTag_lines hlower (by decide) (by decide) rfl _ hne)
    hdelivered hothers rfl hleaves
  · exact fun v hv row hrow => return_not_mem_tagged hrow hv (by decide) _
  · intro i text
    rw [queued_tagger hdeployed hc hs hquiet (m := .taggerDistancias) (by decide) rfl]
    constructor
    · rintro ⟨v,hv,hclient,rfl,htext⟩
      rw [hthrough v hv hclient,result_eq_some] at htext
      exact ⟨v,hv,hclient,htext.1,by rw [htext.2]; rfl⟩
    · rintro ⟨v,hv,hclient,hne,heq⟩
      obtain ⟨rfl,rfl⟩ := Prod.mk.inj heq
      refine ⟨v,hv,hclient,rfl,?_⟩
      rw [hthrough v hv hclient,result_eq_some]
      exact ⟨hne,rfl⟩

end

section

/-- A file with a header and one flight. -/
def oneFile : FileUploader where
  messageType := .flight
  file := 'h' :: '\n' :: oneFlight.content
  removeFileHeader := true
  batchSize := 2

theorem oneFile_uploaded : FileUploaded (word 8 1) oneFile [oneFlight] := by
  have hstart : oneFile.start = some [.clientProtocol 1 .flight oneFlight.content,.eof .flight 1] := by
    decide +kernel
  exact ⟨_,hstart,fun v _ => Iff.rfl⟩

theorem oneFile_rows : oneFile.bodyLines = [oneFlight.content] ∧
    fileRows oneFile = flights asciiBuiltins oneFlight := by
  have hlines : oneFile.bodyLines = [oneFlight.content] := by decide +kernel
  refine ⟨hlines,?_⟩
  unfold fileRows
  rw [hlines]
  decide +kernel

theorem oneFile_solid : ∀ l ∈ oneFile.bodyLines, Solid asciiBuiltins l := by
  rw [oneFile_rows.1]
  intro l hl
  rw [List.mem_singleton.mp hl]
  exact ⟨',',by decide +kernel,rfl⟩

/-- One result is received, saved and merged. -/
theorem oneResult_left {t : Word 1} {tagName : Text} (text : Text)
    (hname : getTagNameById t = some tagName)
    (htag : getMessageTag asciiLower text = some tagName) :
    ∃ h, ResultHandler.receiveResults [.result t (word 8 1) (.ofList text)] ResultHandler.start =
        some h ∧ h.resultsReceived.getD t ∅ = {word 8 1} ∧
      OthersTagged asciiLower t [.result t (word 8 1) (.ofList text)] ∧
      Leaves asciiLower h t (copied text) := by
  have hh : ResultHandler.receiveResults [.result t (word 8 1) (.ofList text)] ResultHandler.start =
      some ⟨true,[.result t (word 8 1) (.ofList text)],Dict.empty.set t {word 8 1},.empty⟩ := rfl
  have hsave : saveTempResults asciiLower (.result t (word 8 1) (.ofList text)) =
      some (tempFile tagName (word 8 1),text) := by
    unfold saveTempResults
    dsimp only
    rw [String.toList_ofList,htag]
    rfl
  obtain ⟨m',hm',hfinished⟩ := oneResult_merged
    (fun u => ((Dict.empty.set t {word 8 1} : Dict (Word 1) (Finset (Word 8))).get? u).isSome = true)
    t tagName (tempFile tagName (word 8 1)) text (by rw [Dict.get?_set_self]; rfl) hname
    (startsWith_tempFile _ _)
  refine ⟨_,hh,Dict.getD_set_self _ _ _ _,?_,1,_,m',oneResult_saved _ _ _ _ _ hsave rfl,
    ⟨rfl,rfl,rfl⟩,hm',hfinished⟩
  intro t' i text' hne hmem
  cases List.mem_singleton.mp hmem
  exact absurd rfl hne

/-- Its one batch is answered, and the answer received and saved. -/
theorem oneFlight_answered (m : Stage) {t : Word 1} {tagName : Text} (text : Text)
    (hm : .resultsListener ∈ m.next) (ht : m.resultTagId = some t)
    (htext : through asciiBuiltins nearby nowhere (m.way ++ [m]) oneFlight = some text)
    (hname : getTagNameById t = some tagName)
    (htag : getMessageTag asciiLower text = some tagName) :
    ∃ s messages h,
      (network asciiBuiltins nearby nowhere twoAirports replicas).Reached (uploaded [oneFlight]) s ∧
      (network asciiBuiltins nearby nowhere twoAirports replicas).Quiet s ∧
      Delivered s (word 8 1) t messages h ∧ OthersTagged asciiLower t messages ∧
      Leaves asciiLower h t (copied text) := by
  obtain ⟨s,hs,hquiet⟩ := oneFlight_finished
  have hqueued := queued_tagger replicas_deployed (consistent_single _) hs hquiet hm ht (word 8 1)
  obtain ⟨h,hh,hreceived,htagged,hleaves⟩ := oneResult_left text hname htag
  refine ⟨s,_,h,hs,hquiet,⟨hh,?_,?_⟩,htagged,hleaves⟩
  · intro i text' hmem
    obtain ⟨-,rfl,rfl⟩ : t = t ∧ i = word 8 1 ∧ text' = .ofList text := by simpa using hmem
    rw [String.toList_ofList,hqueued]
    exact ⟨oneFlight,List.mem_cons_self,rfl,rfl,htext⟩
  · intro i text' hmem
    obtain ⟨v,hv,-,hi,-⟩ := (hqueued i text').mp hmem
    rw [List.mem_singleton.mp hv] at hi
    rw [hreceived,← hi]
    exact Finset.mem_singleton_self _

theorem file_tresEscalas_oneFile : ∃ ls : List Text,
    ls.Perm ((withStopovers (fileRows oneFile)).map (tagged "TRES_ESCALAS" tresEscalasFields)) ∧
      "[TRES_ESCALAS]L,A,B,5,C||D||E||F||B\n".toList = ls.flatMap fun l => l ++ ['\n'] := by
  obtain ⟨s,messages,h,hs,hquiet,hdelivered,htagged,hleaves⟩ := oneFlight_answered
    .taggerTresEscalasOMas "[TRES_ESCALAS]L,A,B,5,C||D||E||F||B".toList (by decide) rfl (by
      rw [through_tresEscalas nearby nowhere rfl oneFlight_complete]
      decide +kernel) rfl (by decide)
  have hcopied : copied "[TRES_ESCALAS]L,A,B,5,C||D||E||F||B".toList =
      "[TRES_ESCALAS]L,A,B,5,C||D||E||F||B\n".toList := by decide +kernel
  rw [hcopied] at hleaves
  exact file_tresEscalas rfl rfl (by decide) (fun _ => by decide) (by rw [oneFile_rows.1]; decide)
    oneFile_solid (by rw [oneFile_rows.2]; exact oneFlight_complete) oneFile_uploaded
    replicas_deployed (consistent_single _) hs hquiet (fun _ _ => rfl) hdelivered htagged hleaves

theorem file_distancias_oneFile : ∃ ls : List Text,
    ls.Perm ((farFlights nearby nowhere (word 8 1) (fileRows oneFile)).map
      (tagged "DISTANCIAS" distanciaFields)) ∧
      "[DISTANCIAS]L,A,B,7\n".toList = ls.flatMap fun l => l ++ ['\n'] := by
  have hfar : ∀ row ∈ fileRows oneFile, far nearby nowhere (word 8 1) row ≠ none := by
    rw [oneFile_rows.2]
    decide +kernel
  obtain ⟨s,messages,h,hs,hquiet,hdelivered,htagged,hleaves⟩ := oneFlight_answered
    .taggerDistancias "[DISTANCIAS]L,A,B,7".toList (by decide) rfl (by
      rw [through_distancias nearby nowhere rfl oneFlight_complete (nowhere_plain _)]
      decide +kernel) rfl (by decide)
  have hcopied : copied "[DISTANCIAS]L,A,B,7".toList = "[DISTANCIAS]L,A,B,7\n".toList := by
    decide +kernel
  rw [hcopied] at hleaves
  exact file_distancias rfl rfl (by decide) (fun _ => by decide) (by rw [oneFile_rows.1]; decide)
    oneFile_solid (by rw [oneFile_rows.2]; exact oneFlight_complete) hfar (nowhere_plain _)
    oneFile_uploaded replicas_deployed (consistent_single _) hs hquiet (fun _ _ => rfl)
    hdelivered htagged hleaves

end
end FlightsOptimizer.FileQueries
