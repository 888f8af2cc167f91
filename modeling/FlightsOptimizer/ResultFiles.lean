import Mathlib.Algebra.Order.Group.Multiset
import FlightsOptimizer.Directory
import FlightsOptimizer.FileUploader
import FlightsOptimizer.ResultHandler

/-!
# The files of the client

Workers save each result in a file of its own, named by the tag at the head of its
text and by its id. When they are done, a process for each query copies the files
whose name begins with that of the query into one, and removes them. The workers
share a queue, and all of them the directory of these files.
-/
namespace FlightsOptimizer.ResultFiles
open Text Directory
open FileUploader (lines universalNewlines)
open Framing (Clean splitFirst splitFirst_clean)

/-- `lower()` of the ASCII letters; of others the tables of the language say it. -/
def AsciiLower (lower : Text → Text) : Prop :=
  ∀ s : Text, (∀ c ∈ s, c.toNat < 128) → lower s = s.map Char.toLower

/-- What is between the first brackets, or raises. -/
def getMessageTag (lower : Text → Text) (data : Text) : Option Text := do
  let rest ← (split ['['] data)[1]?
  let tag ← (split [']'] rest)[0]?
  some (lower tag)

def tempFile (messageTag : Text) (resultId : Word 8) : Text :=
  messageTag ++ '_' :: (digits resultId ++ ".txt".toList)

/-- The file that a result is appended to, and what is appended. -/
def saveTempResults (lower : Text → Text) : Message → Option (Text × Text)
  | .result _ resultId result =>
      (getMessageTag lower result.toList).map fun messageTag =>
        (tempFile messageTag resultId,result.toList)
  | _ => none

/-- The results that are to be handed out, the queue of the workers, the results
that a worker has at hand, how many workers have died of one, and the files. -/
structure Savers where
  pending : List Message
  queue : List Message
  saving : Multiset Message
  raised : ℕ
  temp : Directory

namespace Savers

def start (results : List Message) : Savers := ⟨results,[],0,0,.empty⟩

inductive Step (lower : Text → Text) (processes : ℕ) : Savers → Savers → Prop
  | put {s m rest} : s.pending = m :: rest → s.queue.length < processes →
      Step lower processes s {s with pending := rest, queue := s.queue ++ [m]}
  | get {s m rest} : s.queue = m :: rest → s.saving.card + s.raised < processes →
      Step lower processes s {s with queue := rest, saving := m ::ₘ s.saving}
  | save {s m rest name text} : s.saving = m ::ₘ rest → saveTempResults lower m = some (name,text) →
      Step lower processes s {s with saving := rest, temp := append name text s.temp}
  | fail {s m rest} : s.saving = m ::ₘ rest → saveTempResults lower m = none →
      Step lower processes s {s with saving := rest, raised := s.raised + 1}

inductive Reached (lower : Text → Text) (processes : ℕ) (results : List Message) : Savers → Prop
  | start : Reached lower processes results (start results)
  | step {s t} : Reached lower processes results s → Step lower processes s t →
      Reached lower processes results t

/-- Every worker has been told to stop. -/
structure Joined (s : Savers) : Prop where
  pending : s.pending = []
  queue : s.queue = []
  saving : s.saving = 0

/-- Where each of the results is, among the files too. -/
structure Saves (lower : Text → Text) (results : List Message) (s : Savers)
    (saved : Multiset Message) : Prop where
  all : (s.pending : Multiset Message) + s.queue + s.saving + saved = results
  raised : s.raised = 0
  temp : ∀ name text, s.temp name = some text ↔ ∃ m ∈ saved, saveTempResults lower m = some (name,text)

end Savers

/-- Each result has a file of its own. -/
structure Separate (lower : Text → Text) (results : List Message) : Prop where
  nodup : results.Nodup
  named : ∀ m ∈ results, ∃ name text, saveTempResults lower m = some (name,text)
  apart : ∀ m ∈ results, ∀ m' ∈ results, ∀ name text text', saveTempResults lower m = some (name,text) →
    saveTempResults lower m' = some (name,text') → m = m'

section
variable {lower : Text → Text} {processes : ℕ} {results : List Message} {s t : Savers}
variable {saved : Multiset Message}

theorem Savers.Saves.save (h : s.Saves lower results saved) (hr : Separate lower results) {m : Message}
    {rest : Multiset Message} {name text : Text} (hsaving : s.saving = m ::ₘ rest)
    (hm : saveTempResults lower m = some (name,text)) :
    Saves lower results {s with saving := rest, temp := append name text s.temp} (m ::ₘ saved) := by
  have hall := h.all
  rw [hsaving] at hall
  have hresults : ((s.pending : Multiset Message) + s.queue + rest) + m ::ₘ saved = results := by
    rw [← hall,Multiset.add_cons,Multiset.add_cons,Multiset.cons_add]
  have hnodup : ((results : Multiset Message)).Nodup := Multiset.coe_nodup.mpr hr.nodup
  have hin : ∀ m' ∈ m ::ₘ saved, m' ∈ results := by
    intro m' hm'
    rw [← Multiset.mem_coe,← hresults]
    exact Multiset.mem_add.mpr (Or.inr hm')
  have hnotin : m ∉ saved := by
    rw [← hresults] at hnodup
    exact (Multiset.nodup_cons.mp (Multiset.nodup_of_le (Multiset.le_add_left _ _) hnodup)).1
  have hother : ∀ m' ∈ saved, ∀ text', saveTempResults lower m' ≠ some (name,text') := by
    intro m' hm' text' heq
    have := hr.apart m (hin m (Multiset.mem_cons_self _ _)) m' (hin m' (Multiset.mem_cons_of_mem hm'))
      name text text' hm heq
    exact hnotin (this ▸ hm')
  have hnew : s.temp name = none := by
    cases htemp : s.temp name with
    | none => rfl
    | some text' =>
        obtain ⟨m',hm',heq⟩ := (h.temp name text').mp htemp
        exact absurd heq (hother m' hm' text')
  refine ⟨hresults,h.raised,?_⟩
  intro name' text'
  dsimp only
  rcases eq_or_ne name' name with rfl | hne
  · rw [append_new hnew]
    constructor
    · rintro ⟨⟩
      exact ⟨m,Multiset.mem_cons_self _ _,hm⟩
    · rintro ⟨m',hm',heq⟩
      rcases Multiset.mem_cons.mp hm' with rfl | hm'
      · rw [hm,Option.some.injEq,Prod.mk.injEq] at heq
        rw [heq.2]
      · exact absurd heq (hother m' hm' text')
  · rw [append_of_ne hne,h.temp]
    constructor
    · rintro ⟨m',hm',heq⟩
      exact ⟨m',Multiset.mem_cons_of_mem hm',heq⟩
    · rintro ⟨m',hm',heq⟩
      rcases Multiset.mem_cons.mp hm' with rfl | hm'
      · rw [hm,Option.some.injEq,Prod.mk.injEq] at heq
        exact absurd heq.1.symm hne
      · exact ⟨m',hm',heq⟩

theorem Savers.Saves.step (h : s.Saves lower results saved) (hr : Separate lower results)
    (hs : Step lower processes s t) : ∃ saved', t.Saves lower results saved' := by
  cases hs with
  | @put m rest hpending _ =>
      refine ⟨saved,?_,h.raised,h.temp⟩
      have hall := h.all
      have hqueue : ((s.queue ++ [m] : List Message) : Multiset Message) = s.queue + {m} :=
        (Multiset.coe_add _ _).symm
      rw [hpending,← Multiset.cons_coe,← Multiset.singleton_add] at hall
      rw [← hall]
      dsimp only
      rw [hqueue]
      ac_rfl
  | @get m rest hqueue _ =>
      refine ⟨saved,?_,h.raised,h.temp⟩
      have hall := h.all
      rw [hqueue,← Multiset.cons_coe,← Multiset.singleton_add] at hall
      rw [← hall]
      dsimp only
      rw [← Multiset.singleton_add]
      ac_rfl
  | save hsaving hm => exact ⟨_,h.save hr hsaving hm⟩
  | @fail m rest hsaving hm =>
      have hmem : m ∈ results := by
        rw [← Multiset.mem_coe,← h.all,hsaving]
        exact Multiset.mem_add.mpr (Or.inl (Multiset.mem_add.mpr
          (Or.inr (Multiset.mem_cons_self _ _))))
      obtain ⟨name,text,hsome⟩ := hr.named m hmem
      rw [hm] at hsome
      cases hsome

theorem Savers.Reached.saves (hr : Separate lower results) (hs : Reached lower processes results s) :
    ∃ saved, s.Saves lower results saved := by
  induction hs with
  | start =>
      refine ⟨0,by simp [Savers.start],rfl,?_⟩
      intro name text
      constructor
      · exact nofun
      · rintro ⟨m,hm,-⟩
        exact absurd hm (Multiset.notMem_zero m)
  | step _ hstep ih =>
      obtain ⟨saved,h⟩ := ih
      exact h.step hr hstep

/-- When the workers are done, the files are those of the results. -/
theorem Savers.Reached.temp (hr : Separate lower results) (hs : Reached lower processes results s)
    (hjoined : s.Joined) (name text : Text) :
    s.temp name = some text ↔ ∃ m ∈ results, saveTempResults lower m = some (name,text) := by
  obtain ⟨saved,h⟩ := hs.saves hr
  have hall := h.all
  rw [hjoined.pending,hjoined.queue,hjoined.saving] at hall
  simp only [Multiset.coe_nil,add_zero,zero_add] at hall
  rw [h.temp,hall]
  simp only [Multiset.mem_coe]

end

def getTagNameById (tagId : Word 1) : Option Text :=
  match tagId.val with
  | 1 => some "dos_mas_rapidos".toList
  | 2 => some "tres_escalas".toList
  | 3 => some "distancias".toList
  | 4 => some "max_avg".toList
  | _ => none

/-- What is written of a file: its lines, and a newline. -/
def copied (text : Text) : Text := (lines (universalNewlines text)).flatten ++ ['\n']

/-- `merge_results_for_tag`, and `remove_temp_files_for_tag` at its end. A file that
is not there raises. -/
inductive Merger where
  | listing
  | copying (files : List Text) (merged : Text)
  | listingAgain (merged : Text)
  | removing (files : List Text) (merged : Text)
  | finished (merged : Text)
  | raised

namespace Merger

/-- One system call of the process for a tag name, and what it does to the directory. -/
inductive Step (tagName : Text) : Merger → Directory → Merger → Directory → Prop
  | list {d files} : Lists d files → Step tagName .listing d (.copying files []) d
  | skip {d file files merged} : startsWith tagName file = false →
      Step tagName (.copying (file :: files) merged) d (.copying files merged) d
  | copy {d file files merged text} : startsWith tagName file = true → d file = some text →
      Step tagName (.copying (file :: files) merged) d (.copying files (merged ++ copied text)) d
  | missing {d file files merged} : startsWith tagName file = true → d file = none →
      Step tagName (.copying (file :: files) merged) d .raised d
  | close {d merged} : Step tagName (.copying [] merged) d (.listingAgain merged) d
  | listAgain {d files merged} : Lists d files →
      Step tagName (.listingAgain merged) d (.removing files merged) d
  | keep {d file files merged} : startsWith tagName file = false →
      Step tagName (.removing (file :: files) merged) d (.removing files merged) d
  | remove {d file files merged} : startsWith tagName file = true → (d file).isSome = true →
      Step tagName (.removing (file :: files) merged) d (.removing files merged) (d.remove file)
  | gone {d file files merged} : startsWith tagName file = true → d file = none →
      Step tagName (.removing (file :: files) merged) d .raised d
  | finish {d merged} : Step tagName (.removing [] merged) d (.finished merged) d

/-- What is copied of some files. -/
def copies (tagName : Text) (d : Directory) (files : List Text) : Text :=
  (files.filter (startsWith tagName)).flatMap fun file => copied ((d file).getD [])

/-- The files of a tag, in some order. -/
structure Covers (tagName : Text) (d : Directory) (files : List Text) : Prop where
  nodup : files.Nodup
  mem : ∀ file, startsWith tagName file = true → (file ∈ files ↔ (d file).isSome = true)

def Merges (tagName : Text) (d : Directory) (merged : Text) : Prop :=
  ∃ files, Covers tagName d files ∧ merged = copies tagName d files

def Untouched (tagName : Text) (d d' : Directory) : Prop :=
  AgreeOn (fun file => startsWith tagName file = true) d d'

/-- Where the process is, of a directory that held `d` when it began. -/
def Progress (tagName : Text) (d : Directory) : Merger → Directory → Prop
  | .listing,d' => Untouched tagName d d'
  | .copying files merged,d' => Untouched tagName d d' ∧
      ∃ before, Covers tagName d (before ++ files) ∧ merged = copies tagName d before
  | .listingAgain merged,d' => Untouched tagName d d' ∧ Merges tagName d merged
  | .removing files merged,d' => Merges tagName d merged ∧ files.Nodup ∧
      ∀ file, startsWith tagName file = true →
        (file ∈ files → d' file = d file ∧ (d file).isSome = true) ∧ (file ∉ files → d' file = none)
  | .finished merged,d' => Merges tagName d merged ∧
      ∀ file, startsWith tagName file = true → d' file = none
  | .raised,_ => False

section
variable {tagName : Text} {d d₁ d₂ : Directory} {m m' : Merger}

theorem copies_snoc (files : List Text) (file : Text) :
    copies tagName d (files ++ [file]) = copies tagName d files ++
      if startsWith tagName file = true then copied ((d file).getD []) else [] := by
  unfold copies
  rw [List.filter_append,List.flatMap_append]
  split_ifs with hstart
  · rw [List.filter_singleton,hstart]
    simp
  · rw [List.filter_singleton]
    simp [hstart]

theorem Covers.of_lists {files : List Text} (h : Lists d₁ files) (ha : Untouched tagName d d₁) :
    Covers tagName d files where
  nodup := h.nodup
  mem := by
    intro file hstart
    rw [h.mem,ha file hstart]

/-- What other processes do to their files does not matter. -/
theorem Progress.untouched (h : Progress tagName d m d₁) (ha : Untouched tagName d₁ d₂) :
    Progress tagName d m d₂ := by
  cases m with
  | listing => exact AgreeOn.trans h ha
  | copying files merged => exact ⟨AgreeOn.trans h.1 ha,h.2⟩
  | listingAgain merged => exact ⟨AgreeOn.trans h.1 ha,h.2⟩
  | removing files merged =>
      refine ⟨h.1,h.2.1,?_⟩
      intro file hstart
      rw [← ha file hstart]
      exact h.2.2 file hstart
  | finished merged =>
      refine ⟨h.1,?_⟩
      intro file hstart
      rw [← ha file hstart]
      exact h.2 file hstart
  | raised => exact h

theorem Progress.step (h : Progress tagName d m d₁) (hs : Step tagName m d₁ m' d₂) :
    Progress tagName d m' d₂ := by
  cases hs with
  | list hlists => exact ⟨h,[],Covers.of_lists hlists h,rfl⟩
  | @skip _ file files merged hstart =>
      obtain ⟨ha,before,hcovers,hmerged⟩ := h
      refine ⟨ha,before ++ [file],by rw [List.append_assoc]; exact hcovers,?_⟩
      rw [copies_snoc,hmerged,hstart]
      simp
  | @copy _ file files merged text hstart htext =>
      obtain ⟨ha,before,hcovers,hmerged⟩ := h
      refine ⟨ha,before ++ [file],by rw [List.append_assoc]; exact hcovers,?_⟩
      rw [copies_snoc,hmerged,if_pos hstart,ha file hstart,htext]
      rfl
  | @missing _ file files merged hstart hnone =>
      obtain ⟨ha,before,hcovers,-⟩ := h
      have hsome := (hcovers.mem file hstart).mp (by simp)
      rw [ha file hstart,hnone] at hsome
      cases hsome
  | close =>
      obtain ⟨ha,before,hcovers,hmerged⟩ := h
      rw [List.append_nil] at hcovers
      exact ⟨ha,before,hcovers,hmerged⟩
  | @listAgain _ files merged hlists =>
      obtain ⟨ha,hmerges⟩ := h
      refine ⟨hmerges,hlists.nodup,?_⟩
      intro file hstart
      rw [ha file hstart]
      refine ⟨fun hmem => ⟨rfl,(hlists.mem file).mp hmem⟩,?_⟩
      intro hmem
      rw [hlists.mem] at hmem
      exact Option.not_isSome_iff_eq_none.mp hmem
  | @keep _ file files merged hstart =>
      obtain ⟨hmerges,hnodup,hfiles⟩ := h
      refine ⟨hmerges,(List.nodup_cons.mp hnodup).2,?_⟩
      intro other hother
      have hne : other ≠ file := by
        rintro rfl
        rw [hstart] at hother
        cases hother
      have hleft := hfiles other hother
      simp only [List.mem_cons,hne,false_or] at hleft
      exact hleft
  | @remove _ file files merged hstart hsome =>
      obtain ⟨hmerges,hnodup,hfiles⟩ := h
      obtain ⟨hnotin,hnodup'⟩ := List.nodup_cons.mp hnodup
      refine ⟨hmerges,hnodup',?_⟩
      intro other hother
      rcases eq_or_ne other file with rfl | hne
      · exact ⟨fun hin => absurd hin hnotin,fun _ => remove_self⟩
      · rw [remove_of_ne hne]
        have hleft := hfiles other hother
        simp only [List.mem_cons,hne,false_or] at hleft
        exact hleft
  | @gone _ file files merged hstart hnone =>
      obtain ⟨-,-,hfiles⟩ := h
      obtain ⟨heq,hsome⟩ := (hfiles file hstart).1 List.mem_cons_self
      rw [← heq,hnone] at hsome
      cases hsome
  | finish =>
      refine ⟨h.1,?_⟩
      intro file hstart
      exact (h.2.2 file hstart).2 List.not_mem_nil

/-- A process touches only the files of its tag. -/
theorem Step.others (hs : Step tagName m d₁ m' d₂) {file : Text}
    (hstart : startsWith tagName file = false) : d₂ file = d₁ file := by
  cases hs with
  | @remove _ removed files merged hremoved _ =>
      apply remove_of_ne
      rintro rfl
      rw [hstart] at hremoved
      cases hremoved
  | _ => rfl

end
end Merger

/-- The processes of all queries, and the directory. -/
structure Merging where
  mergers : Word 1 → Merger
  temp : Directory

namespace Merging

/-- A step of the process of one of the tags that have results. A tag without a
name raises at the first file. -/
inductive Step (tags : Word 1 → Prop) : Merging → Merging → Prop
  | merge {s tagId tagName m d} : tags tagId → getTagNameById tagId = some tagName →
      Merger.Step tagName (s.mergers tagId) s.temp m d →
      Step tags s ⟨Function.update s.mergers tagId m,d⟩
  | unnamed {s tagId file files} : tags tagId → getTagNameById tagId = none →
      Lists s.temp (file :: files) →
      Step tags s {s with mergers := Function.update s.mergers tagId .raised}

inductive Reached (tags : Word 1 → Prop) (temp : Directory) : Merging → Prop
  | start : Reached tags temp ⟨fun _ => .listing,temp⟩
  | step {s t} : Reached tags temp s → Step tags s t → Reached tags temp t

end Merging

/-- No file is of two queries. -/
theorem getTagNameById_apart {t t' : Word 1} {tagName tagName' file : Text}
    (h : getTagNameById t = some tagName) (h' : getTagNameById t' = some tagName')
    (hstart : startsWith tagName file = true) (hstart' : startsWith tagName' file = true) :
    t = t' := by
  unfold startsWith at hstart hstart'
  rw [List.isPrefixOf_iff_prefix] at hstart hstart'
  have hpart := List.prefix_or_prefix_of_prefix hstart hstart'
  unfold getTagNameById at h h'
  split at h <;> split at h' <;> cases h <;> cases h' <;>
    first
      | exact Fin.ext (Eq.trans (by assumption) (Eq.symm (by assumption)))
      | exact absurd hpart (by decide)

theorem Merging.Reached.progress {tags : Word 1 → Prop} {temp : Directory} {s : Merging}
    (hs : Reached tags temp s) {t : Word 1} {tagName : Text} (ht : getTagNameById t = some tagName) :
    Merger.Progress tagName temp (s.mergers t) s.temp := by
  induction hs with
  | start => exact fun _ _ => rfl
  | @step s s' _ hstep ih =>
      cases hstep with
      | @merge u name m d _ hname hstep =>
          rcases eq_or_ne t u with rfl | hne
          · rw [ht,Option.some.injEq] at hname
            subst hname
            simp only [Function.update_self]
            exact ih.step hstep
          · simp only [Function.update_of_ne hne]
            refine ih.untouched fun file hstart => (hstep.others ?_).symm
            cases hother : startsWith name file with
            | false => rfl
            | true => exact absurd (getTagNameById_apart ht hname hstart hother) hne
      | @unnamed u _ _ _ hnone _ =>
          have hne : t ≠ u := by
            rintro rfl
            rw [ht] at hnone
            cases hnone
          simp only [Function.update_of_ne hne]
          exact ih

/-- If all tags have names, no process raises. -/
theorem Merging.Reached.not_raised {tags : Word 1 → Prop} {temp : Directory} {s : Merging}
    (hs : Reached tags temp s) (htags : ∀ t, tags t → (getTagNameById t).isSome = true)
    (t : Word 1) : s.mergers t ≠ .raised := by
  cases ht : getTagNameById t with
  | some tagName =>
      intro hraised
      have hprogress := hs.progress ht
      rw [hraised] at hprogress
      exact hprogress
  | none =>
      have hlisting : s.mergers t = .listing := by
        induction hs with
        | start => rfl
        | step _ hstep ih =>
            cases hstep with
            | @merge u name _ _ _ hname _ =>
                have hne : t ≠ u := by
                  rintro rfl
                  rw [ht] at hname
                  cases hname
                simp only [Function.update_of_ne hne]
                exact ih
            | unnamed htag hnone _ =>
                have hsome := htags _ htag
                rw [hnone] at hsome
                cases hsome
      rw [hlisting]
      exact nofun

section
open ResultHandler
variable {lower : Text → Text} {messages : List Message} {h : ResultHandler}

/-- The text of a result begins with the name of its query. -/
def Tagged (lower : Text → Text) (message : Message) : Prop := ∀ tagId resultId result,
  message = .result tagId resultId result → ∃ tagName, getTagNameById tagId = some tagName ∧
    getMessageTag lower result.toList = some tagName

theorem splitMax_cons {c : Char} {before after : Text} (hc : c ∉ before) (n : ℕ) :
    splitMax [c] (n+1) (before ++ c :: after) = before :: splitMax [c] n after := by
  have hclean : Clean ([] ++ c :: []) before := clean_of_not_mem hc List.not_mem_nil
  have hfirst : splitFirst [c] (before ++ [c] ++ after) = some (before,after) :=
    splitFirst_clean hclean after
  rw [List.append_assoc,List.singleton_append] at hfirst
  rw [splitMax,hfirst]

/-- A part does not end before the first separator. -/
theorem head_splitMax {c : Char} {before : Text} (hc : c ∉ before) (after : Text) (n : ℕ) :
    ∃ more parts, splitMax [c] n (before ++ after) = (before ++ more) :: parts := by
  by_cases hmem : c ∈ after
  · obtain ⟨first,rest,rfl,hfirst⟩ := List.eq_append_cons_of_mem hmem
    cases n with
    | zero => exact ⟨_,[],rfl⟩
    | succ n =>
        have hnot : c ∉ before ++ first := fun h => (List.mem_append.mp h).elim hc hfirst
        refine ⟨first,splitMax [c] n rest,?_⟩
        rw [← List.append_assoc]
        exact splitMax_cons hnot n
  · have hnot : c ∉ before ++ after := fun h => (List.mem_append.mp h).elim hc hmem
    exact ⟨after,[],splitMax_none (splitFirst_not_mem (List.mem_singleton_self c) hnot) n⟩

/-- What a tagger has put its tag before. -/
theorem getMessageTag_tagger (hlower : AsciiLower lower) {tag : Text} (hopen : '[' ∉ tag)
    (hclose : ']' ∉ tag) (hascii : ∀ c ∈ tag, c.toNat < 128) (rest : Text) :
    getMessageTag lower ('[' :: tag ++ ']' :: rest) = some (tag.map Char.toLower) := by
  have hnot : '[' ∉ tag ++ [']'] := by
    intro h
    rcases List.mem_append.mp h with h | h
    · exact hopen h
    · exact absurd (List.mem_singleton.mp h) (by decide)
  obtain ⟨more,parts,hparts⟩ := head_splitMax hnot rest (tag ++ [']'] ++ rest).length
  have hbrackets : split ['['] ('[' :: tag ++ ']' :: rest) = [] :: (tag ++ ']' :: more) :: parts := by
    have hcut : splitMax ['['] ((tag ++ [']'] ++ rest).length+1)
        ([] ++ '[' :: (tag ++ [']'] ++ rest)) =
        [] :: splitMax ['['] (tag ++ [']'] ++ rest).length (tag ++ [']'] ++ rest) :=
      splitMax_cons List.not_mem_nil _
    rw [hparts] at hcut
    unfold split
    simpa using hcut
  have htag : split [']'] (tag ++ ']' :: more) =
      tag :: splitMax [']'] (tag.length + more.length) more := by
    unfold split
    rw [List.length_append,List.length_cons,← Nat.add_assoc]
    exact splitMax_cons hclose _
  unfold getMessageTag
  rw [hbrackets]
  change (do
    let tag ← (split [']'] (tag ++ ']' :: more))[0]?
    some (lower tag)) = _
  rw [htag]
  exact congrArg some (hlower tag hascii)

/-- What the loop has handed out of the messages it has looked at. -/
structure Handed (p : List Message) (h : ResultHandler) : Prop where
  results : ∀ t, h.resultsReceived.getD t ∅ = ids t p
  once : HandedOnce p h
  received : ∀ m ∈ h.workersQueue, m ∈ p ∧ ∃ t i text, m = .result t i text
  tags : ∀ t, (h.resultsReceived.get? t).isSome = true → ∃ i text, .result t i text ∈ p

theorem handed_start : Handed [] ResultHandler.start where
  results := fun _ => rfl
  once := fun _ _ => rfl
  received := nofun
  tags := nofun

theorem Handed.eof {p : List Message} (hp : Handed p h) (t : Word 1) (n : Word 8) :
    Handed (p ++ [.resultEof t n]) {h with eofsReceived := h.eofsReceived.set t n} := by
  have hids : ∀ u, ids u (p ++ [.resultEof t n]) = ids u p := by
    intro u
    ext j
    rw [mem_ids_snoc]
    simp [resultId]
  refine ⟨?_,?_,?_,?_⟩
  · intro u
    rw [hids]
    exact hp.results u
  · intro u i
    rw [hids]
    exact hp.once u i
  · intro m hm
    exact ⟨List.mem_append_left _ (hp.received m hm).1,(hp.received m hm).2⟩
  · intro u hu
    obtain ⟨i,text,hm⟩ := hp.tags u hu
    exact ⟨i,text,List.mem_append_left _ hm⟩

theorem ids_result (p : List Message) (t u : Word 1) (i : Word 8) (text : String) :
    ids u (p ++ [.result t i text]) = if t = u then insert i (ids u p) else ids u p := by
  ext j
  rw [mem_ids_snoc]
  by_cases hu : t = u
  · simp [resultId,hu,or_comm,eq_comm]
  · simp [resultId,hu]

theorem Handed.result {p : List Message} (hp : Handed p h) {t : Word 1} {i : Word 8} {text : String}
    {h' : ResultHandler} (hrecord : record (.result t i text) h = some h') :
    Handed (p ++ [.result t i text]) h' := by
  have hresults : ∀ u, (h.resultsReceived.set t (insert i (ids t p))).getD u ∅ =
      ids u (p ++ [.result t i text]) := by
    intro u
    rw [Dict.getD_set,ids_result]
    by_cases hu : t = u
    · subst hu
      simp
    · simp only [hu,if_false]
      exact hp.results u
  have hbefore : ∀ m ∈ h.workersQueue, m ∈ p ++ [.result t i text] ∧
      ∃ t i text, m = Message.result t i text :=
    fun m hm => ⟨List.mem_append_left _ (hp.received m hm).1,(hp.received m hm).2⟩
  have htags : ∀ u, ((h.resultsReceived.set t (insert i (ids t p))).get? u).isSome = true →
      ∃ j text', .result u j text' ∈ p ++ [Message.result t i text] := by
    intro u hu
    rw [Dict.get?_set] at hu
    split_ifs at hu with htu
    · subst htu
      exact ⟨i,text,List.mem_append_right _ List.mem_cons_self⟩
    · obtain ⟨j,text',hm⟩ := hp.tags u hu
      exact ⟨j,text',List.mem_append_left _ hm⟩
  simp only [record,isDuplicate,hp.results] at hrecord
  by_cases hi : i ∈ ids t p
  · rw [if_pos (by simpa using hi),Option.some.injEq] at hrecord
    subst hrecord
    refine ⟨hresults,?_,hbefore,htags⟩
    intro u j
    rw [ids_result]
    have honce := hp.once u j
    by_cases hu : t = u
    · subst hu
      rw [if_pos rfl,Finset.insert_eq_of_mem hi]
      exact honce
    · rw [if_neg hu]
      exact honce
  · rw [if_neg (by simpa using hi),Option.some.injEq] at hrecord
    subst hrecord
    refine ⟨hresults,?_,?_,htags⟩
    · intro u j
      have honce := hp.once u j
      rw [ids_result,List.countP_append,honce,List.countP_singleton]
      by_cases hu : t = u
      · subst hu
        by_cases hj : i = j
        · subst hj
          simp [hi,resultId]
        · simp [resultId,hj,Ne.symm hj]
      · simp [resultId,hu]
    · intro m hm
      rcases List.mem_append.mp hm with hm | hm
      · exact hbefore m hm
      · rw [List.mem_singleton.mp hm]
        exact ⟨List.mem_append_right _ List.mem_cons_self,t,i,text,rfl⟩

theorem Handed.record {p : List Message} (hp : Handed p h) {m : Message} {h' : ResultHandler}
    (hrecord : record m h = some h') : Handed (p ++ [m]) h' := by
  cases m with
  | result t i text => exact hp.result hrecord
  | resultEof t n =>
      cases hrecord
      exact hp.eof t n
  | _ => cases hrecord

/-- The test looks at the results, and changes none. -/
theorem Handed.check {p : List Message} (hp : Handed p h) {h' : ResultHandler}
    (hcheck : h.checkIfAllResultsReceived = some h') : Handed p h' := by
  unfold checkIfAllResultsReceived at hcheck
  split_ifs at hcheck with hfew
  · cases hcheck
    exact hp
  · obtain ⟨finished,-,hcheck⟩ := Option.bind_eq_some_iff.mp hcheck
    split_ifs at hcheck with hall
    · cases hcheck
      exact ⟨hp.results,hp.once,hp.received,hp.tags⟩
    · cases hcheck
      exact hp

/-- The loop has looked at a part of the messages, at all of them while it runs. -/
theorem handed (hh : receiveResults messages ResultHandler.start = some h) :
    ∃ p, p <+: messages ∧ (h.running = true → p = messages) ∧ Handed p h := by
  induction messages using List.reverseRecOn generalizing h with
  | nil =>
      cases hh
      exact ⟨[],List.prefix_refl _,fun _ => rfl,handed_start⟩
  | append_singleton messages m ih =>
      rw [receiveResults_append,Option.bind_eq_some_iff] at hh
      obtain ⟨h₁,hh₁,hm⟩ := hh
      obtain ⟨p,hp,hrunning,hhanded⟩ := ih hh₁
      unfold receiveResults at hm
      split_ifs at hm with hrun
      · obtain ⟨h₂,hrecord,hm⟩ := Option.bind_eq_some_iff.mp hm
        obtain ⟨h₃,hcheck,hm⟩ := Option.bind_eq_some_iff.mp hm
        cases hm
        have hall := hrunning hrun
        subst hall
        exact ⟨p ++ [m],List.prefix_refl _,fun _ => rfl,(hhanded.record hrecord).check hcheck⟩
      · cases hm
        exact ⟨p,hp.trans (List.prefix_append _ _),fun h => absurd h hrun,hhanded⟩

theorem digits_injective : Function.Injective digits := by
  intro m n hmn
  have hread := toNat?_digits m
  rw [hmn,toNat?_digits,Option.some.injEq] at hread
  exact hread.symm

theorem tempFile_injective (tagName : Text) : Function.Injective (tempFile tagName) := by
  intro i j h
  unfold tempFile at h
  have hdigits := List.append_cancel_right (List.cons.inj (List.append_cancel_left h)).2
  exact Fin.ext (digits_injective hdigits)

theorem startsWith_tempFile (tagName : Text) (i : Word 8) :
    startsWith tagName (tempFile tagName i) = true := by
  unfold startsWith tempFile
  rw [List.isPrefixOf_iff_prefix]
  exact List.prefix_append _ _

theorem saveTempResults_tagged {t : Word 1} {i : Word 8} {text : String}
    (hm : Tagged lower (.result t i text)) : ∃ tagName, getTagNameById t = some tagName ∧
      saveTempResults lower (.result t i text) = some (tempFile tagName i,text.toList) := by
  obtain ⟨tagName,hname,htag⟩ := hm t i text rfl
  refine ⟨tagName,hname,?_⟩
  unfold saveTempResults
  dsimp only
  rw [htag]
  rfl

/-- A result handed out once is there once. -/
theorem Handed.unique {p : List Message} (hp : Handed p h) {t : Word 1} {i : Word 8} :
    (h.workersQueue.filter fun m => resultId t m == some i).length ≤ 1 := by
  rw [← List.countP_eq_length_filter,hp.once]
  split_ifs <;> omega

theorem eq_of_filter {α : Type} {q : α → Bool} {l : List α} {a a' : α}
    (hl : (l.filter q).length ≤ 1) (ha : a ∈ l) (ha' : a' ∈ l) (hq : q a = true) (hq' : q a' = true) :
    a = a' := by
  have hmem := List.mem_filter.mpr ⟨ha,hq⟩
  have hmem' := List.mem_filter.mpr ⟨ha',hq'⟩
  match hfilter : l.filter q with
  | [] =>
      rw [hfilter] at hmem
      cases hmem
  | [b] =>
      rw [hfilter,List.mem_singleton] at hmem hmem'
      rw [hmem,hmem']
  | _ :: _ :: _ =>
      rw [hfilter] at hl
      simp at hl

theorem nodup_of_filter {α : Type} {l : List α}
    (hl : ∀ a ∈ l, ∃ q : α → Bool, q a = true ∧ (l.filter q).length ≤ 1) : l.Nodup := by
  rw [List.nodup_iff_sublist]
  intro a hsub
  have ha : a ∈ l := hsub.subset List.mem_cons_self
  obtain ⟨q,hq,hle⟩ := hl a ha
  have hlength := (hsub.filter q).length_le
  simp only [List.filter_cons_of_pos hq,List.filter_nil,List.length_cons,List.length_nil] at hlength
  omega

theorem Handed.separate {p : List Message} (hp : Handed p h) (htagged : ∀ m ∈ p, Tagged lower m) :
    Separate lower h.workersQueue where
  nodup := by
    apply nodup_of_filter
    intro m hm
    obtain ⟨-,t,i,text,rfl⟩ := hp.received m hm
    exact ⟨fun m => resultId t m == some i,by simp [resultId],hp.unique⟩
  named := by
    intro m hm
    obtain ⟨hin,t,i,text,rfl⟩ := hp.received m hm
    obtain ⟨tagName,-,hsave⟩ := saveTempResults_tagged (htagged _ hin)
    exact ⟨_,_,hsave⟩
  apart := by
    intro m hm m' hm' name text text' hsave hsave'
    obtain ⟨hin,t,i,s,rfl⟩ := hp.received m hm
    obtain ⟨hin',t',i',s',rfl⟩ := hp.received m' hm'
    obtain ⟨tagName,hname,htemp⟩ := saveTempResults_tagged (htagged _ hin)
    obtain ⟨tagName',hname',htemp'⟩ := saveTempResults_tagged (htagged _ hin')
    rw [htemp,Option.some.injEq,Prod.mk.injEq] at hsave
    rw [htemp',Option.some.injEq,Prod.mk.injEq] at hsave'
    have hfile : tempFile tagName i = tempFile tagName' i' := hsave.1.trans hsave'.1.symm
    have ht : t = t' := getTagNameById_apart hname hname' (startsWith_tempFile tagName i)
      (by rw [hfile]; exact startsWith_tempFile tagName' i')
    subst ht
    rw [hname,Option.some.injEq] at hname'
    subst hname'
    have hi := tempFile_injective tagName hfile
    subst hi
    have hunique := hp.unique (t := t) (i := i)
    exact eq_of_filter hunique hm hm' (by simp [resultId]) (by simp [resultId])

/-- The results of a query that were handed out, by their ids. -/
def answers (t : Word 1) (results : List Message) : List (Word 8 × Text) :=
  results.filterMap fun m =>
    match m with
    | .result tagId resultId result => if tagId = t then some (resultId,result.toList) else none
    | _ => none

theorem mem_answers {t : Word 1} {results : List Message} {x : Word 8 × Text} :
    x ∈ answers t results ↔ .result t x.1 (.ofList x.2) ∈ results := by
  unfold answers
  rw [List.mem_filterMap]
  constructor
  · rintro ⟨m,hm,hx⟩
    cases m with
    | result tagId resultId result =>
        dsimp only at hx
        split_ifs at hx with ht
        cases hx
        rw [← ht,String.ofList_toList]
        exact hm
    | _ => cases hx
  · intro hm
    refine ⟨_,hm,?_⟩
    simp

theorem Handed.answers {p : List Message} (hp : Handed p h) (t : Word 1) :
    ((ResultFiles.answers t h.workersQueue).map Prod.fst).Nodup ∧
      ∀ i, i ∈ (ResultFiles.answers t h.workersQueue).map Prod.fst ↔ i ∈ ids t p := by
  have hids : (ResultFiles.answers t h.workersQueue).map Prod.fst =
      h.workersQueue.filterMap (resultId t) := by
    unfold ResultFiles.answers
    rw [List.map_filterMap]
    congr 1
    funext m
    cases m with
    | result tagId i result =>
        unfold resultId
        dsimp only
        split_ifs <;> rfl
    | _ => rfl
  have hcount : ∀ i, (h.workersQueue.filterMap (resultId t)).count i = if i ∈ ids t p then 1 else 0 := by
    intro i
    rw [← hp.once t i,List.count_filterMap]
  rw [hids]
  constructor
  · rw [List.nodup_iff_count_le_one]
    intro i
    rw [hcount]
    split_ifs <;> omega
  · intro i
    rw [← List.count_pos_iff,hcount]
    split_ifs with hi <;> simp [hi]

theorem exists_order {α β : Type} {f : α → β} {bs : List β} {as : List α} (h : bs.Perm (as.map f)) :
    ∃ order : List α, order.Perm as ∧ bs = order.map f := by
  have hcomp := congrFun (congrFun (List.eq_map_comp_perm f) bs) as
  obtain ⟨order,hbs,horder⟩ := hcomp.mpr h
  exact ⟨order,horder,hbs⟩

theorem copied_eq (text : Text) : copied text = universalNewlines text ++ ['\n'] := by
  unfold copied
  rw [FileUploader.flatten_lines]

/-- One file has, in some order, the results of one query. -/
theorem Merger.Merges.answers {results : List Message} {d : Directory} {t : Word 1}
    {tagName merged : Text} (hids : ((ResultFiles.answers t results).map Prod.fst).Nodup)
    (htagged : ∀ m ∈ results, Tagged lower m)
    (hd : ∀ name text, d name = some text ↔ ∃ m ∈ results, saveTempResults lower m = some (name,text))
    (ht : getTagNameById t = some tagName) (h : Merges tagName d merged) :
    ∃ order : List (Word 8 × Text), order.Perm (ResultFiles.answers t results) ∧
      merged = order.flatMap fun x => universalNewlines x.2 ++ ['\n'] := by
  obtain ⟨files,hcovers,rfl⟩ := h
  have hsave : ∀ x ∈ ResultFiles.answers t results,
      saveTempResults lower (.result t x.1 (.ofList x.2)) = some (tempFile tagName x.1,x.2) := by
    intro x hx
    obtain ⟨name,hname,hsave⟩ := saveTempResults_tagged (htagged _ (mem_answers.mp hx))
    rw [ht,Option.some.injEq] at hname
    rw [hsave,hname,String.toList_ofList]
  have hfile : ∀ x ∈ ResultFiles.answers t results, d (tempFile tagName x.1) = some x.2 :=
    fun x hx => (hd _ _).mpr ⟨_,mem_answers.mp hx,hsave x hx⟩
  have hnodup : ((ResultFiles.answers t results).map fun x => tempFile tagName x.1).Nodup := by
    have hmap := hids.map (tempFile_injective tagName)
    rw [List.map_map] at hmap
    exact hmap
  have hperm : (files.filter (startsWith tagName)).Perm
      ((ResultFiles.answers t results).map fun x => tempFile tagName x.1) := by
    rw [List.perm_ext_iff_of_nodup (hcovers.nodup.filter _) hnodup]
    intro file
    rw [List.mem_filter,List.mem_map]
    constructor
    · rintro ⟨hin,hstart⟩
      obtain ⟨text,htext⟩ := Option.isSome_iff_exists.mp ((hcovers.mem file hstart).mp hin)
      obtain ⟨m,hm,hsaved⟩ := (hd file text).mp htext
      cases m with
      | result u i s =>
          obtain ⟨name,hname,hsave'⟩ := saveTempResults_tagged (htagged _ hm)
          rw [hsave',Option.some.injEq,Prod.mk.injEq] at hsaved
          have hu : u = t := getTagNameById_apart hname ht (startsWith_tempFile name i)
            (by rw [hsaved.1]; exact hstart)
          subst hu
          rw [ht,Option.some.injEq] at hname
          refine ⟨(i,s.toList),mem_answers.mpr ?_,?_⟩
          · rw [String.ofList_toList]
            exact hm
          · rw [hname]
            exact hsaved.1
      | _ => cases hsaved
    · rintro ⟨x,hx,rfl⟩
      have hstart := startsWith_tempFile tagName x.1
      refine ⟨(hcovers.mem _ hstart).mpr ?_,hstart⟩
      rw [hfile x hx]
      rfl
  obtain ⟨order,horder,hfiles⟩ := exists_order hperm
  refine ⟨order,horder,?_⟩
  unfold copies
  rw [hfiles,List.flatMap_map]
  apply List.flatMap_congr
  intro x hx
  rw [hfile x (horder.subset hx),copied_eq]
  rfl

variable {processes : ℕ} {s : Savers} {m : Merging}

theorem Handed.merged {p : List Message} (hp : Handed p h)
    (htagged : ∀ message ∈ p, Tagged lower message)
    (hs : Savers.Reached lower processes h.workersQueue s) (hjoined : s.Joined)
    {tags : Word 1 → Prop} (hm : Merging.Reached tags s.temp m) {t : Word 1}
    {tagName merged : Text} (ht : getTagNameById t = some tagName)
    (hfinished : m.mergers t = .finished merged) : ∃ order : List (Word 8 × Text),
      (order.map Prod.fst).Nodup ∧ (∀ i, i ∈ order.map Prod.fst ↔ i ∈ ids t p) ∧
      (∀ x ∈ order, .result t x.1 (.ofList x.2) ∈ p) ∧
      merged = order.flatMap fun x => universalNewlines x.2 ++ ['\n'] := by
  have hprogress := hm.progress ht
  rw [hfinished] at hprogress
  obtain ⟨hnodup,hids⟩ := hp.answers t
  obtain ⟨order,horder,hmerged⟩ := hprogress.1.answers hnodup
    (fun message hmem => htagged message (hp.received message hmem).1)
    (hs.temp (hp.separate htagged) hjoined) ht
  refine ⟨order,?_,?_,?_,hmerged⟩
  · exact (horder.map Prod.fst).nodup_iff.mpr hnodup
  · intro i
    rw [(horder.map Prod.fst).mem_iff]
    exact hids i
  · intro x hx
    exact (hp.received _ (mem_answers.mp (horder.subset hx))).1

theorem Handed.tag_named {p : List Message} (hp : Handed p h)
    (htagged : ∀ message ∈ p, Tagged lower message) (t : Word 1)
    (ht : (h.resultsReceived.get? t).isSome = true) : (getTagNameById t).isSome = true := by
  obtain ⟨i,text,hm⟩ := hp.tags t ht
  obtain ⟨tagName,hname,-⟩ := htagged _ hm t i text rfl
  rw [hname]
  rfl

/-- In whatever order the workers save and the processes of the queries read, copy
and remove: nothing raises at any time, and the file of a query has each of its
results once. -/
theorem merged_results (hh : receiveResults messages ResultHandler.start = some h)
    (htagged : ∀ message ∈ messages, Tagged lower message) :
    ∃ p, p <+: messages ∧ (h.running = true → p = messages) ∧
      ∀ s, Savers.Reached lower processes h.workersQueue s → s.raised = 0 ∧
        (s.Joined → ∀ m,
          Merging.Reached (fun t => (h.resultsReceived.get? t).isSome = true) s.temp m →
          ∀ t, m.mergers t ≠ .raised ∧ ∀ tagName merged, getTagNameById t = some tagName →
            m.mergers t = .finished merged → ∃ order : List (Word 8 × Text),
              (order.map Prod.fst).Nodup ∧ (∀ i, i ∈ order.map Prod.fst ↔ i ∈ ids t p) ∧
              (∀ x ∈ order, .result t x.1 (.ofList x.2) ∈ p) ∧
              merged = order.flatMap fun x => universalNewlines x.2 ++ ['\n']) := by
  obtain ⟨p,hpart,hrunning,hp⟩ := handed hh
  have htagged' : ∀ message ∈ p, Tagged lower message :=
    fun message hmem => htagged message (hpart.subset hmem)
  refine ⟨p,hpart,hrunning,fun s hs => ?_⟩
  obtain ⟨saved,hsaves⟩ := hs.saves (hp.separate htagged')
  refine ⟨hsaves.raised,fun hjoined m hm t => ⟨hm.not_raised (hp.tag_named htagged') t,?_⟩⟩
  exact fun tagName merged ht hfinished => hp.merged htagged' hs hjoined hm ht hfinished

end

section
open ResultHandler

/-- Where only ASCII letters occur. -/
def asciiLower (s : Text) : Text := s.map Char.toLower

theorem oneResult_saved (lower : Text → Text) (results : List Message) (m : Message)
    (name text : Text) (hm : saveTempResults lower m = some (name,text)) (hresults : results = [m]) :
    Savers.Reached lower 1 results ⟨[],[],0,0,append name text .empty⟩ := by
  subst hresults
  refine .step (.step (.step .start (.put rfl Nat.zero_lt_one)) (.get rfl Nat.zero_lt_one)) ?_
  exact .save rfl hm

theorem oneResult_merged (tags : Word 1 → Prop) (t : Word 1) (tagName name text : Text)
    (htag : tags t) (ht : getTagNameById t = some tagName)
    (hstart : startsWith tagName name = true) :
    ∃ m, Merging.Reached tags (append name text .empty) m ∧
      m.mergers t = .finished (copied text) := by
  have hfile : append name text .empty name = some text := append_new rfl
  have hlists : Lists (append name text .empty) [name] := by
    refine ⟨List.nodup_singleton name,?_⟩
    intro other
    rw [List.mem_singleton]
    rcases eq_or_ne other name with rfl | hne
    · rw [hfile]
      exact ⟨fun _ => rfl,fun _ => rfl⟩
    · rw [append_of_ne hne]
      exact ⟨fun h => absurd h hne,nofun⟩
  have hone : ∀ {s : Merging} {m : Merger} {d : Directory},
      Merging.Reached tags (append name text .empty) s → Merger.Step tagName (s.mergers t) s.temp m d →
      Merging.Reached tags (append name text .empty) ⟨Function.update s.mergers t m,d⟩ :=
    fun hs hstep => hs.step (.merge htag ht hstep)
  have hlist := hone .start (.list hlists)
  have hcopy := hone hlist (by
    dsimp only
    rw [Function.update_self]
    exact .copy hstart hfile)
  have hclose := hone hcopy (by
    dsimp only
    rw [Function.update_self]
    exact .close)
  have hagain := hone hclose (by
    dsimp only
    rw [Function.update_self]
    exact .listAgain hlists)
  have hremove := hone hagain (by
    dsimp only
    rw [Function.update_self]
    exact .remove hstart (by rw [hfile]; rfl))
  have hfinish := hone hremove (by
    dsimp only
    rw [Function.update_self]
    exact .finish)
  exact ⟨_,hfinish,Function.update_self ..⟩

/-- A client that got one result, twice. -/
theorem merged_results_oneResult : ∃ order : List (Word 8 × Text),
    (∀ i, i ∈ order.map Prod.fst ↔ i = 7) ∧
      "[TRES_ESCALAS]L\n".toList = order.flatMap fun x => universalNewlines x.2 ++ ['\n'] := by
  have hh : receiveResults [.result 2 7 "[TRES_ESCALAS]L",.result 2 7 "[TRES_ESCALAS]L"]
      ResultHandler.start = some ⟨true,[.result 2 7 "[TRES_ESCALAS]L"],
        (Dict.empty.set 2 {7}).set 2 {7},.empty⟩ := rfl
  have htagged : ∀ message ∈ [Message.result 2 7 "[TRES_ESCALAS]L",.result 2 7 "[TRES_ESCALAS]L"],
      Tagged asciiLower message := by
    intro message hmem t i text hm
    have hmessage : message = .result 2 7 "[TRES_ESCALAS]L" := by simpa using hmem
    rw [hmessage] at hm
    cases hm
    exact ⟨"tres_escalas".toList,rfl,by decide⟩
  have hs := oneResult_saved asciiLower [.result 2 7 "[TRES_ESCALAS]L"] (.result 2 7 "[TRES_ESCALAS]L")
    "tres_escalas_7.txt".toList "[TRES_ESCALAS]L".toList (by decide) rfl
  obtain ⟨m,hm,hfinished⟩ := oneResult_merged
    (fun t =>
      (((Dict.empty.set 2 {7}).set 2 {7} : Dict (Word 1) (Finset (Word 8))).get? t).isSome = true)
    2 "tres_escalas".toList "tres_escalas_7.txt".toList "[TRES_ESCALAS]L".toList (by decide) rfl
    (by decide)
  obtain ⟨p,-,hp,hall⟩ := merged_results hh htagged
  obtain ⟨order,-,hids,-,hmerged⟩ :=
    ((hall _ hs).2 ⟨rfl,rfl,rfl⟩ m hm 2).2 "tres_escalas".toList _ rfl hfinished
  refine ⟨order,?_,hmerged⟩
  intro i
  rw [hids,hp rfl]
  have hone : ids 2 [.result 2 7 "[TRES_ESCALAS]L",.result 2 7 "[TRES_ESCALAS]L"] = {7} := by decide
  rw [hone,Finset.mem_singleton]

end
end FlightsOptimizer.ResultFiles
