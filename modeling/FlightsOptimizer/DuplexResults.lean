import FlightsOptimizer.DuplexUploads

/-!
# What the results come to

The uploader gives a result up to the client and confirms it to the broker only
when the client has acknowledged it. A result whose acknowledgement is lost with
the server is uploaded again, so the client has every confirmed result, each one
or more times, in the order in which they were published.
-/
namespace FlightsOptimizer.Duplex
open ProtocolConnection
open Exchange (Lane Place lane answeredOnly requestedOnly)
variable {s s' : State} {sendQueue : List Message} {m : Message}

/-- The results between the uploader and the reader of the client, and the
acknowledgements on their way back. -/
def downloads (s : State) : Lane Message Message where
  wire := s.down.filter isResult
  held := match s.reader with
    | .acking result => [result]
    | _ => []
  answers := s.up.filter isResultAck
  noted := s.ackResultsQueue

/-- Every result is answered alike. -/
def acknowledged (_ : Message) : Option Message := some .resultAck

/-- The result under way is the first of the queue, and the uploader waits for
it unless the server has gone down since. -/
structure Uploading (s : State) (at' : Option (Message × Place)) : Prop where
  lane : downloads s = lane acknowledged at'
  first : ∀ result place, at' = some (result,place) → ∃ rest, s.queue = result :: rest
  waiting : s.uploader = .waiting → at'.isSome
  idle : s.handler ≠ .down → s.uploader ≠ .waiting → at' = none
  answered : s.uploader = .answered → ∃ result rest, s.queue = result :: rest

/-- The client has got the confirmed results and, `n` times, the first of the
queue. -/
structure Got (s : State) (at' : Option (Message × Place)) (n : ℕ) : Prop where
  all : s.published = s.confirmed ++ s.queue
  results : ∃ once, Repeated s.confirmed once ∧
    s.resultsQueue = once ++ (s.queue.take 1).flatMap (List.replicate n)
  answered : s.uploader = .answered → 0 < n
  read : ∀ result place, at' = some (result,place) → place ≠ .unread → 0 < n

def Brings (s : State) : Prop := ∃ at' n, Uploading s at' ∧ Got s at' n

theorem brings_connected (sendQueue : List Message) : Brings (connected sendQueue) :=
  ⟨none,0,⟨rfl,nofun,nofun,fun _ _ => rfl,nofun⟩,⟨rfl,⟨[],.nil,rfl⟩,nofun,nofun⟩⟩

/-- A step of the other processes that leaves the results where they are. -/
theorem Brings.congr (h : Brings s) (hdown : downloads s' = downloads s)
    (hqueue : s'.queue = s.queue) (hall : s'.published = s.published ∧ s'.confirmed = s.confirmed)
    (hresults : s'.resultsQueue = s.resultsQueue) (huploader : s'.uploader = s.uploader)
    (hhandler : s'.handler ≠ .down → s.handler ≠ .down) : Brings s' := by
  obtain ⟨at',n,hu,hg⟩ := h
  refine ⟨at',n,⟨hdown.trans hu.lane,?_,?_,?_,?_⟩,⟨?_,?_,?_,hg.read⟩⟩
  · rw [hqueue]
    exact hu.first
  · rw [huploader]
    exact hu.waiting
  · rw [huploader]
    exact fun hd => hu.idle (hhandler hd)
  · rw [huploader,hqueue]
    exact hu.answered
  · rw [hall.1,hall.2,hqueue]
    exact hg.all
  · rw [hall.2,hresults,hqueue]
    exact hg.results
  · rw [huploader]
    exact hg.answered

theorem Brings.reconnected (h : Brings s) : Brings (connect s) := by
  obtain ⟨at',n,hu,hg⟩ := h
  have hafter : ∀ t : State, downloads t = lane acknowledged none → t.uploader = .idle →
      t.queue = s.queue → t.published = s.published → t.confirmed = s.confirmed →
      t.resultsQueue = s.resultsQueue → Brings t := by
    intro t hlane hidle hqueue hpub hconf hresults
    refine ⟨none,n,⟨hlane,nofun,?_,fun _ _ => rfl,?_⟩,⟨?_,?_,?_,nofun⟩⟩
    · rw [hidle]
      exact nofun
    · rw [hidle]
      exact nofun
    · rw [hpub,hconf,hqueue]
      exact hg.all
    · rw [hconf,hresults,hqueue]
      exact hg.results
    · rw [hidle]
      exact nofun
  exact hafter _ rfl rfl rfl rfl rfl rfl

/-- The reader puts the first of the queue once more into the results queue. -/
theorem Brings.taken (h : Brings s) {rest : List Message} (hr : isResult m = true)
    (hd : s.down = m :: rest) : Brings (read m {s with down := rest}) := by
  obtain ⟨at',n,hu,hg⟩ := h
  obtain ⟨hwire,hheld,hanswers,hnoted⟩ := Lane.ext_iff.mp hu.lane
  have hcons : (lane acknowledged at').wire = m :: rest.filter isResult := by
    rw [← hwire]
    change s.down.filter isResult = _
    rw [hd,List.filter_cons_of_pos hr]
  obtain ⟨rfl,hrest⟩ := Exchange.wire_eq_cons hcons
  obtain ⟨queue,hqueue⟩ := hu.first m _ rfl
  obtain ⟨once,hrep,hresults⟩ := hg.results
  unfold read
  rw [hr]
  refine ⟨some (m,.held),n+1,⟨Lane.ext hrest rfl hanswers hnoted,?_,fun _ => rfl,?_,hu.answered⟩,
    ⟨hg.all,⟨once,hrep,?_⟩,fun _ => n.succ_pos,fun _ _ _ _ => n.succ_pos⟩⟩
  · intro result place he
    cases he
    exact ⟨queue,hqueue⟩
  · intro hne hw
    cases hu.idle hne hw
  · change s.resultsQueue ++ [m] = once ++ (s.queue.take 1).flatMap (List.replicate (n+1))
    rw [hresults,hqueue]
    simp [List.replicate_succ']

theorem Brings.acked (h : Brings s) (hl : Links s) (ha : s.reader = .acking m) :
    Brings {send .resultAck s with reader := .listening} := by
  obtain ⟨at',n,hu,hg⟩ := h
  obtain ⟨hwire,hheld,hanswers,hnoted⟩ := Lane.ext_iff.mp hu.lane
  have hcons : (lane acknowledged at').held = [m] := by
    rw [← hheld]
    change (match s.reader with | .acking r => [r] | _ => []) = [m]
    rw [ha]
  obtain ⟨rfl,_⟩ := Exchange.held_eq_cons hcons
  by_cases hd : s.handler = .down
  · refine ⟨none,n,⟨Lane.ext hwire rfl ?_ hnoted,nofun,fun hw => ?_,fun _ _ => rfl,hu.answered⟩,
      ⟨hg.all,hg.results,hg.answered,nofun⟩⟩
    · change List.filter _ (if s.handler = .down then s.up else s.up ++ [.resultAck]) = []
      rw [if_pos hd,hl.up hd]
      rfl
    · have hidle : s.uploader = .waiting := hw
      rw [(hl.noted hd).1] at hidle
      cases hidle
  · refine ⟨some (m,.answered),n,⟨Lane.ext hwire rfl ?_ hnoted,?_,fun _ => rfl,fun _ hw => ?_,
      hu.answered⟩,⟨hg.all,hg.results,hg.answered,?_⟩⟩
    · change List.filter _ (if s.handler = .down then s.up else s.up ++ [.resultAck]) = [.resultAck]
      have hempty : s.up.filter isResultAck = [] := hanswers
      rw [if_neg hd,List.filter_append,hempty]
      rfl
    · intro result place he
      cases he
      exact hu.first m _ rfl
    · cases hu.idle hd hw
    · intro result place he _
      exact hg.read m .held rfl nofun

theorem Brings.readerEnded (h : Brings s) (hl : Links s) (hd : s.handler = .down) :
    Brings {s with reader := .ended, down := [], ackQueue := s.ackQueue ++ [none]} := by
  obtain ⟨at',n,hu,hg⟩ := h
  obtain ⟨_,_,_,hnoted⟩ := Lane.ext_iff.mp hu.lane
  refine ⟨none,n,⟨Lane.ext rfl rfl ?_ (hl.noted hd).2,nofun,fun hw => ?_,fun _ _ => rfl,
    hu.answered⟩,⟨hg.all,hg.results,hg.answered,nofun⟩⟩
  · change s.up.filter isResultAck = []
    rw [hl.up hd]
    rfl
  · have hidle : s.uploader = .waiting := hw
    rw [(hl.noted hd).1] at hidle
    cases hidle

/-- The handler passes on the acknowledgement of the result under way. -/
theorem Brings.noted (h : Brings s) {rest : List Message} (hr : isResultAck m = true)
    (hu' : s.up = m :: rest) : Brings (serve m {s with up := rest}) := by
  obtain ⟨at',n,hu,hg⟩ := h
  obtain ⟨hwire,hheld,hanswers,hnoted⟩ := Lane.ext_iff.mp hu.lane
  have hcons : (lane acknowledged at').answers = m :: rest.filter isResultAck := by
    rw [← hanswers]
    change s.up.filter isResultAck = _
    rw [hu',List.filter_cons_of_pos hr]
  obtain ⟨r,rfl,hack,hrest⟩ := Exchange.answers_eq_cons hcons
  unfold serve
  rw [hr]
  refine ⟨some (r,.noted),n,⟨Lane.ext hwire hheld hrest ?_,?_,fun _ => rfl,?_,hu.answered⟩,
    ⟨hg.all,hg.results,hg.answered,?_⟩⟩
  · change s.ackResultsQueue ++ [m] = (acknowledged r).toList
    have hempty : s.ackResultsQueue = [] := hnoted
    rw [hempty,hack]
    rfl
  · intro result place he
    cases he
    exact hu.first r _ rfl
  · intro hne hw
    cases hu.idle hne hw
  · intro result place he _
    exact hg.read r .answered rfl nofun

theorem Brings.uploaded (h : Brings s) (hl : Links s) {rest : List Message}
    (hne : s.handler ≠ .down) (hi : s.uploader = .idle) (hq : s.queue = m :: rest) :
    Brings {s with uploader := .waiting, down := s.down ++ [m]} := by
  obtain ⟨at',n,hu,hg⟩ := h
  obtain rfl := hu.idle hne (by rw [hi]; exact nofun)
  obtain ⟨hwire,hheld,hanswers,hnoted⟩ := Lane.ext_iff.mp hu.lane
  have hr : isResult m = true := hl.results m (by rw [hq]; exact List.mem_cons_self)
  refine ⟨some (m,.unread),n,⟨Lane.ext ?_ hheld hanswers hnoted,?_,fun _ => rfl,
    fun _ hw => absurd rfl hw,nofun⟩,⟨hg.all,hg.results,nofun,?_⟩⟩
  · change (s.down ++ [m]).filter isResult = [m]
    have hempty : s.down.filter isResult = [] := hwire
    rw [List.filter_append,hempty,List.filter_singleton,hr]
    rfl
  · intro result place he
    cases he
    exact ⟨rest,hq⟩
  · intro result place he hp
    cases he
    exact absurd rfl hp

theorem Brings.answered (h : Brings s) {ack : Message} {acks : List Message}
    (ha : s.ackResultsQueue = ack :: acks) :
    Brings {s with uploader := .answered, ackResultsQueue := acks} := by
  obtain ⟨at',n,hu,hg⟩ := h
  obtain ⟨hwire,hheld,hanswers,hnoted⟩ := Lane.ext_iff.mp hu.lane
  have hcons : (lane acknowledged at').noted = ack :: acks := by
    rw [← hnoted]
    exact ha
  obtain ⟨r,rfl,_,hrest⟩ := Exchange.noted_eq_cons hcons
  refine ⟨none,n,⟨Lane.ext hwire hheld hanswers hrest,nofun,nofun,fun _ _ => rfl,fun _ => ?_⟩,
    ⟨hg.all,hg.results,fun _ => hg.read r .noted rfl nofun,nofun⟩⟩
  exact ⟨r,hu.first r _ rfl⟩

/-- The broker drops the first of the queue, which the client has. -/
theorem Brings.confirmed (h : Brings s) (hl : Links s) {rest : List Message}
    (ha : s.uploader = .answered) (hq : s.queue = m :: rest) :
    Brings {s with uploader := .idle, queue := rest, confirmed := s.confirmed ++ [m]} := by
  obtain ⟨at',n,hu,hg⟩ := h
  have hne : s.handler ≠ .down := by
    intro hd
    rw [(hl.noted hd).1] at ha
    cases ha
  obtain rfl := hu.idle hne (by rw [ha]; exact nofun)
  obtain ⟨once,hrep,hresults⟩ := hg.results
  obtain ⟨k,rfl⟩ := Nat.exists_eq_succ_of_ne_zero (hg.answered ha).ne'
  refine ⟨none,0,⟨hu.lane,nofun,nofun,fun _ _ => rfl,nofun⟩,
    ⟨?_,⟨once ++ List.replicate (k+1) m,?_,?_⟩,nofun,nofun⟩⟩
  · change s.published = s.confirmed ++ [m] ++ rest
    rw [hg.all,hq,List.append_assoc]
    rfl
  · exact hrep.append (by simpa using Repeated.cons m k Repeated.nil)
  · change s.resultsQueue = _ ++ (rest.take 1).flatMap (List.replicate 0)
    rw [hresults,hq]
    simp

theorem Brings.published (h : Brings s) (r : Message) :
    Brings {s with published := s.published ++ [r], queue := s.queue ++ [r]} := by
  obtain ⟨at',n,hu,hg⟩ := h
  obtain ⟨once,hrep,hresults⟩ := hg.results
  have hall : s.published ++ [r] = s.confirmed ++ (s.queue ++ [r]) := by
    rw [hg.all,List.append_assoc]
  rcases hq : s.queue with _ | ⟨first,rest⟩
  · -- nothing of an empty queue is under way
    have hnone : at' = none := by
      rcases at' with _ | ⟨r',place⟩
      · rfl
      · obtain ⟨rest,hrest⟩ := hu.first r' place rfl
        rw [hq] at hrest
        cases hrest
    have hanswered : s.uploader ≠ .answered := by
      intro ha
      obtain ⟨r',rest,hrest⟩ := hu.answered ha
      rw [hq] at hrest
      cases hrest
    subst hnone
    rw [hq] at hresults hall
    refine ⟨none,0,⟨hu.lane,nofun,hu.waiting,hu.idle,fun ha => absurd ha hanswered⟩,
      ⟨hall,⟨once,hrep,?_⟩,fun ha => absurd ha hanswered,nofun⟩⟩
    change s.resultsQueue = _
    rw [hresults]
    simp
  · rw [hq] at hresults hall
    refine ⟨at',n,⟨hu.lane,fun result place he => ?_,hu.waiting,hu.idle,fun _ => ⟨first,_,rfl⟩⟩,
      ⟨hall,⟨once,hrep,hresults⟩,hg.answered,hg.read⟩⟩
    obtain ⟨rest',hrest'⟩ := hu.first result place he
    rw [hq] at hrest'
    obtain ⟨rfl,_⟩ := List.cons.inj hrest'
    exact ⟨_,rfl⟩

/-- With the server an acknowledgement on its way is lost, but not the result. -/
theorem Brings.wentDown (h : Brings s) : Brings
    {s with handler := .down, uploader := .idle, up := [], ackResultsQueue := []} := by
  obtain ⟨at',n,hu,hg⟩ := h
  obtain ⟨hwire,hheld,_,_⟩ := Lane.ext_iff.mp hu.lane
  have hrest : lane acknowledged (requestedOnly at') = ⟨_,_,[],[]⟩ :=
    Exchange.lane_requestedOnly at'
  rw [← hwire,← hheld] at hrest
  have hsome : ∀ x, requestedOnly at' = some x → at' = some x := by
    intro x hx
    exact (Option.filter_eq_some_iff.mp hx).1
  refine ⟨requestedOnly at',n,⟨hrest.symm,fun r place he => hu.first r place (hsome _ he),nofun,
    fun hd => absurd rfl hd,nofun⟩,⟨hg.all,hg.results,nofun,fun r place he => ?_⟩⟩
  exact hg.read r place (hsome _ he)

/-- What the client uploads is not taken for an acknowledgement. -/
theorem Follows.not_resultAck (h : Follows sendQueue s) {c : Client} (hmain : s.main = .running)
    (hw : write s.client = some (m,c)) : isResultAck m = false := by
  obtain ⟨os,d,at',_,hf,_,ht⟩ := h
  cases ht with
  | running _ hc =>
      rw [hc] at hw
      exact isResultAck_of_fileOf ((wrote_of_write hw).fileOf hf)
  | waiting hm _ _ => rw [hmain] at hm; cases hm
  | lost hm _ _ _ => rw [hmain] at hm; rcases hm with hm | hm <;> cases hm
  | done hm _ _ _ => rw [hmain] at hm; cases hm
  | raised hm _ _ _ => rw [hmain] at hm; cases hm

theorem Brings.step (h : Brings s) (hf : Follows sendQueue s) (hl : Links s) (hs : Step s s') :
    Brings s' := by
  cases hs with
  | @write m c hmain hw =>
      refine h.congr (Lane.ext rfl rfl ?_ rfl) rfl ⟨rfl,rfl⟩ rfl rfl id
      change List.filter _ (if s.handler = .down then s.up else s.up ++ [m]) = s.up.filter _
      split_ifs
      · rfl
      · rw [List.filter_append,List.filter_singleton,hf.not_resultAck hmain hw]
        exact List.append_nil _
  | writeRaises _ _ _ => exact h.congr rfl rfl ⟨rfl,rfl⟩ rfl rfl id
  | receiveItem _ _ => exact h.congr rfl rfl ⟨rfl,rfl⟩ rfl rfl id
  | connect _ _ => exact h.reconnected
  | @read m rest _ hd =>
      cases hr : isResult m with
      | true => exact h.taken hr hd
      | false =>
          unfold Duplex.read
          rw [hr]
          refine h.congr (Lane.ext ?_ rfl rfl rfl) rfl ⟨rfl,rfl⟩ rfl rfl id
          change rest.filter isResult = s.down.filter isResult
          rw [hd,List.filter_cons_of_neg (by rw [hr]; exact nofun)]
  | ackResult ha => exact h.acked hl ha
  | readerEnds hd _ => exact h.readerEnded hl hd
  | @serve m rest hli hu =>
      have hne : s.handler ≠ .down := by rw [hli]; exact nofun
      cases hr : isResultAck m with
      | true => exact h.noted hr hu
      | false =>
          unfold Duplex.serve
          rw [hr]
          refine h.congr (Lane.ext rfl rfl ?_ rfl) rfl ⟨rfl,rfl⟩ rfl rfl fun _ => hne
          change rest.filter isResultAck = s.up.filter isResultAck
          rw [hu,List.filter_cons_of_neg (by rw [hr]; exact nofun)]
  | @sendAck m ack ha hack =>
      have hne : s.handler ≠ .down := by rw [ha]; exact nofun
      refine h.congr (Lane.ext ?_ rfl rfl rfl) rfl ⟨rfl,rfl⟩ rfl rfl fun _ => hne
      have hkind : isResult ack = false := by
        cases m <;> cases hack <;> rfl
      change (s.down ++ [ack]).filter isResult = s.down.filter isResult
      rw [List.filter_append,List.filter_singleton,hkind]
      exact List.append_nil _
  | upload hne hi hq => exact h.uploaded hl hne hi hq
  | takeAck _ ha => exact h.answered ha
  | confirm ha hq => exact h.confirmed hl ha hq
  | publish r _ => exact h.published r
  | goDown => exact h.wentDown

theorem Reaches.brings (h : Reaches sendQueue s) (hq : ∀ m ∈ sendQueue, (fileOf m).isSome) :
    Brings s := by
  induction h with
  | refl => exact brings_connected sendQueue
  | tail hr hs ih => exact ih.step (Reaches.follows hr hq) (Reaches.links hr) hs

/-- The client has every result that the broker has dropped, one or more times,
then the next any number of times, and no other: nothing is lost with the
server, and the results come in the order in which they were published. -/
theorem results_inOrder (hq : ∀ m ∈ sendQueue, (fileOf m).isSome) (h : Reaches sendQueue s) :
    s.published = s.confirmed ++ s.queue ∧ ∃ once n, Repeated s.confirmed once ∧
      s.resultsQueue = once ++ (s.queue.take 1).flatMap (List.replicate n) := by
  obtain ⟨at',n,_,hg⟩ := h.brings hq
  obtain ⟨once,hrep,hresults⟩ := hg.results
  exact ⟨hg.all,once,n,hrep,hresults⟩

theorem results_inOrder_interrupted : ∃ (s : State) (once : List Message) (n : ℕ),
    s.resultsQueue.length = 1 ∧
    Repeated s.confirmed once ∧
    s.resultsQueue = once ++ (s.queue.take 1).flatMap (List.replicate n) := by
  obtain ⟨s,hs,_,_,_,hresults⟩ := interrupted
  obtain ⟨_,once,n,hrep,h⟩ := results_inOrder twoFiles_merged.files hs
  exact ⟨s,once,n,by rw [hresults]; rfl,hrep,h⟩

end FlightsOptimizer.Duplex
