import FlightsOptimizer.DuplexResults
import FlightsOptimizer.Reconnection
import FlightsOptimizer.Runs

/-!
# A server that stays up

While the server stays up and publishes no more results, the processes cannot
wait for each other in a circle, nor can they go on forever. However they take
turns, they come to the end of the uploads and of the results.
-/
namespace FlightsOptimizer.Duplex
open ProtocolConnection Relation
open Exchange (Lane Place lane)
open Reconnection (InOrder)
variable {s s' : State} {sendQueue : List Message} {m : Message}

/-- A step with the server up before and after it, and no further result. -/
def Work (s s' : State) : Prop :=
  Step s s' ∧ s.handler ≠ .down ∧ s'.handler ≠ .down ∧ s'.published = s.published

/-- The messages that the client has to write. -/
def toWrite (s : State) : ℕ :=
  s.client.sendQueue.length + if s.main = .running then s.client.currentMessage.toList.length else 0

/-- What is left to do. -/
def weight (s : State) : ℕ :=
  5*toWrite s + (uploads s).weight +
    (6*s.queue.length + (downloads s).weight + if s.uploader = .idle then 5 else 0)

/-- What holds of every state that is reached, with the server up. -/
structure Sound (sendQueue : List Message) (s : State) : Prop where
  links : Links s
  follows : Follows sendQueue s
  brings : Brings s

theorem Sound.step (h : Sound sendQueue s) (hs : Step s s') : Sound sendQueue s' :=
  ⟨h.links.step hs,h.follows.step h.links hs,h.brings.step h.follows h.links hs⟩

theorem Reaches.sound (h : Reaches sendQueue s) (hq : ∀ m ∈ sendQueue, (fileOf m).isSome) :
    Sound sendQueue s :=
  ⟨h.links,h.follows hq,h.brings hq⟩

theorem uploads_weight (s : State) : (uploads s).weight =
    4*(s.up.filter fun m => !isResultAck m).length +
      3*(match s.handler with | .acking m => [m] | _ => ([] : List Message)).length +
      2*(s.down.filter fun m => !isResult m).length + (s.ackQueue.filterMap id).length := rfl

theorem downloads_weight (s : State) : (downloads s).weight =
    4*(s.down.filter isResult).length +
      3*(match s.reader with | .acking m => [m] | _ => ([] : List Message)).length +
      2*(s.up.filter isResultAck).length + s.ackResultsQueue.length := rfl

theorem weight_write (hmain : s.main = .running) (hup : s.handler ≠ .down) {c : Client}
    (hw : write s.client = some (m,c)) (hm : isResultAck m = false) :
    weight {send m s with client := c, main := .waiting} < weight s := by
  obtain ⟨first,rest,again,hrem,_,hrest,_⟩ := (wrote_of_write hw).left
  have hto : toWrite s = rest.length+1 := by
    have hlen := congrArg List.length hrem
    rw [remaining,List.length_append,List.length_cons] at hlen
    unfold toWrite
    rw [if_pos hmain]
    omega
  have hto' : toWrite {send m s with client := c, main := .waiting} = rest.length := by
    have hne : ¬ Main.waiting = Main.running := by
      intro h
      cases h
    unfold toWrite
    rw [if_neg hne]
    exact congrArg List.length hrest
  have hupl : (uploads {send m s with client := c, main := .waiting}).weight =
      (uploads s).weight + 4 := by
    simp only [uploads_weight,send,if_neg hup,List.filter_append,List.length_append,
      List.filter_singleton,hm]
    simp
    omega
  have hdown : (downloads {send m s with client := c, main := .waiting}).weight =
      (downloads s).weight := by
    simp only [downloads_weight,send,if_neg hup,List.filter_append,List.length_append,
      List.filter_singleton,hm]
    simp
  unfold weight
  rw [hto,hto',hupl,hdown]
  change 5*rest.length + _ + (6*s.queue.length + _ + if s.uploader = .idle then 5 else 0) < _
  omega

/-- An ACK finds the main process waiting for it. -/
theorem Follows.ack_awaited (h : Follows sendQueue s) {items : List (Option Message)}
    (ha : s.ackQueue = some m :: items) : s.main = .waiting ∧ (∃ i t, m = .ack i t) ∧
      ∃ message, s.client.currentMessage = some message := by
  obtain ⟨os,d,at',_,hf,hlane,ht⟩ := h
  obtain ⟨_,_,_,hnoted⟩ := Lane.ext_iff.mp hlane
  have hcons : (lane ackFor at').noted = m :: items.filterMap id := by
    rw [← hnoted]
    change s.ackQueue.filterMap id = _
    rw [ha]
    rfl
  obtain ⟨m',rfl,hack,_⟩ := Exchange.noted_eq_cons hcons
  cases ht with
  | waiting hm hw hc =>
      obtain ⟨i,t,hack'⟩ := ackFor_of_fileOf (hw.fileOf hf)
      refine ⟨hm,⟨i,t,Option.some.inj (hack.symm.trans hack')⟩,m',?_⟩
      rw [if_neg nofun] at hc
      rw [hc]
      exact hw.current

theorem Sound.weight_receiveItem (h : Sound sendQueue s) (hup : s.handler ≠ .down)
    {item : Option Message} {items : List (Option Message)} (ha : s.ackQueue = item :: items) :
    weight (goOn (receiveItem item s.client) {s with ackQueue := items}) < weight s := by
  cases item with
  | none =>
      obtain ⟨l,hl | ⟨_,he⟩⟩ := h.links.items
      · rw [ha] at hl
        cases l <;> cases hl
      · exact absurd (h.links.ended he).1 hup
  | some m =>
      obtain ⟨hmain,⟨i,t,rfl⟩,message,hcur⟩ := h.follows.ack_awaited ha
      unfold receiveItem goOn
      dsimp only
      rw [hcur]
      have hne : ¬ Main.waiting = Main.running := nofun
      simp only [weight,toWrite,uploads_weight,downloads_weight,receiveAck,ha,hmain,if_neg hne,
        List.filterMap_cons,id,List.length_cons,if_true,Option.toList_none,List.length_nil]
      omega

theorem weight_read {rest : List Message} (hl : s.reader = .listening) (hd : s.down = m :: rest) :
    weight (read m {s with down := rest}) < weight s := by
  unfold read
  cases hr : isResult m with
  | true =>
      simp only [if_true,weight,toWrite,uploads_weight,downloads_weight,hl,hd,List.filter_cons,hr,
        Bool.not_true,Bool.false_eq_true,if_false,List.length_cons,List.length_nil]
      omega
  | false =>
      simp only [if_false,Bool.false_eq_true,weight,toWrite,uploads_weight,downloads_weight,hl,hd,
        List.filter_cons,hr,Bool.not_false,if_true,List.length_cons,List.length_nil,
        List.filterMap_append,List.length_append,List.filterMap_cons,id,List.filterMap_nil]
      omega

theorem weight_ackResult (hup : s.handler ≠ .down) (ha : s.reader = .acking m) :
    weight {send .resultAck s with reader := .listening} < weight s := by
  simp only [weight,toWrite,uploads_weight,downloads_weight,send,if_neg hup,ha,List.filter_append,
    List.length_append,List.filter_singleton,isResultAck,List.length_cons,List.length_nil]
  simp
  omega

theorem weight_serve {rest : List Message} (hl : s.handler = .listening) (hu : s.up = m :: rest) :
    weight (serve m {s with up := rest}) < weight s := by
  unfold serve
  cases hr : isResultAck m with
  | true =>
      simp only [if_true,weight,toWrite,uploads_weight,downloads_weight,hl,hu,List.filter_cons,hr,
        Bool.not_true,Bool.false_eq_true,if_false,List.length_cons,List.length_nil,
        List.length_append]
      omega
  | false =>
      simp only [if_false,Bool.false_eq_true,weight,toWrite,uploads_weight,downloads_weight,hl,hu,
        List.filter_cons,hr,Bool.not_false,if_true,List.length_cons,List.length_nil,handle]
      omega

theorem weight_sendAck {ack : Message} (ha : s.handler = .acking m) (hack : ackFor m = some ack) :
    weight {s with handler := .listening, down := s.down ++ [ack]} < weight s := by
  have hkind : isResult ack = false := by
    cases m <;> cases hack <;> rfl
  simp only [weight,toWrite,uploads_weight,downloads_weight,ha,List.filter_append,
    List.length_append,List.filter_singleton,hkind,List.length_cons,List.length_nil]
  simp
  omega

theorem weight_upload (hr : isResult m = true) (hi : s.uploader = .idle) :
    weight {s with uploader := .waiting, down := s.down ++ [m]} < weight s := by
  simp only [weight,toWrite,uploads_weight,downloads_weight,hi,List.filter_append,
    List.length_append,List.filter_singleton,hr]
  simp
  omega

theorem weight_takeAck {ack : Message} {acks : List Message} (hw : s.uploader = .waiting)
    (ha : s.ackResultsQueue = ack :: acks) :
    weight {s with uploader := .answered, ackResultsQueue := acks} < weight s := by
  simp only [weight,toWrite,uploads_weight,downloads_weight,hw,ha,List.length_cons]
  simp

theorem weight_confirm {rest : List Message} (ha : s.uploader = .answered)
    (hq : s.queue = m :: rest) :
    weight {s with uploader := .idle, queue := rest, confirmed := s.confirmed ++ [m]} <
      weight s := by
  simp only [weight,toWrite,uploads_weight,downloads_weight,ha,hq,List.length_cons]
  simp
  omega

/-- A client that reconnects has lost the server. -/
theorem Follows.down_of_reconnecting (h : Follows sendQueue s) (hmain : s.main = .reconnecting) :
    s.handler = .down := by
  obtain ⟨_,_,_,_,_,_,ht⟩ := h
  cases ht with
  | running hm _ => rw [hmain] at hm; cases hm
  | waiting hm _ _ => rw [hmain] at hm; cases hm
  | lost _ hd _ _ => exact hd
  | done _ hd _ _ => exact hd
  | raised hm _ _ _ => rw [hmain] at hm; cases hm

theorem Sound.weight_lt (h : Sound sendQueue s) (hs : Work s s') : weight s' < weight s := by
  obtain ⟨hs,hup,hup',hpub⟩ := hs
  cases hs with
  | write hmain hw => exact weight_write hmain hup hw (h.follows.not_resultAck hmain hw)
  | writeRaises _ _ hd => exact absurd hd hup
  | receiveItem _ ha => exact h.weight_receiveItem hup ha
  | connect hmain _ => exact absurd (h.follows.down_of_reconnecting hmain) hup
  | read hl hd => exact weight_read hl hd
  | ackResult ha => exact weight_ackResult hup ha
  | readerEnds hd _ => exact absurd hd hup
  | serve hl hu => exact weight_serve hl hu
  | sendAck ha hack => exact weight_sendAck ha hack
  | upload _ hi hq =>
      exact weight_upload (h.links.results _ (by rw [hq]; exact List.mem_cons_self)) hi
  | takeAck hw ha => exact weight_takeAck hw ha
  | confirm ha hq => exact weight_confirm ha hq
  | publish r _ =>
      have hlen : (s.published ++ [r]).length = s.published.length := congrArg List.length hpub
      rw [List.length_append,List.length_singleton] at hlen
      omega
  | goDown => exact absurd rfl hup'

theorem Sound.reader_up (h : Sound sendQueue s) (hup : s.handler ≠ .down) :
    s.reader = .listening ∨ ∃ r, s.reader = .acking r := by
  cases hr : s.reader with
  | listening => exact Or.inl rfl
  | acking r => exact Or.inr ⟨r,rfl⟩
  | ended => exact absurd (h.links.ended hr).1 hup

theorem work_of_acking (hup : s.handler ≠ .down) (ha : s.reader = .acking m) : ∃ t, Work s t :=
  ⟨_,.ackResult ha,hup,hup,rfl⟩

/-- Something that the server has written can be read. -/
theorem Sound.work_of_down (h : Sound sendQueue s) (hup : s.handler ≠ .down) (hd : s.down ≠ []) :
    ∃ t, Work s t := by
  rcases h.reader_up hup with hl | ⟨r,ha⟩
  · obtain ⟨m,rest,hm⟩ := List.exists_cons_of_ne_nil hd
    refine ⟨_,.read hl hm,hup,?_,?_⟩ <;> unfold read <;> split_ifs <;> first | exact hup | rfl
  · exact work_of_acking hup ha

/-- What the handler has handled can be acknowledged. -/
theorem Sound.work_of_held (h : Sound sendQueue s) (ha : s.handler = .acking m) :
    ∃ t, Work s t := by
  obtain ⟨os,d,at',_,hf,hlane,ht⟩ := h.follows
  have hcons : (lane ackFor at').held = [m] := by
    rw [← hlane]
    change (match s.handler with | .acking m => [m] | _ => []) = [m]
    rw [ha]
  obtain ⟨rfl,_⟩ := Exchange.held_eq_cons hcons
  obtain ⟨ack,hack⟩ := Option.isSome_iff_exists.mp (ht.ackFor hf m _ rfl)
  refine ⟨_,.sendAck ha hack,?_,nofun,rfl⟩
  rw [ha]
  exact nofun

/-- Something that the client has written can be read. -/
theorem Sound.work_of_up (h : Sound sendQueue s) (hup : s.handler ≠ .down) (hu : s.up ≠ []) :
    ∃ t, Work s t := by
  cases hl : s.handler with
  | down => exact absurd hl hup
  | acking m => exact h.work_of_held hl
  | listening =>
      obtain ⟨m,rest,hm⟩ := List.exists_cons_of_ne_nil hu
      refine ⟨_,.serve hl hm,hup,?_,?_⟩ <;> unfold serve <;> split_ifs
      · exact hup
      · exact nofun
      · rfl
      · rfl

/-- A client that waits for an ACK waits for a step of somebody. -/
theorem Sound.work_of_waiting (h : Sound sendQueue s) (hup : s.handler ≠ .down)
    (hmain : s.main = .waiting) : ∃ t, Work s t := by
  obtain ⟨os,d,at',_,hf,hlane,ht⟩ := h.follows
  obtain ⟨hwire,hheld,hanswers,hnoted⟩ := Lane.ext_iff.mp hlane
  cases ht with
  | @waiting m c' place _ hw hc =>
      obtain ⟨i,t,hack⟩ := ackFor_of_fileOf (hw.fileOf hf)
      cases place with
      | unread =>
          refine h.work_of_up hup fun hnil => ?_
          change s.up.filter (fun m => !isResultAck m) = [m] at hwire
          rw [hnil] at hwire
          cases hwire
      | held =>
          change (match s.handler with | .acking m => [m] | _ => []) = [m] at hheld
          cases hh : s.handler with
          | acking m' => exact h.work_of_held hh
          | listening => rw [hh] at hheld; cases hheld
          | down => exact absurd hh hup
      | answered =>
          refine h.work_of_down hup fun hnil => ?_
          change s.down.filter (fun m => !isResult m) = (ackFor m).toList at hanswers
          rw [hnil,hack] at hanswers
          cases hanswers
      | noted =>
          change s.ackQueue.filterMap id = (ackFor m).toList at hnoted
          rcases ha : s.ackQueue with _ | ⟨item,items⟩
          · rw [ha,hack] at hnoted
            cases hnoted
          · exact ⟨_,.receiveItem (Or.inl hmain) ha,hup,hup,rfl⟩
  | lost _ hd _ _ => exact absurd hd hup
  | running hm _ => rw [hmain] at hm; cases hm
  | done hm _ _ _ => rw [hmain] at hm; cases hm
  | raised hm _ _ _ => rw [hmain] at hm; cases hm

/-- So does an uploader that waits for its acknowledgement. -/
theorem Sound.work_of_uploader (h : Sound sendQueue s) (hup : s.handler ≠ .down)
    (hw : s.uploader = .waiting) : ∃ t, Work s t := by
  obtain ⟨at',n,hu,_⟩ := h.brings
  obtain ⟨hwire,hheld,hanswers,hnoted⟩ := Lane.ext_iff.mp hu.lane
  obtain ⟨⟨r,place⟩,rfl⟩ := Option.isSome_iff_exists.mp (hu.waiting hw)
  cases place with
  | unread =>
      refine h.work_of_down hup fun hnil => ?_
      change s.down.filter isResult = [r] at hwire
      rw [hnil] at hwire
      cases hwire
  | held =>
      change (match s.reader with | .acking r => [r] | _ => []) = [r] at hheld
      rcases h.reader_up hup with hl | ⟨r',ha⟩
      · rw [hl] at hheld
        cases hheld
      · exact work_of_acking hup ha
  | answered =>
      refine h.work_of_up hup fun hnil => ?_
      change s.up.filter isResultAck = [.resultAck] at hanswers
      rw [hnil] at hanswers
      cases hanswers
  | noted =>
      change s.ackResultsQueue = [.resultAck] at hnoted
      exact ⟨_,.takeAck hw hnoted,hup,hup,rfl⟩

/-- Only with nothing left to write and to upload is there no step. -/
theorem Sound.nothing_left (h : Sound sendQueue s) (hup : s.handler ≠ .down)
    (hraised : s.main ≠ .raised) (hend : ∀ t, ¬ Work s t) :
    write s.client = none ∧ s.queue = [] := by
  have hmain : s.main = .running := by
    cases hm : s.main with
    | running => rfl
    | waiting =>
        obtain ⟨t,ht⟩ := h.work_of_waiting hup hm
        exact absurd ht (hend t)
    | reconnecting => exact absurd (h.follows.down_of_reconnecting hm) hup
    | raised => exact absurd hm hraised
  constructor
  · rcases hw : write s.client with _ | ⟨m,c⟩
    · rfl
    · exact absurd ⟨.write hmain hw,hup,hup,rfl⟩ (hend _)
  · rcases hq : s.queue with _ | ⟨r,rest⟩
    · rfl
    · cases hu : s.uploader with
      | idle => exact absurd ⟨.upload hup hu hq,hup,hup,rfl⟩ (hend _)
      | waiting =>
          obtain ⟨t,ht⟩ := h.work_of_uploader hup hu
          exact absurd ht (hend t)
      | answered => exact absurd ⟨.confirm hu hq,hup,hup,rfl⟩ (hend _)

/-- The invariant of the runs with the server up. -/
structure Live (sendQueue : List Message) (s : State) : Prop where
  reaches : Reaches sendQueue s
  up : s.handler ≠ .down
  not_raised : s.main ≠ .raised

theorem Live.work (h : Live sendQueue s) (hq : ∀ m ∈ sendQueue, (fileOf m).isSome)
    (hs : Work s s') : Live sendQueue s' := by
  refine ⟨h.reaches.tail hs.1,hs.2.2.1,?_⟩
  obtain ⟨hs,hup,_,_⟩ := hs
  have hraised := h.not_raised
  cases hs with
  | write _ _ => exact nofun
  | writeRaises _ _ hd => exact absurd hd hup
  | @receiveItem item items _ ha =>
      cases item with
      | none => exact nofun
      | some m =>
          obtain ⟨_,⟨i,t,rfl⟩,message,hcur⟩ := (h.reaches.follows hq).ack_awaited ha
          unfold Duplex.receiveItem
          dsimp only
          rw [hcur]
          exact nofun
  | connect hmain _ =>
      exact absurd ((h.reaches.follows hq).down_of_reconnecting hmain) hup
  | read _ _ => unfold Duplex.read; split_ifs <;> exact hraised
  | serve _ _ => unfold Duplex.serve; split_ifs <;> exact hraised
  | _ => exact hraised

theorem published_of_work (h : ReflTransGen Work s s') : s'.published = s.published := by
  induction h with
  | refl => rfl
  | tail _ hs ih => exact hs.2.2.2.trans ih

theorem remaining_of_write {c : Client} (hw : write c = none) (hc : InOrder sendQueue c) :
    remaining c = [] := by
  cases hs : c.sendingMessages with
  | false => exact hc.nothingLeft hs
  | true =>
      unfold write at hw
      rw [if_pos hs] at hw
      rcases hcur : c.currentMessage with _ | m
      · rcases hq : c.sendQueue with _ | ⟨m,rest⟩
        · rw [remaining,hcur,hq]
          rfl
        · rw [hcur,hq] at hw
          cases hw
      · rw [hcur] at hw
        cases hw

/-- From any state that is reached, with the server up and the client not out,
the processes cannot go on forever without going down or publishing; and where
they have come to a stop, however they took turns, the server has handled the
whole queue and the client has all the results. -/
theorem all_delivered (hq : Merged sendQueue) (h : Reaches sendQueue s) (hup : s.handler ≠ .down)
    (hraised : s.main ≠ .raised) : Acc (fun t s => Work s t) s ∧
    ∀ t, ReflTransGen Work s t → (∀ u, ¬ Work t u) →
      Repeated sendQueue (t.client.handled.map strip) ∧ Repeated s.published t.resultsQueue := by
  have hlive : Live sendQueue s := ⟨h,hup,hraised⟩
  refine ⟨Runs.terminates weight (fun hl hs => hl.work hq.files hs)
    (fun hl hs => (hl.reaches.sound hq.files).weight_lt hs) hlive,fun t ht hend => ?_⟩
  obtain ⟨hreach,hup',hraised'⟩ := Runs.keeps (fun hl hs => hl.work hq.files hs) ht hlive
  have hsound := hreach.sound hq.files
  obtain ⟨hwrite,hqueue⟩ := hsound.nothing_left hup' hraised' hend
  have horder : InOrder sendQueue t.client := hreach.inOrder hq
  have hrem := remaining_of_write hwrite horder
  obtain ⟨done,once,n,hdone,hrep,hhandled⟩ := horder.handled
  rw [hrem,List.map_nil,List.append_nil] at hdone
  obtain ⟨at',k,_,hg⟩ := hsound.brings
  obtain ⟨once',hrep',hresults⟩ := hg.results
  have hall := hg.all
  rw [hqueue,List.append_nil] at hall
  constructor
  · rw [hhandled,hrem,hdone]
    exact (List.append_nil once).symm ▸ hrep
  · rw [hresults,hqueue,← published_of_work ht,hall]
    exact (List.append_nil once').symm ▸ hrep'

theorem all_delivered_interrupted : ∃ s : State, s.client.handled.length = 1 ∧
    Acc (fun t s => Work s t) s ∧
    ∀ t, ReflTransGen Work s t → (∀ u, ¬ Work t u) →
      Repeated twoFiles (t.client.handled.map strip) ∧ Repeated s.published t.resultsQueue := by
  obtain ⟨s,hs,hup,hraised,hhandled,_⟩ := interrupted
  exact ⟨s,by rw [hhandled]; rfl,all_delivered twoFiles_merged hs hup hraised⟩

end FlightsOptimizer.Duplex
