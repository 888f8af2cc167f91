import FlightsOptimizer.Duplex

/-!
# What the uploads come to

The processes of the client and of the server take turns as they like, but the
client has one message under way at most, and an ACK that it takes is the ACK of
that message, although it does not look at what the ACK says. Seen from the main
process, every run is one of the loop that writes a message and learns at once
what became of it.
-/
namespace FlightsOptimizer.Duplex
open ProtocolConnection
open Exchange (Lane Place lane answeredOnly requestedOnly)
variable {s s' : State} {sendQueue : List Message} {c c' : Client} {m : Message}

/-- What the loop makes of a message that it has written. -/
def finish (o : Outcome) (message : Message) (c : Client) : Option Client :=
  match o with
  | .acked => some (receiveAck message (handle message c))
  | .lostBefore => reconnect message c
  | .lostAfter => reconnect message (handle message c)

/-- The message that is written is the first that is left, stamped, and it is
the current one from then on. -/
structure Wrote (c : Client) (m : Message) (c' : Client) : Prop where
  sending : c.sendingMessages = true
  step : ∀ o, step o c = finish o m c'
  left : ∃ first rest again, remaining c = first :: rest ∧ m = stamp c.possibleDuplicates first ∧
    c'.sendQueue = rest ∧ c'.sent = c.sent ++ [(again,m)] ∧
    (again = true → c.currentMessage = some first)
  current : c'.currentMessage = some m
  sending' : c'.sendingMessages = true
  handled : c'.handled = c.handled
  duplicates : c'.possibleDuplicates = c.possibleDuplicates
  eofs : c'.eofsReceived = c.eofsReceived

theorem wrote_of_write (h : write c = some (m,c')) : Wrote c m c' := by
  unfold write at h
  by_cases hs : c.sendingMessages = true
  · rw [if_pos hs] at h
    rcases hc : c.currentMessage with _ | current
    · rw [hc] at h
      rcases hq : c.sendQueue with _ | ⟨first,rest⟩
      · rw [hq] at h
        cases h
      · rw [hq] at h
        obtain ⟨rfl,rfl⟩ := Prod.mk.inj (Option.some.inj h)
        refine ⟨hs,fun o => ?_,⟨first,rest,false,?_,rfl,rfl,rfl,nofun⟩,rfl,hs,rfl,rfl,rfl⟩
        · unfold step
          rw [if_pos hs,hc,hq]
          cases o <;> rfl
        · rw [remaining,hc,hq]
          rfl
    · rw [hc] at h
      obtain ⟨rfl,rfl⟩ := Prod.mk.inj (Option.some.inj h)
      refine ⟨hs,fun o => ?_,⟨current,c.sendQueue,true,?_,rfl,rfl,rfl,fun _ => hc⟩,rfl,hs,rfl,rfl,rfl⟩
      · unfold step
        rw [if_pos hs,hc]
        cases o <;> rfl
      · rw [remaining,hc]
        rfl
  · rw [if_neg hs] at h
    cases h

theorem run_concat (outcomes : List Outcome) (o : Outcome) (c : Client) :
    run (outcomes ++ [o]) c = (run outcomes c).bind (step o) := by
  induction outcomes generalizing c with
  | nil => exact Option.bind_fun_some _
  | cons o' outcomes ih =>
      change (step o' c).bind (run (outcomes ++ [o])) = ((step o' c).bind (run outcomes)).bind (step o)
      rw [Option.bind_assoc]
      exact congrArg _ (funext ih)

/-- Only the messages of a file are left to send. -/
def Files (c : Client) : Prop := ∀ m ∈ remaining c, (fileOf m).isSome

theorem fileOf_stamp (duplicates : List (Word 8)) (m : Message) :
    fileOf (stamp duplicates m) = fileOf m := by
  cases m <;> rfl

theorem ackFor_of_fileOf (h : (fileOf m).isSome) : ∃ i t, ackFor m = some (.ack i t) := by
  cases m with
  | clientProtocol i t content => exact ⟨i,t,rfl⟩
  | eof t n duplicates => exact ⟨_,t,rfl⟩
  | _ => cases h

theorem isResultAck_of_fileOf (h : (fileOf m).isSome) : isResultAck m = false := by
  cases m with
  | resultAck => cases h
  | _ => rfl

theorem Wrote.fileOf (h : Wrote c m c') (hf : Files c) : (fileOf m).isSome := by
  obtain ⟨first,rest,again,hrem,rfl,_⟩ := h.left
  rw [fileOf_stamp]
  refine hf first ?_
  rw [hrem]
  exact List.mem_cons_self

theorem reconnect_eq_some {d : Client} (h : reconnect m c = some d) :
    ∃ i, d = {c with possibleDuplicates := c.possibleDuplicates ++ [i]} := by
  obtain ⟨i,_,hd⟩ := Option.bind_eq_some_iff.mp h
  exact ⟨i,(Option.some.inj hd).symm⟩

/-- The loop takes nothing but messages off the queue. -/
theorem Wrote.files (h : Wrote c m c') (hf : Files c) {o : Outcome} {d : Client}
    (hd : finish o m c' = some d) : Files d := by
  obtain ⟨first,rest,again,hrem,hm,hrest,_⟩ := h.left
  have hsub : ∀ m' ∈ rest, (FlightsOptimizer.ProtocolConnection.fileOf m').isSome := by
    intro m' hm'
    refine hf m' ?_
    rw [hrem]
    exact List.mem_cons_of_mem _ hm'
  have hlost : ∀ e : Client, e.currentMessage = some m → e.sendQueue = rest → Files e := by
    intro e hcur hq m' hm'
    rw [remaining,hcur,hq] at hm'
    rcases List.mem_cons.mp hm' with rfl | hm'
    · exact h.fileOf hf
    · exact hsub m' hm'
  cases o with
  | acked =>
      obtain rfl := Option.some.inj hd
      intro m' hm'
      refine hsub m' ?_
      rw [← hrest]
      exact hm'
  | lostBefore =>
      obtain ⟨i,rfl⟩ := reconnect_eq_some hd
      exact hlost _ h.current hrest
  | lostAfter =>
      obtain ⟨i,rfl⟩ := reconnect_eq_some hd
      exact hlost _ h.current hrest

/-- The messages of the files between the client and the handler, and the ACKs
between the handler and the main process. -/
def uploads (s : State) : Lane Message Message where
  wire := s.up.filter fun m => !isResultAck m
  held := match s.handler with
    | .acking m => [m]
    | _ => []
  answers := s.down.filter fun m => !isResult m
  noted := s.ackQueue.filterMap id

/-- The server has or has not handled the message that was written. -/
def Handed (m : Message) (c' d : Client) : Prop := d = c' ∨ d = handle m c'

/-- The main process is where the loop is between two writes, or it has written
a message that is somewhere on its way or lost. -/
inductive Tracks (c : Client) (s : State) : Option (Message × Place) → Prop
  | running : s.main = .running → s.client = c → Tracks c s none
  | waiting {m : Message} {c' : Client} {place : Place} : s.main = .waiting → Wrote c m c' →
      s.client = (if place = .unread then c' else handle m c') → Tracks c s (some (m,place))
  | lost {m : Message} {c' : Client} : s.main = .waiting ∨ s.main = .reconnecting →
      s.handler = .down → Wrote c m c' → Handed m c' s.client → Tracks c s none
  | done : s.main = .reconnecting → s.handler = .down → s.client = c →
      c.sendingMessages = false → Tracks c s none
  | raised {m : Message} {c' : Client} : s.main = .raised → Wrote c m c' →
      Handed m c' s.client → reconnect m s.client = none → Tracks c s none

/-- The main process follows a run of the loop. -/
def Follows (sendQueue : List Message) (s : State) : Prop :=
  ∃ outcomes c at', run outcomes (ProtocolConnection.start sendQueue) = some c ∧ Files c ∧
    uploads s = lane ackFor at' ∧ Tracks c s at'

theorem Tracks.congr {at' : Option (Message × Place)} (h : Tracks c s at')
    (hmain : s'.main = s.main) (hclient : s'.client = s.client)
    (hdown : s.handler = .down → s'.handler = .down) : Tracks c s' at' := by
  cases h with
  | running hm hc => exact .running (hmain.trans hm) (hclient.trans hc)
  | waiting hm hw hc => exact .waiting (hmain.trans hm) hw (hclient.trans hc)
  | lost hm hd hw hc =>
      exact .lost (by rwa [hmain]) (hdown hd) hw (by rwa [hclient])
  | done hm hd hc hs => exact .done (hmain.trans hm) (hdown hd) (hclient.trans hc) hs
  | raised hm hw hc hr =>
      exact .raised (hmain.trans hm) hw (by rwa [hclient]) (by rwa [hclient])

/-- A step of the other processes that leaves the uploads where they are. -/
theorem Follows.congr (h : Follows sendQueue s) (hup : uploads s' = uploads s)
    (hmain : s'.main = s.main) (hclient : s'.client = s.client)
    (hdown : s.handler = .down → s'.handler = .down) : Follows sendQueue s' := by
  obtain ⟨os,c,at',hrun,hf,hlane,ht⟩ := h
  exact ⟨os,c,at',hrun,hf,hup.trans hlane,ht.congr hmain hclient hdown⟩

theorem Tracks.ackFor {at' : Option (Message × Place)} (h : Tracks c s at') (hf : Files c) :
    ∀ m place, at' = some (m,place) → (ackFor m).isSome := by
  intro m place hat
  subst hat
  cases h with
  | waiting _ hw _ =>
      obtain ⟨i,t,hack⟩ := ackFor_of_fileOf (hw.fileOf hf)
      rw [hack]
      rfl

theorem Follows.wrote (h : Follows sendQueue s) (hmain : s.main = .running)
    (hw : write s.client = some (m,c)) :
    Follows sendQueue {send m s with client := c, main := .waiting} := by
  obtain ⟨os,d,at',hrun,hf,hlane,ht⟩ := h
  cases ht with
  | running _ hc =>
      rw [hc] at hw
      have hwrote := wrote_of_write hw
      obtain ⟨hwire,hheld,hanswers,hnoted⟩ := Lane.ext_iff.mp hlane
      change List.filter _ s.up = [] at hwire
      by_cases hd : s.handler = .down
      · refine ⟨os,d,none,hrun,hf,Lane.ext ?_ hheld hanswers hnoted,
          .lost (Or.inl rfl) hd hwrote (Or.inl rfl)⟩
        change List.filter _ (if s.handler = .down then s.up else s.up ++ [m]) = []
        rw [if_pos hd,hwire]
      · refine ⟨os,d,some (m,.unread),hrun,hf,Lane.ext ?_ hheld hanswers hnoted,
          .waiting rfl hwrote rfl⟩
        change List.filter _ (if s.handler = .down then s.up else s.up ++ [m]) = [m]
        rw [if_neg hd,List.filter_append,hwire,List.filter_singleton,
          isResultAck_of_fileOf (hwrote.fileOf hf)]
        rfl
  | waiting hm _ _ => rw [hmain] at hm; cases hm
  | lost hm _ _ _ => rw [hmain] at hm; rcases hm with hm | hm <;> cases hm
  | done hm _ _ _ => rw [hmain] at hm; cases hm
  | raised hm _ _ _ => rw [hmain] at hm; cases hm

theorem Follows.wroteInVain (h : Follows sendQueue s) (hmain : s.main = .running)
    (hw : write s.client = some (m,c)) (hd : s.handler = .down) :
    Follows sendQueue {s with client := c, main := .reconnecting} := by
  obtain ⟨os,d,at',hrun,hf,hlane,ht⟩ := h
  cases ht with
  | running _ hc =>
      rw [hc] at hw
      exact ⟨os,d,none,hrun,hf,hlane,.lost (Or.inr rfl) hd (wrote_of_write hw) (Or.inl rfl)⟩
  | waiting hm _ _ => rw [hmain] at hm; cases hm
  | lost hm _ _ _ => rw [hmain] at hm; rcases hm with hm | hm <;> cases hm
  | done hm _ _ _ => rw [hmain] at hm; cases hm
  | raised hm _ _ _ => rw [hmain] at hm; cases hm

/-- The ACK that the main process takes is the ACK of its current message. -/
theorem Follows.acked (h : Follows sendQueue s) {items : List (Option Message)}
    (ha : s.ackQueue = some m :: items) :
    Follows sendQueue (goOn (receiveItem (some m) s.client) {s with ackQueue := items}) := by
  obtain ⟨os,d,at',hrun,hf,hlane,ht⟩ := h
  obtain ⟨hwire,hheld,hanswers,hnoted⟩ := Lane.ext_iff.mp hlane
  have hcons : (lane ackFor at').noted = m :: items.filterMap id := by
    rw [← hnoted]
    change s.ackQueue.filterMap id = _
    rw [ha]
    rfl
  obtain ⟨m',rfl,hack,hrest⟩ := Exchange.noted_eq_cons hcons
  cases ht with
  | waiting hm hw hc =>
      obtain ⟨i,t,hack'⟩ := ackFor_of_fileOf (hw.fileOf hf)
      obtain rfl := Option.some.inj (hack.symm.trans hack')
      rw [if_neg nofun] at hc
      have hcur : s.client.currentMessage = some m' := by
        rw [hc]
        exact hw.current
      unfold receiveItem
      dsimp only
      rw [hcur]
      dsimp only
      have hstep : (run os (ProtocolConnection.start sendQueue)).bind (step .acked) =
          some (ProtocolConnection.receiveAck m' s.client) := by
        rw [hrun,Option.bind_some,hw.step,hc]
        rfl
      refine ⟨os ++ [.acked],_,none,(run_concat os .acked _).trans hstep,
        hw.files hf (o := .acked) (by rw [hc]; rfl),?_,.running rfl rfl⟩
      exact Lane.ext hwire hheld hanswers hrest

/-- A disconnection that the main process takes is the last item, and no answer
to its message can come any more. -/
theorem Follows.disconnected (h : Follows sendQueue s) (hl : Links s)
    {items : List (Option Message)}
    (hmain : s.main = .waiting ∨ s.main = .running ∧ s.client.sendingMessages = false)
    (ha : s.ackQueue = none :: items) :
    Follows sendQueue (goOn (receiveItem none s.client) {s with ackQueue := items}) := by
  obtain ⟨os,d,at',hrun,hf,hlane,ht⟩ := h
  obtain ⟨hwire,hheld,hanswers,hnoted⟩ := Lane.ext_iff.mp hlane
  obtain ⟨rfl,hended⟩ : items = [] ∧ s.reader = .ended := by
    obtain ⟨l,hl' | ⟨hl',he⟩⟩ := hl.items
    · rw [ha] at hl'
      cases l <;> cases hl'
    · rw [ha] at hl'
      cases l with
      | nil => exact ⟨(List.cons.inj hl').2,he⟩
      | cons m l => cases (List.cons.inj hl').1
  obtain ⟨hd,hdown⟩ := hl.ended hended
  obtain rfl : at' = none := by
    refine Exchange.eq_none (ht.ackFor hf) ?_ ?_ ?_ ?_
    · rw [← hwire]
      change List.filter _ s.up = []
      rw [hl.up hd]
      rfl
    · rw [← hheld]
      change (match s.handler with | .acking m => [m] | _ => []) = []
      rw [hd]
    · rw [← hanswers]
      change List.filter _ s.down = []
      rw [hdown]
      rfl
    · rw [← hnoted]
      change s.ackQueue.filterMap id = []
      rw [ha]
      rfl
  have hlane' : uploads (goOn (receiveItem none s.client) {s with ackQueue := []}) = lane ackFor none :=
    Lane.ext hwire hheld hanswers rfl
  refine ⟨os,d,none,hrun,hf,hlane',?_⟩
  cases ht with
  | running hm hc =>
      rcases hmain with hm' | ⟨_,hs⟩
      · rw [hm] at hm'
        cases hm'
      · exact .done rfl hd hc (by rwa [hc] at hs)
  | lost hm hd hw hc => exact .lost (Or.inr rfl) hd hw hc
  | done hm _ _ _ => rw [hm] at hmain; rcases hmain with hm | ⟨hm,_⟩ <;> cases hm
  | raised hm _ _ _ => rw [hm] at hmain; rcases hmain with hm | ⟨hm,_⟩ <;> cases hm

/-- What the client has when it has connected again is what the loop has after
the loss of its message. -/
theorem Follows.reconnected (h : Follows sendQueue s) (hmain : s.main = .reconnecting) :
    Follows sendQueue (connect s) := by
  obtain ⟨os,d,at',hrun,hf,_,ht⟩ := h
  cases ht with
  | running hm _ => rw [hmain] at hm; cases hm
  | waiting hm _ _ => rw [hmain] at hm; cases hm
  | raised hm _ _ _ => rw [hmain] at hm; cases hm
  | done _ _ hc hs =>
      unfold connect
      rw [hc,resend_of_sent hs]
      exact ⟨os,d,none,hrun,hf,rfl,.running rfl rfl⟩
  | @lost m c' _ _ hw hc =>
      have hparts : s.client.sendingMessages = true ∧ s.client.currentMessage = some m := by
        rcases hc with hc | hc <;> rw [hc]
        · exact ⟨hw.sending',hw.current⟩
        · exact ⟨hw.sending',hw.current⟩
      obtain ⟨o,hstep⟩ : ∃ o, finish o m c' = reconnect m s.client := by
        rcases hc with hc | hc <;> rw [hc]
        · exact ⟨.lostBefore,rfl⟩
        · exact ⟨.lostAfter,rfl⟩
      unfold connect
      rw [resend_of_current hparts.1 hparts.2]
      rcases hr : reconnect m s.client with _ | c''
      · exact ⟨os,d,none,hrun,hf,rfl,.raised rfl hw hc hr⟩
      · refine ⟨os ++ [o],c'',none,?_,hw.files hf (hstep.trans hr),rfl,.running rfl rfl⟩
        rw [run_concat,hrun,Option.bind_some,hw.step,hstep,hr]

/-- An answer that the reader reads is the ACK of the message under way. -/
theorem Follows.noted (h : Follows sendQueue s) {rest : List Message} (hr : isResult m = false)
    (hd : s.down = m :: rest) : Follows sendQueue (read m {s with down := rest}) := by
  obtain ⟨os,d,at',hrun,hf,hlane,ht⟩ := h
  obtain ⟨hwire,hheld,hanswers,hnoted⟩ := Lane.ext_iff.mp hlane
  have hcons : (lane ackFor at').answers = m :: rest.filter (fun m => !isResult m) := by
    rw [← hanswers]
    change s.down.filter (fun m => !isResult m) = _
    rw [hd,List.filter_cons_of_pos (by rw [hr]; rfl)]
  obtain ⟨m',rfl,hack,hrest⟩ := Exchange.answers_eq_cons hcons
  unfold read
  rw [hr]
  refine ⟨os,d,some (m',.noted),hrun,hf,Lane.ext hwire hheld hrest ?_,?_⟩
  · change (s.ackQueue ++ [some m]).filterMap id = (ackFor m').toList
    have hempty : s.ackQueue.filterMap id = [] := hnoted
    rw [List.filterMap_append,hempty,hack]
    rfl
  · cases ht with
    | waiting hm hw hc => exact .waiting hm hw hc

/-- The handler handles the message under way. -/
theorem Follows.taken (h : Follows sendQueue s) {rest : List Message} (hr : isResultAck m = false)
    (hu : s.up = m :: rest) :
    Follows sendQueue (serve m {s with up := rest}) := by
  obtain ⟨os,d,at',hrun,hf,hlane,ht⟩ := h
  obtain ⟨hwire,hheld,hanswers,hnoted⟩ := Lane.ext_iff.mp hlane
  have hcons : (lane ackFor at').wire = m :: rest.filter (fun m => !isResultAck m) := by
    rw [← hwire]
    change s.up.filter (fun m => !isResultAck m) = _
    rw [hu,List.filter_cons_of_pos (by rw [hr]; rfl)]
  obtain ⟨rfl,hrest⟩ := Exchange.wire_eq_cons hcons
  unfold serve
  rw [hr]
  refine ⟨os,d,some (m,.held),hrun,hf,Lane.ext hrest rfl hanswers hnoted,?_⟩
  cases ht with
  | waiting hm hw hc =>
      refine .waiting hm hw ?_
      change handle m s.client = handle m _
      rw [hc]
      rfl

theorem Follows.answered (h : Follows sendQueue s) {ack : Message} (ha : s.handler = .acking m)
    (hack : ackFor m = some ack) :
    Follows sendQueue {s with handler := .listening, down := s.down ++ [ack]} := by
  obtain ⟨os,d,at',hrun,hf,hlane,ht⟩ := h
  obtain ⟨hwire,hheld,hanswers,hnoted⟩ := Lane.ext_iff.mp hlane
  have hcons : (lane ackFor at').held = [m] := by
    rw [← hheld]
    change (match s.handler with | .acking m => [m] | _ => []) = [m]
    rw [ha]
  obtain ⟨rfl,_⟩ := Exchange.held_eq_cons hcons
  refine ⟨os,d,some (m,.answered),hrun,hf,Lane.ext hwire rfl ?_ hnoted,?_⟩
  · change (s.down ++ [ack]).filter (fun m => !isResult m) = (ackFor m).toList
    have hempty : s.down.filter (fun m => !isResult m) = [] := hanswers
    have hkind : isResult ack = false := by
      cases m <;> cases hack <;> rfl
    rw [List.filter_append,hempty,hack,List.filter_singleton,hkind]
    rfl
  · cases ht with
    | waiting hm hw hc => exact .waiting hm hw hc

/-- With the reader an ACK on its way is lost, and none has been taken. -/
theorem Follows.readerEnded (h : Follows sendQueue s) (hd : s.handler = .down) :
    Follows sendQueue {s with reader := .ended, down := [], ackQueue := s.ackQueue ++ [none]} := by
  obtain ⟨os,d,at',hrun,hf,hlane,ht⟩ := h
  obtain ⟨hwire,hheld,hanswers,hnoted⟩ := Lane.ext_iff.mp hlane
  have hqueue : (s.ackQueue ++ [none]).filterMap id = s.ackQueue.filterMap id := by
    rw [List.filterMap_append]
    exact List.append_nil _
  cases ht with
  | @waiting m c' place hm hw hc =>
      by_cases hp : place = .answered
      · subst hp
        refine ⟨os,d,none,hrun,hf,Lane.ext hwire hheld rfl (hqueue.trans hnoted),
          .lost (Or.inl hm) hd hw (Or.inr hc)⟩
      · refine ⟨os,d,some (m,place),hrun,hf,Lane.ext hwire hheld ?_ (hqueue.trans hnoted),
          .waiting hm hw hc⟩
        cases place with
        | answered => exact absurd rfl hp
        | unread => rfl
        | held => rfl
        | noted => rfl
  | running hm hc =>
      exact ⟨os,d,none,hrun,hf,Lane.ext hwire hheld rfl (hqueue.trans hnoted),.running hm hc⟩
  | lost hm hd hw hc =>
      exact ⟨os,d,none,hrun,hf,Lane.ext hwire hheld rfl (hqueue.trans hnoted),.lost hm hd hw hc⟩
  | done hm hd hc hs =>
      exact ⟨os,d,none,hrun,hf,Lane.ext hwire hheld rfl (hqueue.trans hnoted),.done hm hd hc hs⟩
  | raised hm hw hc hr =>
      exact ⟨os,d,none,hrun,hf,Lane.ext hwire hheld rfl (hqueue.trans hnoted),.raised hm hw hc hr⟩

/-- With the server a message on its way is lost, handled or not. -/
theorem Follows.wentDown (h : Follows sendQueue s) : Follows sendQueue
    {s with handler := .down, uploader := .idle, up := [], ackResultsQueue := []} := by
  obtain ⟨os,d,at',hrun,hf,hlane,ht⟩ := h
  obtain ⟨hwire,hheld,hanswers,hnoted⟩ := Lane.ext_iff.mp hlane
  have hrest : lane ackFor (answeredOnly at') = ⟨[],[],_,_⟩ := Exchange.lane_answeredOnly at'
  rw [← hanswers,← hnoted] at hrest
  refine ⟨os,d,answeredOnly at',hrun,hf,hrest.symm,?_⟩
  cases ht with
  | @waiting m c' place hm hw hc =>
      cases place with
      | unread => exact .lost (Or.inl hm) rfl hw (Or.inl hc)
      | held => exact .lost (Or.inl hm) rfl hw (Or.inr hc)
      | answered => exact .waiting hm hw hc
      | noted => exact .waiting hm hw hc
  | running hm hc => exact .running hm hc
  | lost hm _ hw hc => exact .lost hm rfl hw hc
  | done hm _ hc hs => exact .done hm rfl hc hs
  | raised hm hw hc hr => exact .raised hm hw hc hr

theorem follows_connected (hq : ∀ m ∈ sendQueue, (fileOf m).isSome) :
    Follows sendQueue (connected sendQueue) :=
  ⟨[],ProtocolConnection.start sendQueue,none,rfl,hq,rfl,.running rfl rfl⟩

theorem Follows.step (h : Follows sendQueue s) (hl : Links s) (hs : Step s s') :
    Follows sendQueue s' := by
  cases hs with
  | write hmain hw => exact h.wrote hmain hw
  | writeRaises hmain hw hd => exact h.wroteInVain hmain hw hd
  | @receiveItem item items hmain ha =>
      cases item with
      | none => exact h.disconnected hl hmain ha
      | some m => exact h.acked ha
  | connect hmain _ => exact h.reconnected hmain
  | @read m rest _ hd =>
      cases hr : isResult m with
      | false => exact h.noted hr hd
      | true =>
          unfold Duplex.read
          rw [hr]
          refine h.congr (Lane.ext rfl rfl ?_ rfl) rfl rfl id
          change rest.filter (fun m => !isResult m) = s.down.filter _
          rw [hd,List.filter_cons_of_neg (by rw [hr]; exact nofun)]
  | ackResult _ =>
      refine h.congr (Lane.ext ?_ rfl rfl rfl) rfl rfl id
      change List.filter _ (if s.handler = .down then s.up else s.up ++ [.resultAck]) = s.up.filter _
      split_ifs
      · rfl
      · rw [List.filter_append]
        exact List.append_nil _
  | readerEnds hd _ => exact h.readerEnded hd
  | @serve m rest hli hu =>
      cases hr : isResultAck m with
      | false => exact h.taken hr hu
      | true =>
          unfold Duplex.serve
          rw [hr]
          refine h.congr (Lane.ext ?_ rfl rfl rfl) rfl rfl id
          change rest.filter (fun m => !isResultAck m) = s.up.filter _
          rw [hu,List.filter_cons_of_neg (by rw [hr]; exact nofun)]
  | sendAck ha hack => exact h.answered ha hack
  | @upload r rest _ _ hq =>
      refine h.congr (Lane.ext rfl rfl ?_ rfl) rfl rfl id
      have hr : isResult r = true := hl.results r (by rw [hq]; exact List.mem_cons_self)
      change (s.down ++ [r]).filter (fun m => !isResult m) = s.down.filter _
      rw [List.filter_append,List.filter_singleton,hr]
      exact List.append_nil _
  | takeAck _ _ => exact h.congr rfl rfl rfl id
  | confirm _ _ => exact h.congr rfl rfl rfl id
  | publish r _ => exact h.congr rfl rfl rfl id
  | goDown => exact h.wentDown

theorem Reaches.links (h : Reaches sendQueue s) : Links s := by
  induction h with
  | refl => exact links_connected sendQueue
  | tail _ hs ih => exact ih.step hs

theorem Reaches.follows (h : Reaches sendQueue s) (hq : ∀ m ∈ sendQueue, (fileOf m).isSome) :
    Follows sendQueue s := by
  induction h with
  | refl => exact follows_connected hq
  | tail hr hs ih => exact ih.step (Reaches.links hr) hs

/-- A result comes before the first batch is written, the server handles the
batch and goes down, and the client connects again. -/
theorem interrupted : ∃ s, Reaches twoFiles s ∧ s.handler ≠ .down ∧ s.main ≠ .raised ∧
    s.client.handled = [.clientProtocol first .airport "EZE"] ∧
    s.resultsQueue = [.resultEof ⟨1,by decide⟩ first] := by
  have h := (Relation.ReflTransGen.refl (r := Step) (a := connected twoFiles)).tail
    (.publish (.resultEof ⟨1,by decide⟩ first) rfl)
  have h := h.tail (.upload nofun rfl rfl)
  have h := h.tail (.read rfl rfl)
  have h := h.tail (.write rfl rfl)
  have h := h.tail (.serve rfl rfl)
  have h := h.tail .goDown
  have h := h.tail (.readerEnds rfl nofun)
  have h := h.tail (.receiveItem (Or.inl rfl) rfl)
  have h := h.tail (.connect rfl rfl)
  exact ⟨_,h,nofun,nofun,rfl,rfl⟩

/-- Whatever the order of the steps and wherever the server goes down, the
client and what the server has handled are where the loop comes to under some
outcomes, or in the middle of its next write; it is out with an exception only
where the loop stops. -/
theorem upload_follows (hq : ∀ m ∈ sendQueue, (fileOf m).isSome) (h : Reaches sendQueue s) :
    ∃ outcomes c, run outcomes (ProtocolConnection.start sendQueue) = some c ∧
      (s.client = c ∨ ∃ m c', Wrote c m c' ∧ Handed m c' s.client) ∧
      (s.main = .raised →
        ∃ o, run (outcomes ++ [o]) (ProtocolConnection.start sendQueue) = none) := by
  obtain ⟨os,c,at',hrun,_,_,ht⟩ := h.follows hq
  refine ⟨os,c,hrun,?_⟩
  cases ht with
  | running hm hc => exact ⟨Or.inl hc,fun hr => by rw [hm] at hr; cases hr⟩
  | @waiting m c' place hm hw hc =>
      refine ⟨Or.inr ⟨m,c',hw,?_⟩,fun hr => by rw [hm] at hr; cases hr⟩
      by_cases hp : place = .unread
      · rw [if_pos hp] at hc
        exact Or.inl hc
      · rw [if_neg hp] at hc
        exact Or.inr hc
  | lost hm hd hw hc =>
      refine ⟨Or.inr ⟨_,_,hw,hc⟩,fun hr => ?_⟩
      rw [hr] at hm
      rcases hm with hm | hm <;> cases hm
  | done hm _ hc _ => exact ⟨Or.inl hc,fun hr => by rw [hm] at hr; cases hr⟩
  | @raised m c' hm hw hc hr =>
      refine ⟨Or.inr ⟨m,c',hw,hc⟩,fun _ => ?_⟩
      rcases hc with hc | hc
      · refine ⟨.lostBefore,?_⟩
        rw [run_concat,hrun,Option.bind_some,hw.step]
        change reconnect m _ = none
        rw [← hc]
        exact hr
      · refine ⟨.lostAfter,?_⟩
        rw [run_concat,hrun,Option.bind_some,hw.step]
        change reconnect m _ = none
        rw [← hc]
        exact hr

theorem upload_follows_interrupted : ∃ (s : State) (outcomes : List Outcome) (c : Client),
    s.client.handled.length = 1 ∧
    run outcomes (ProtocolConnection.start twoFiles) = some c ∧
    (s.client = c ∨ ∃ m c', Wrote c m c' ∧ Handed m c' s.client) := by
  obtain ⟨s,hs,_,_,hhandled,_⟩ := interrupted
  obtain ⟨os,c,hrun,hc,_⟩ := upload_follows twoFiles_merged.files hs
  exact ⟨s,os,c,by rw [hhandled]; rfl,hrun,hc⟩

end FlightsOptimizer.Duplex
