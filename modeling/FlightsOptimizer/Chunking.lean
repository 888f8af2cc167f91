import FlightsOptimizer.CommunicationBuffer

/-!
# Frames and the cutting of the stream

What a call of `get_message` hands to the parser, whether or not the parser
accepts it. The calls hand over the segments of the stream before each first
delimiter, one after another, and then find the peer disconnected; the pieces in
which the socket returned the stream play no part in it.
-/
namespace FlightsOptimizer
open Framing

/-- The pieces that `recv` returns of a stream. -/
def Cutting (stream : Bytes) : Type := {sock : List Chunk // sock.flatMap Subtype.val = stream}

namespace CommunicationBuffer

def ofCutting {stream : Bytes} (c : Cutting stream) : CommunicationBuffer := ⟨c.val,[]⟩

/-- `get_message` up to the call of `Message.from_bytes`: the line that it is
called with, or none where `PeerDisconnected` is raised. -/
def receiveLine : List Chunk → Bytes → Option Bytes × CommunicationBuffer
  | [], buffer =>
      match splitFirst endOfMessage buffer with
      | some (line,rest) => (some line,⟨[],rest⟩)
      | none => (none,⟨[],buffer⟩)
  | data :: sock, buffer =>
      match splitFirst endOfMessage buffer with
      | some (line,rest) => (some line,⟨data :: sock,rest⟩)
      | none => receiveLine sock (buffer ++ data)

def getLine (b : CommunicationBuffer) : Option Bytes × CommunicationBuffer :=
  receiveLine b.sock b.buffer

def outcome : Option Bytes → Except GetMessageError Message
  | some line => parse line
  | none => .error .peerDisconnected

theorem receive_eq (sock : List Chunk) (buffer : Bytes) :
    receive sock buffer = (outcome (receiveLine sock buffer).1,(receiveLine sock buffer).2) := by
  induction sock generalizing buffer with
  | nil =>
      unfold receive receiveLine
      cases splitFirst endOfMessage buffer <;> rfl
  | cons data sock ih =>
      unfold receive receiveLine
      cases splitFirst endOfMessage buffer with
      | none => exact ih _
      | some p => rfl

/-- A call returns what the parser makes of the line, or raises without one. -/
theorem getMessage_eq (b : CommunicationBuffer) :
    b.getMessage = (outcome b.getLine.1,b.getLine.2) := receive_eq b.sock b.buffer

/-- The buffer after some calls. -/
def after : ℕ → CommunicationBuffer → CommunicationBuffer
  | 0, b => b
  | n+1, b => after n b.getMessage.2

/-- What successive calls hand to the parser. -/
def passed : ℕ → CommunicationBuffer → List (Option Bytes)
  | 0, _ => []
  | n+1, b => b.getLine.1 :: passed n b.getMessage.2

theorem getMessages_eq (n : ℕ) (b : CommunicationBuffer) :
    getMessages n b = (passed n b).map outcome := by
  induction n generalizing b with
  | zero => rfl
  | succ n ih =>
      rw [getMessages,passed,ih,List.map_cons,getMessage_eq]

theorem outcome_eq_peerDisconnected {line : Option Bytes} :
    outcome line = .error .peerDisconnected ↔ line = none := by
  cases line with
  | none => exact iff_of_true rfl rfl
  | some line =>
      cases hm : Message.fromBytes line <;> simp [outcome,parse,hm]

theorem receiveLine_some {sock : List Chunk} {buffer line rest : Bytes}
    (h : splitFirst endOfMessage (buffer ++ sock.flatMap Subtype.val) = some (line,rest)) :
    (receiveLine sock buffer).1 = some line := by
  induction sock generalizing buffer with
  | nil =>
      rw [List.flatMap_nil,List.append_nil] at h
      simp only [receiveLine,h]
  | cons data sock ih =>
      cases hs : splitFirst endOfMessage buffer with
      | none =>
          rw [List.flatMap_cons,← List.append_assoc] at h
          simp only [receiveLine,hs]
          exact ih h
      | some p =>
          rw [splitFirst_append hs] at h
          cases h
          simp only [receiveLine,hs]

variable {b : CommunicationBuffer}

theorem getLine_some {line rest : Bytes} (h : splitFirst endOfMessage b.unread = some (line,rest)) :
    b.getLine.1 = some line ∧ b.getMessage.2.unread = rest :=
  ⟨receiveLine_some h,(getMessage_some h).2⟩

theorem getLine_none (h : splitFirst endOfMessage b.unread = none) :
    b.getLine.1 = none ∧ b.getMessage.2.unread = b.unread := by
  obtain ⟨herror,hunread⟩ := getMessage_none h
  rw [getMessage_eq] at herror
  exact ⟨outcome_eq_peerDisconnected.mp herror,hunread⟩

/-- The peer is disconnected where no delimiter is left, whatever came before. -/
theorem getMessage_peerDisconnected :
    b.getMessage.1 = .error .peerDisconnected ↔ ¬ endOfMessage <:+: b.unread := by
  rw [getMessage_eq,outcome_eq_peerDisconnected]
  cases hs : splitFirst endOfMessage b.unread with
  | none => exact iff_of_true (getLine_none hs).1 (splitFirst_none hs)
  | some p =>
      obtain ⟨line,rest⟩ := p
      rw [(getLine_some hs).1]
      exact iff_of_false (Option.some_ne_none line)
        (not_not_intro ⟨line,rest,(splitFirst_some hs).1.symm⟩)

/-- Calls that find no delimiter leave everything as it is. -/
theorem passed_rest (h : ¬ endOfMessage <:+: b.unread) (n : ℕ) :
    passed n b = List.replicate n none ∧ (after n b).unread = b.unread := by
  induction n generalizing b with
  | zero => exact ⟨rfl,rfl⟩
  | succ n ih =>
      obtain ⟨hline,hunread⟩ := getLine_none (splitFirst_eq_none h)
      obtain ⟨hpassed,hafter⟩ := ih (by rwa [hunread])
      refine ⟨?_,hafter.trans hunread⟩
      rw [passed,hline,hpassed,List.replicate_succ]

/-- The calls hand over the segments of what is unread. -/
theorem passed_segments {stream rest : Bytes} {segments : List Bytes}
    (h : Segments endOfMessage stream segments rest) (hb : b.unread = stream) (n : ℕ) :
    passed n b = (segments.map some ++ List.replicate n none).take n ∧
      (after n b).unread = ((segments.drop n).flatMap fun a => a ++ endOfMessage) ++ rest := by
  induction h generalizing b n with
  | rest hrest =>
      rw [← hb] at hrest
      obtain ⟨hpassed,hafter⟩ := passed_rest hrest n
      refine ⟨?_,?_⟩
      · rw [hpassed,List.map_nil,List.nil_append,List.take_of_length_le]
        rw [List.length_replicate]
      · rw [hafter,hb,List.drop_nil]
        rfl
  | @cons a l rest segments first hsegments ih =>
      cases n with
      | zero =>
          refine ⟨rfl,?_⟩
          rw [List.drop_zero,List.flatMap_cons,List.append_assoc,← hsegments.eq]
          exact hb
      | succ n =>
          have hs : splitFirst endOfMessage b.unread = some (a,l) := by
            rw [hb]
            exact splitFirst_of_first rfl first
          obtain ⟨hline,hunread⟩ := getLine_some hs
          obtain ⟨hpassed,hafter⟩ := ih hunread n
          refine ⟨?_,hafter⟩
          rw [passed,hline,hpassed,List.map_cons,List.cons_append,List.take_succ_cons]
          congr 1
          have hle : n ≤ (segments.map some ++ List.replicate n none).length := by
            rw [List.length_append,List.length_replicate]
            exact Nat.le_add_left n _
          rw [List.replicate_succ',← List.append_assoc,List.take_append_of_le_length hle]

theorem endOfMessage_ne_nil : endOfMessage ≠ [] := List.cons_ne_nil _ _

/-- However a stream is cut, the calls hand the same segments to the parser, and
the peer is disconnected exactly where the rest has no delimiter. -/
theorem passed_cutting (stream : Bytes) :
    ∃ segments rest, Segments endOfMessage stream segments rest ∧
      ∀ (c : Cutting stream) (n : ℕ),
        passed n (ofCutting c) = (segments.map some ++ List.replicate n none).take n ∧
        (after n (ofCutting c)).unread =
          ((segments.drop n).flatMap fun a => a ++ endOfMessage) ++ rest ∧
        ((after n (ofCutting c)).getMessage.1 = .error .peerDisconnected ↔
          ¬ endOfMessage <:+: (after n (ofCutting c)).unread) := by
  obtain ⟨segments,rest,h⟩ := exists_segments endOfMessage_ne_nil stream
  refine ⟨segments,rest,h,?_⟩
  intro c n
  have hunread : (ofCutting c).unread = stream := c.property
  obtain ⟨hpassed,hafter⟩ := passed_segments h hunread n
  exact ⟨hpassed,hafter,getMessage_peerDisconnected⟩

end CommunicationBuffer
end FlightsOptimizer
