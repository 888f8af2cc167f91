import FlightsOptimizer.CommunicationBuffer
import Mathlib.Tactic.IntervalCases

/-!
# Which messages survive the socket

A text without carriage returns cannot hold the delimiter, but the integers in
front of it can, alone or together with the text or the delimiter behind them.
The condition is stated here on the fields of a message, and is the exact one.
-/
namespace FlightsOptimizer
open Framing

theorem encode_eq_flatMap (text : String) :
    encode text = text.toList.flatMap String.utf8EncodeChar := by
  unfold encode
  rw [String.toUTF8_eq_toByteArray,← String.utf8Encode_toList]
  exact List.toList_data_toByteArray

/-- A byte below 128 is a character of its own. -/
theorem mem_utf8EncodeChar {c : Char} {b : UInt8} (hb : b.toNat < 128)
    (h : b ∈ String.utf8EncodeChar c) :
    c.toNat = b.toNat ∧ String.utf8EncodeChar c = [b] := by
  have hv : c.val.toNat = c.toNat := rfl
  unfold String.utf8EncodeChar at h ⊢
  dsimp only at h ⊢
  split_ifs at h ⊢ with h1 h2 h3
  · have hc : UInt8.ofNat c.val.toNat = b := (List.mem_singleton.mp h).symm
    rw [← hc,UInt8.toNat_ofNat',← hv]
    exact ⟨by omega,rfl⟩
  -- every byte of a longer encoding is at least 128
  all_goals
    exfalso
    simp only [List.mem_cons,List.not_mem_nil,or_false] at h
  · rcases h with rfl | rfl <;> rw [UInt8.toNat_ofNat'] at hb <;> omega
  · rcases h with rfl | rfl | rfl <;> rw [UInt8.toNat_ofNat'] at hb <;> omega
  · rcases h with rfl | rfl | rfl | rfl <;> rw [UInt8.toNat_ofNat'] at hb <;> omega

theorem encode_return_free {text : String} (h : '\r' ∉ text.toList) : 13 ∉ encode text := by
  rw [encode_eq_flatMap,List.mem_flatMap]
  rintro ⟨c,hc,hb⟩
  have hn := (mem_utf8EncodeChar (by decide) hb).1
  have hr : c = '\r' := Char.toNat_inj.mp hn
  exact h (hr ▸ hc)

theorem encode_eq_iff {text other : String} : encode text = encode other ↔ text = other := by
  constructor
  · intro h
    have hd := decode_encode text
    rw [h,decode_encode] at hd
    exact (Option.some.inj hd).symm
  · rintro rfl
    rfl

theorem encode_eq_nil {text : String} : encode text = [] ↔ text = "" :=
  @encode_eq_iff text ""

theorem encode_eq_newline {text : String} : encode text = [10] ↔ text = "\n" :=
  @encode_eq_iff text "\n"

theorem encode_head_newline {text : String} :
    (encode text).head? = some 10 ↔ text.toList.head? = some '\n' := by
  rw [encode_eq_flatMap]
  cases text.toList with
  | nil => simp
  | cons c chars =>
      rw [List.flatMap_cons,List.head?_append_of_ne_nil _ String.utf8EncodeChar_ne_nil,
        List.head?_cons,Option.some.injEq]
      constructor
      · intro h
        have hn := (mem_utf8EncodeChar (by decide) (List.mem_of_head? h)).1
        exact Char.toNat_inj.mp hn
      · rintro rfl
        rfl

theorem clean_text {text : Bytes} (ht : 13 ∉ text) : Clean endOfMessage text := by
  intro pre post h
  have h' : pre ++ (endOfMessage ++ post) = text ++ endOfMessage := by
    rw [← List.append_assoc]
    exact h.symm
  rcases List.append_eq_append_iff.mp h' with ⟨r,hr,hr'⟩ | ⟨r,hr,hr'⟩
  · cases r with
    | nil =>
        have hl := congrArg List.length hr'
        simp only [List.length_append,List.length_nil] at hl
        exact List.eq_nil_of_length_eq_zero (by omega)
    | cons b r =>
        have hb : 13 = b := (List.cons.inj hr').1
        exact (ht (by rw [hr,hb]; simp)).elim
  · have hl := congrArg List.length hr'
    simp only [List.length_append] at hl
    exact List.eq_nil_of_length_eq_zero (by omega)

/-- A delimiter that starts with `r` and ends in or behind the text. -/
theorem starts_before_text {r text post : Bytes} (ht : 13 ∉ text)
    (h : endOfMessage ++ post = r ++ (text ++ endOfMessage)) :
    endOfMessage <+: r ∨ (r = [13,10,13] ∧ text.head? = some 10) ∨ (r = [13,10] ∧ text = []) ∨
      (r = [13] ∧ text = [10]) ∨ post = [] := by
  rcases r with _ | ⟨a,_ | ⟨b,_ | ⟨c,_ | ⟨d,r⟩⟩⟩⟩
  · exact Or.inr (Or.inr (Or.inr (Or.inr (clean_text ht [] post h.symm))))
  · rcases text with _ | ⟨t,_ | ⟨u,text⟩⟩
    · simp [endOfMessage] at h
    · simp only [endOfMessage,List.cons_append,List.nil_append,List.cons.injEq] at h
      simp [← h.1,← h.2.1]
    · simp only [endOfMessage,List.cons_append,List.nil_append,List.cons.injEq] at h
      simp [← h.2.2.1] at ht
  · cases text with
    | nil =>
        simp only [endOfMessage,List.cons_append,List.nil_append,List.cons.injEq] at h
        simp [← h.1,← h.2.1]
    | cons t text =>
        simp only [endOfMessage,List.cons_append,List.nil_append,List.cons.injEq] at h
        simp [← h.2.2.1] at ht
  · cases text with
    | nil => simp [endOfMessage] at h
    | cons t text =>
        simp only [endOfMessage,List.cons_append,List.nil_append,List.cons.injEq] at h
        simp [← h.1,← h.2.1,← h.2.2.1,← h.2.2.2.1]
  · simp only [endOfMessage,List.cons_append,List.nil_append,List.cons.injEq] at h
    simp [endOfMessage,← h.1,← h.2.1,← h.2.2.1,← h.2.2.2.1]

/-- With a text behind it, something fails to be clean in four ways. -/
theorem clean_append_text {front text : Bytes} (ht : 13 ∉ text) :
    Clean endOfMessage (front ++ text) ↔
      ¬ endOfMessage <:+: front ∧ ¬ ([13,10] <:+ front ∧ text = []) ∧
        ¬ ([13,10,13] <:+ front ∧ text.head? = some 10) ∧ ¬ ([13] <:+ front ∧ text = [10]) := by
  constructor
  · intro hc
    refine ⟨?_,?_,?_,?_⟩
    · rintro ⟨pre,post,rfl⟩
      have h := hc pre (post ++ (text ++ endOfMessage)) (by simp only [List.append_assoc])
      simp [endOfMessage] at h
    · rintro ⟨⟨pre,rfl⟩,rfl⟩
      have h := hc pre [13,10] (by simp [endOfMessage])
      simp at h
    · rintro ⟨⟨pre,rfl⟩,hh⟩
      obtain ⟨tail,rfl⟩ := List.head?_eq_some_iff.mp hh
      have h := hc pre (tail ++ endOfMessage) (by simp [endOfMessage])
      simp [endOfMessage] at h
    · rintro ⟨⟨pre,rfl⟩,rfl⟩
      have h := hc pre [13,10] (by simp [endOfMessage])
      simp at h
  · rintro ⟨h4,h2,h3,h1⟩ pre post h
    have h' : pre ++ (endOfMessage ++ post) = front ++ (text ++ endOfMessage) := by
      simpa only [List.append_assoc] using h.symm
    -- the occurrence starts in `front`, with `r` of it there, or behind it
    rcases List.append_eq_append_iff.mp h' with ⟨r,hr,hr'⟩ | ⟨r,hr,hr'⟩
    · rcases starts_before_text ht hr' with hp | hp | hp | hp | hp
      · obtain ⟨q,hq⟩ := hp
        exact (h4 ⟨pre,q,by rw [hr,← hq,List.append_assoc]⟩).elim
      · exact (h3 ⟨⟨pre,by rw [hr,hp.1]⟩,hp.2⟩).elim
      · exact (h2 ⟨⟨pre,by rw [hr,hp.1]⟩,hp.2⟩).elim
      · exact (h1 ⟨⟨pre,by rw [hr,hp.1]⟩,hp.2⟩).elim
      · exact hp
    · exact clean_text ht r post (by rw [hr',List.append_assoc])

/-- Four bytes of the integer, in its width, are the delimiter. -/
def HoldsDelimiter (size value : ℕ) : Prop := ∃ i < size-3, value/256^i%256^4 = 0x0D0A0D0A

instance (size value : ℕ) : Decidable (HoldsDelimiter size value) :=
  inferInstanceAs (Decidable (∃ i < size-3, value/256^i%256^4 = 0x0D0A0D0A))

namespace Message

/-- What a file read in text mode gives has its line ends normalised. -/
def TextWithoutReturns : Message → Prop
  | clientProtocol _ _ content => '\r' ∉ content.toList
  | result _ _ text => '\r' ∉ text.toList
  | _ => True

/-- The number of messages sent, the number of possible duplicates and their
ids, next to each other. -/
def eofNumber (messagesSent : Word 8) (possibleDuplicates : List (Word 8)) : ℕ :=
  possibleDuplicates.foldl (fun number (id : Word 8) => number*256^8+id)
    (messagesSent*256^4+possibleDuplicates.length)

/-- The integers of a message do not hold the delimiter, not next to each other
and not with what stands behind them. -/
def DelimiterFree : Message → Prop
  | announce clientId => ¬ HoldsDelimiter 8 clientId ∧ clientId.val%256^2 ≠ 0x0D0A
  | clientProtocol messageId _ _ => ¬ HoldsDelimiter 8 messageId
  | result tagId messageId text =>
      ¬ HoldsDelimiter 9 (tagId*256^8+messageId) ∧
        ¬ (messageId.val%256^2 = 0x0D0A ∧ text = "") ∧
        ¬ (messageId.val%256^3 = 0x0D0A0D ∧ text.toList.head? = some '\n') ∧
        ¬ (messageId.val%256 = 0x0D ∧ text = "\n")
  | eof _ messagesSent possibleDuplicates =>
      possibleDuplicates.length < 256^4 ∧
        ¬ HoldsDelimiter (12+8*possibleDuplicates.length)
          (eofNumber messagesSent possibleDuplicates) ∧
        eofNumber messagesSent possibleDuplicates%256^2 ≠ 0x0D0A
  | ack messageId _ => ¬ HoldsDelimiter 8 messageId
  | resultEof tagId messagesSent =>
      ¬ HoldsDelimiter 9 (tagId*256^8+messagesSent) ∧ messagesSent.val%256^2 ≠ 0x0D0A
  | healthCheck | healthOk | announceAck | resultAck => True

end Message

theorem infix_delimiter {size value : ℕ} :
    endOfMessage <:+: intToBytes size value ↔ HoldsDelimiter size value := by
  rw [infix_intToBytes]
  constructor
  · rintro ⟨i,hi,hv⟩
    have hlen : i+4 ≤ size := hi
    exact ⟨i,by omega,hv⟩
  · rintro ⟨i,hi,hv⟩
    have hlen : i+4 ≤ size := by omega
    exact ⟨i,hlen,hv⟩

/-- An integer with a text behind it. -/
theorem clean_int_text {size : ℕ} (value : ℕ) {text : Bytes} (hs : 3 ≤ size) (ht : 13 ∉ text) :
    Clean endOfMessage (intToBytes size value ++ text) ↔
      ¬ HoldsDelimiter size value ∧ ¬ (value%256^2 = 0x0D0A ∧ text = []) ∧
        ¬ (value%256^3 = 0x0D0A0D ∧ text.head? = some 10) ∧
        ¬ (value%256^1 = 0x0D ∧ text = [10]) := by
  have h1 : 1 ≤ size := by omega
  have h2 : 2 ≤ size := by omega
  have s1 : ([13] : Bytes) <:+ intToBytes size value ↔ value%256^1 = 0x0D := suffix_intToBytes h1
  have s2 : ([13,10] : Bytes) <:+ intToBytes size value ↔ value%256^2 = 0x0D0A :=
    suffix_intToBytes h2
  have s3 : ([13,10,13] : Bytes) <:+ intToBytes size value ↔ value%256^3 = 0x0D0A0D :=
    suffix_intToBytes hs
  rw [clean_append_text ht,infix_delimiter,s1,s2,s3]

theorem clean_int {size : ℕ} (value : ℕ) (hs : 3 ≤ size) :
    Clean endOfMessage (intToBytes size value) ↔
      ¬ HoldsDelimiter size value ∧ value%256^2 ≠ 0x0D0A := by
  have h := clean_int_text value hs (List.not_mem_nil (a := 13))
  rw [List.append_nil] at h
  rw [h]
  simp

/-- A small byte separates what stands before it from what stands after it. -/
theorem clean_append_small {value : ℕ} (hv : value < 10) (front back : Bytes) :
    Clean endOfMessage (front ++ (intToBytes 1 value ++ back)) ↔
      ¬ endOfMessage <:+: front ∧ Clean endOfMessage back := by
  have hb : UInt8.ofNat value ∉ endOfMessage := by
    interval_cases value <;> decide
  exact clean_append_cons hb front back

theorem eof_bytes (size number : ℕ) (ids : List (Word 8)) :
    intToBytes (size+8*ids.length)
        (ids.foldl (fun number (id : Word 8) => number*256^8+id) number) =
      intToBytes size number ++ ids.flatMap fun id : Word 8 => intToBytes 8 id := by
  induction ids generalizing size number with
  | nil => simp
  | cons id ids ih =>
      have hsize : size+8*(id :: ids).length = size+8+8*ids.length := by
        rw [List.length_cons]
        omega
      rw [hsize,List.foldl_cons,ih,intToBytes_join number size id.isLt,List.flatMap_cons,
        List.append_assoc]

namespace CommunicationBuffer
open Message

theorem framed_iff_clean {message : Message} :
    Framed message ↔ message.CountFits ∧ Clean endOfMessage message.fields := by
  have htype : message.messageType.value < 10 := by
    cases message.messageType <;> decide
  have hc := clean_append_small htype [] message.fields
  rw [List.nil_append] at hc
  constructor
  · rintro ⟨bytes,hb,h⟩
    obtain ⟨hfits,rfl⟩ := toBytes_eq_some.mp hb
    exact ⟨hfits,(hc.mp h).2⟩
  · rintro ⟨hfits,h⟩
    have hnil : ¬ endOfMessage <:+: [] := by decide
    exact ⟨_,toBytes_eq_some.mpr ⟨hfits,rfl⟩,hc.mpr ⟨hnil,h⟩⟩

/-- One case for each class of messages. -/
theorem framed_iff {message : Message} (ht : message.TextWithoutReturns) :
    Framed message ↔ message.DelimiterFree := by
  rw [framed_iff_clean]
  cases message with
  | announce clientId =>
      simp only [CountFits,fields,DelimiterFree,true_and]
      exact clean_int clientId.val (by omega)
  | clientProtocol messageId protocolType content =>
      have hp := protocolType.value_le
      have hclean := clean_text (encode_return_free ht)
      simp only [CountFits,fields,DelimiterFree,true_and]
      rw [clean_append_small (by omega),infix_delimiter]
      exact and_iff_left hclean
  | result tagId messageId text =>
      have hr := encode_return_free ht
      simp only [CountFits,fields,DelimiterFree,true_and]
      rw [← List.append_assoc,← intToBytes_join tagId.val 1 messageId.isLt,
        clean_int_text _ (by omega) hr,encode_eq_nil,encode_head_newline,encode_eq_newline]
      have h1 : (tagId.val*256^8+messageId.val)%256^1 = messageId.val%256 := by omega
      have h2 : (tagId.val*256^8+messageId.val)%256^2 = messageId.val%256^2 := by omega
      have h3 : (tagId.val*256^8+messageId.val)%256^3 = messageId.val%256^3 := by omega
      rw [h1,h2,h3]
  | eof protocolType messagesSent possibleDuplicates =>
      have hp := protocolType.value_le
      simp only [CountFits,fields,DelimiterFree]
      apply and_congr_right
      intro hfits
      have hnil : ¬ endOfMessage <:+: [] := by decide
      have hnumber : intToBytes 8 messagesSent ++ (intToBytes 4 possibleDuplicates.length ++
          possibleDuplicates.flatMap fun id : Word 8 => intToBytes 8 id) =
          intToBytes (12+8*possibleDuplicates.length)
            (eofNumber messagesSent possibleDuplicates) := by
        rw [eofNumber,eof_bytes,intToBytes_join messagesSent.val 8 hfits,List.append_assoc]
      have hsmall := clean_append_small (by omega : protocolType.value < 10) []
        (intToBytes (12+8*possibleDuplicates.length) (eofNumber messagesSent possibleDuplicates))
      rw [List.nil_append] at hsmall
      rw [hnumber,hsmall,clean_int _ (by omega)]
      exact and_iff_right hnil
  | ack messageId protocolType =>
      have hp := protocolType.value_le
      have hsmall := clean_append_small (by omega : protocolType.value < 10)
        (intToBytes 8 messageId) []
      rw [List.append_nil] at hsmall
      simp only [CountFits,fields,DelimiterFree,true_and]
      rw [hsmall,infix_delimiter]
      exact and_iff_left (clean_nil endOfMessage)
  | resultEof tagId messagesSent =>
      simp only [CountFits,fields,DelimiterFree,true_and]
      rw [← intToBytes_join tagId.val 1 messagesSent.isLt,clean_int _ (by omega)]
      have h2 : (tagId.val*256^8+messagesSent.val)%256^2 = messagesSent.val%256^2 := by omega
      rw [h2]
  | _ => exact iff_of_true ⟨trivial,clean_nil endOfMessage⟩ trivial

/-- Messages whose texts have no carriage returns come back as they were sent,
in order and none beside them, exactly when the fields of each are free of the
delimiter. -/
theorem round_trip_exact (messages : List Message) (b : CommunicationBuffer)
    (texts : ∀ message ∈ messages, message.TextWithoutReturns)
    (sent : b.unread = sendMessages messages) :
    RoundTrip messages b ↔ ∀ message ∈ messages, message.DelimiterFree := by
  rw [roundTrip_iff_framed sent]
  apply forall₂_congr
  intro message hm
  exact framed_iff (texts message hm)

/-- Two messages of which the first delimiter arrives in two pieces. -/
def cutInDelimiter : CommunicationBuffer where
  sock := [⟨[0,0,0,0,0,0,0,0,5,13,10],by decide⟩,
    ⟨[13,10,9,1,0,0,0,0,0,0,0,2,13,10,13,10],by decide⟩]
  buffer := []

theorem round_trip_exact_cutInDelimiter :
    RoundTrip [announce 5,resultEof 1 2] cutInDelimiter := by
  apply (round_trip_exact [announce 5,resultEof 1 2] cutInDelimiter ?_ (by decide)).mpr
  · simp only [List.forall_mem_cons,DelimiterFree,List.not_mem_nil,false_imp_iff,implies_true,
      and_true]
    decide
  · simp [TextWithoutReturns]

/-- The end of 3338 results, in one piece. -/
def resultEof3338 : CommunicationBuffer where
  sock := [⟨[9,1,0,0,0,0,0,0,13,10,13,10,13,10],by decide⟩]
  buffer := []

/-- The number of results ends in a carriage return and a line feed, so the
delimiter is found two bytes early: the parser runs out of bytes, and the next
message starts with the two that are left. -/
theorem resultEof3338_lost :
    (∀ message ∈ [resultEof 1 3338], message.TextWithoutReturns) ∧
      resultEof3338.unread = sendMessages [resultEof 1 3338] ∧
      resultEof3338.getMessage.1 = .error .notAMessage ∧
      resultEof3338.getMessage.2.buffer = [13,10] ∧
      ¬ RoundTrip [resultEof 1 3338] resultEof3338 := by
  have hm : resultEof3338.getMessage.1 = .error .notAMessage := rfl
  refine ⟨by simp [TextWithoutReturns],by decide,hm,by decide,?_⟩
  intro h
  have hok := (roundTrip_cons.mp h).1
  rw [hm] at hok
  cases hok

end CommunicationBuffer
end FlightsOptimizer
