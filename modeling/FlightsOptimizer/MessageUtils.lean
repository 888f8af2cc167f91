import Mathlib.Algebra.Order.Ring.Nat
import Mathlib.Data.List.Induction
import Mathlib.Tactic.Ring

/-!
# The byte reader and the byte writer

The integers of the wire are unsigned and big-endian, each in a width that its
place in the message fixes. The writer is its buffer; the reader is what it has
not read yet. Each operation has one lemma, which says what it appends or what
the bytes it accepts look like.
-/
namespace FlightsOptimizer

abbrev Bytes := List UInt8

/-- An unsigned integer that `size` bytes can hold. -/
abbrev Word (size : ℕ) := Fin (256^size)

/-- `value.to_bytes(size, byteorder="big")` for a value that fits. -/
def intToBytes : ℕ → ℕ → Bytes
  | 0, _ => []
  | size+1, value => intToBytes size (value/256) ++ [UInt8.ofNat value]

/-- `int.from_bytes(bytes, byteorder="big")`. -/
def intFromBytes (bytes : Bytes) : ℕ :=
  bytes.foldl (fun value byte => value*256+byte.toNat) 0

theorem intToBytes_length (size value : ℕ) : (intToBytes size value).length = size := by
  induction size generalizing value with
  | zero => rfl
  | succ size ih => rw [intToBytes,List.length_append,ih,List.length_singleton]

theorem intFromBytes_snoc (bytes : Bytes) (byte : UInt8) :
    intFromBytes (bytes ++ [byte]) = intFromBytes bytes*256+byte.toNat := by
  simp only [intFromBytes,List.foldl_append,List.foldl_cons,List.foldl_nil]

theorem intFromBytes_intToBytes (size value : ℕ) :
    intFromBytes (intToBytes size value) = value%256^size := by
  induction size generalizing value with
  | zero => rw [pow_zero,Nat.mod_one]; rfl
  | succ size ih =>
      rw [intToBytes,intFromBytes_snoc,ih,UInt8.toNat_ofNat',pow_succ' 256 size,Nat.mod_mul]
      omega

theorem intFromBytes_lt (bytes : Bytes) : intFromBytes bytes < 256^bytes.length := by
  induction bytes using List.reverseRecOn with
  | nil => exact Nat.one_pos
  | append_singleton bytes byte ih =>
      have hb := byte.toNat_lt
      rw [intFromBytes_snoc,List.length_append,List.length_singleton,pow_succ]
      omega

theorem intToBytes_intFromBytes (bytes : Bytes) :
    intToBytes bytes.length (intFromBytes bytes) = bytes := by
  induction bytes using List.reverseRecOn with
  | nil => rfl
  | append_singleton bytes byte ih =>
      have hb := byte.toNat_lt
      have hdiv : (intFromBytes bytes*256+byte.toNat)/256 = intFromBytes bytes := by omega
      have hmod : UInt8.ofNat (intFromBytes bytes*256+byte.toNat) = byte := by
        apply UInt8.toNat_inj.mp
        rw [UInt8.toNat_ofNat']
        omega
      rw [intFromBytes_snoc,List.length_append,List.length_singleton,intToBytes,hdiv,ih,hmod]

/-- Two integers next to each other are one wider integer. -/
theorem intToBytes_add (high low value : ℕ) :
    intToBytes (high+low) value = intToBytes high (value/256^low) ++ intToBytes low value := by
  induction low generalizing value with
  | zero => simp [intToBytes]
  | succ low ih =>
      rw [← Nat.add_assoc,intToBytes,intToBytes,ih,Nat.div_div_eq_div_mul,pow_succ',
        List.append_assoc]

theorem intToBytes_mod (size value : ℕ) :
    intToBytes size (value%256^size) = intToBytes size value := by
  have h := intToBytes_intFromBytes (intToBytes size value)
  rwa [intToBytes_length,intFromBytes_intToBytes] at h

theorem intToBytes_eq_iff {size value : ℕ} {bytes : Bytes} (h : bytes.length = size) :
    intToBytes size value = bytes ↔ value%256^size = intFromBytes bytes := by
  constructor
  · rintro rfl
    exact (intFromBytes_intToBytes size value).symm
  · intro hv
    rw [← intToBytes_mod,hv,← h,intToBytes_intFromBytes]

/-- The number that two integers next to each other make. -/
theorem intToBytes_join {low lowSize : ℕ} (high highSize : ℕ) (hl : low < 256^lowSize) :
    intToBytes (highSize+lowSize) (high*256^lowSize+low) =
      intToBytes highSize high ++ intToBytes lowSize low := by
  have hpos : 0 < 256^lowSize := Nat.zero_lt_of_lt hl
  have hdiv : (high*256^lowSize+low)/256^lowSize = high := by
    rw [Nat.add_comm,Nat.add_mul_div_right _ _ hpos,Nat.div_eq_of_lt hl,Nat.zero_add]
  have hmod : (high*256^lowSize+low)%256^lowSize = low := by
    rw [Nat.add_comm,Nat.add_mul_mod_self_right,Nat.mod_eq_of_lt hl]
  rw [intToBytes_add,hdiv,← intToBytes_mod lowSize,hmod]

/-- Where some bytes stand in an integer, arithmetically. -/
theorem infix_intToBytes {bytes : Bytes} {size value : ℕ} :
    bytes <:+: intToBytes size value ↔
      ∃ i, i+bytes.length ≤ size ∧ value/256^i%256^bytes.length = intFromBytes bytes := by
  have hcut : ∀ k i, intToBytes (k+bytes.length+i) value =
      intToBytes k (value/256^i/256^bytes.length) ++
        intToBytes bytes.length (value/256^i) ++ intToBytes i value := by
    intro k i
    rw [intToBytes_add,intToBytes_add]
  constructor
  · rintro ⟨pre,post,h⟩
    have hlen := congrArg List.length h
    simp only [List.length_append,intToBytes_length] at hlen
    refine ⟨post.length,by omega,?_⟩
    rw [← hlen,hcut] at h
    have hpre := (List.append_inj h (by simp only [List.length_append,intToBytes_length])).1
    have hmid := (List.append_inj hpre (by rw [intToBytes_length])).2
    exact (intToBytes_eq_iff rfl).mp hmid.symm
  · rintro ⟨i,hi,hv⟩
    obtain ⟨k,hk⟩ := Nat.exists_eq_add_of_le hi
    have hsize : size = k+bytes.length+i := by omega
    rw [hsize,hcut,(intToBytes_eq_iff rfl).mpr hv]
    exact ⟨_,_,rfl⟩

theorem suffix_intToBytes {bytes : Bytes} {size value : ℕ} (hs : bytes.length ≤ size) :
    bytes <:+ intToBytes size value ↔ value%256^bytes.length = intFromBytes bytes := by
  obtain ⟨k,hk⟩ := Nat.exists_eq_add_of_le' hs
  rw [hk,intToBytes_add]
  constructor
  · rintro ⟨pre,h⟩
    have hlen := congrArg List.length h
    simp only [List.length_append,intToBytes_length] at hlen
    have hend := (List.append_inj h (by rw [intToBytes_length]; omega)).2
    exact (intToBytes_eq_iff rfl).mp hend.symm
  · intro hv
    rw [(intToBytes_eq_iff rfl).mpr hv]
    exact List.suffix_append _ _

namespace MessageBytesWriter

/-- An integer that does not fit raises. -/
def writeInt (writer : Bytes) (value size : ℕ) : Option Bytes :=
  if value < 256^size then some (writer ++ intToBytes size value) else none

def writeMultipleInt {size : ℕ} (writer : Bytes) : List (Word size) → Option Bytes
  | [] => some writer
  | value :: values => do
      let writer ← writeInt writer value size
      writeMultipleInt writer values

theorem writeInt_word {size : ℕ} (writer : Bytes) (value : Word size) :
    writeInt writer value size = some (writer ++ intToBytes size value) :=
  if_pos value.isLt

theorem writeMultipleInt_eq {size : ℕ} (writer : Bytes) (values : List (Word size)) :
    writeMultipleInt writer values =
      some (writer ++ values.flatMap fun value : Word size => intToBytes size value) := by
  induction values generalizing writer with
  | nil => simp [writeMultipleInt]
  | cons value values ih =>
      simp only [writeMultipleInt,writeInt_word,Option.bind_eq_bind,Option.bind_some,ih,
        List.flatMap_cons,List.append_assoc]

end MessageBytesWriter

namespace MessageBytesReader

/-- Reading over the end raises. -/
def read (size : ℕ) (reader : Bytes) : Option ({bytes : Bytes // bytes.length = size} × Bytes) :=
  if h : size ≤ reader.length then
    some (⟨reader.take size,List.length_take_of_le h⟩,reader.drop size)
  else none

def toWord {size : ℕ} (bytes : {bytes : Bytes // bytes.length = size}) : Word size :=
  ⟨intFromBytes bytes.val,by
    have h := intFromBytes_lt bytes.val
    rwa [bytes.property] at h⟩

def readInt (size : ℕ) (reader : Bytes) : Option (Word size × Bytes) := do
  let (bytes,reader) ← read size reader
  some (toWord bytes,reader)

def readMultipleInt (size : ℕ) : ℕ → Bytes → Option (List (Word size) × Bytes)
  | 0, reader => some ([],reader)
  | count+1, reader => do
      let (value,reader) ← readInt size reader
      let (values,reader) ← readMultipleInt size count reader
      some (value :: values,reader)

theorem read_eq_some {size : ℕ} {reader rest : Bytes}
    {bytes : {bytes : Bytes // bytes.length = size}} :
    read size reader = some (bytes,rest) ↔ reader = bytes.val ++ rest := by
  obtain ⟨bytes,hb⟩ := bytes
  constructor
  · intro h
    unfold read at h
    split_ifs at h with hs
    cases h
    exact (List.take_append_drop size reader).symm
  · rintro rfl
    have hs : size ≤ (bytes ++ rest).length := by rw [List.length_append]; omega
    unfold read
    simp only [dif_pos hs,List.take_left' hb,List.drop_left' hb]

/-- What a read integer was written as, both ways. -/
theorem readInt_eq_some {size : ℕ} {reader rest : Bytes} {value : Word size} :
    readInt size reader = some (value,rest) ↔ reader = intToBytes size value ++ rest := by
  constructor
  · intro h
    obtain ⟨⟨bytes,tail⟩,hr,hv⟩ := Option.bind_eq_some_iff.mp h
    cases hv
    have hword : intToBytes size (toWord bytes) = bytes.val := by
      have h := intToBytes_intFromBytes bytes.val
      rwa [bytes.property] at h
    rw [hword]
    exact read_eq_some.mp hr
  · intro h
    have hr : read size reader = some (⟨intToBytes size value,intToBytes_length size value⟩,rest) :=
      read_eq_some.mpr h
    have hv : toWord ⟨intToBytes size value,intToBytes_length size value⟩ = value := by
      apply Fin.ext
      change intFromBytes (intToBytes size value) = value
      rw [intFromBytes_intToBytes,Nat.mod_eq_of_lt value.isLt]
    simp only [readInt,hr,Option.bind_eq_bind,Option.bind_some,hv]

theorem readMultipleInt_eq_some {size count : ℕ} {reader rest : Bytes}
    {values : List (Word size)} :
    readMultipleInt size count reader = some (values,rest) ↔
      values.length = count ∧
        reader = (values.flatMap fun value : Word size => intToBytes size value) ++ rest := by
  induction count generalizing reader values with
  | zero =>
      simp only [readMultipleInt,Option.some.injEq,Prod.mk.injEq,List.length_eq_zero_iff]
      constructor
      · rintro ⟨rfl,rfl⟩
        exact ⟨rfl,rfl⟩
      · rintro ⟨rfl,rfl⟩
        exact ⟨rfl,rfl⟩
  | succ count ih =>
      constructor
      · intro h
        obtain ⟨⟨value,tail⟩,hv,h⟩ := Option.bind_eq_some_iff.mp h
        obtain ⟨⟨tailValues,tail'⟩,hvs,h⟩ := Option.bind_eq_some_iff.mp h
        cases h
        obtain ⟨hlen,htail⟩ := ih.mp hvs
        exact ⟨by rw [List.length_cons,hlen],by
          rw [readInt_eq_some.mp hv,htail,List.flatMap_cons,List.append_assoc]⟩
      · rintro ⟨hlen,hr⟩
        cases values with
        | nil => exact (Nat.succ_ne_zero count hlen.symm).elim
        | cons value values =>
            rw [List.flatMap_cons,List.append_assoc] at hr
            have hv := readInt_eq_some.mpr hr
            have hvs := ih.mpr ⟨Nat.succ.inj hlen,rfl⟩
            simp only [readMultipleInt,hv,hvs,Option.bind_eq_bind,Option.bind_some]

end MessageBytesReader
end FlightsOptimizer
