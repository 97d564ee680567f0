import Mathlib.Data.List.Basic
import Mh40.Lib.Bytes

/-!
# The accessors of byte streams

Model of the `HYDRACORE` accessors of `byte_utils.c`. An access outside of the buffer is `none`.

* The setters and the accessors of streams put the high byte first, `ByteUtilsGet2Bytes` the low
  one.
* The four byte accessors advance a `uint16` index between the two halves.

`agree2_iff`, `agree4_iff`: a setter and a getter agree exactly on the values whose bytes are the
same in both orders.
-/

namespace Mh40.ByteUtils

open Lib.Bytes List Option

/-- A store of one byte. -/
def store (dst : List UInt8) (i : ℕ) (val : UInt8) : Option (List UInt8) :=
  if i < dst.length then some (dst.set i val) else none

/-- `ByteUtilsSet1Byte`. -/
def set1Byte (dst : List UInt8) (byteIndex : UInt16) (val : UInt8) : Option (List UInt8) :=
  store dst byteIndex.toNat val

/-- `ByteUtilsSet2Bytes`. -/
def set2Bytes (dst : List UInt8) (byteIndex val : UInt16) : Option (List UInt8) := do
  let dst ← store dst byteIndex.toNat (val >>> 8).toUInt8
  store dst (byteIndex.toNat + 1) val.toUInt8

/-- `ByteUtilsSet4Bytes`. -/
def set4Bytes (dst : List UInt8) (byteIndex : UInt16) (val : UInt32) : Option (List UInt8) := do
  let dst ← set2Bytes dst byteIndex (val >>> 16).toUInt16
  set2Bytes dst (byteIndex + 2) val.toUInt16

/-- `ByteUtilsGet1Byte`. -/
def get1Byte (src : List UInt8) (byteIndex : UInt16) : Option UInt8 := src[byteIndex.toNat]?

/-- `ByteUtilsGet2Bytes`. -/
def get2Bytes (src : List UInt8) (byteIndex : UInt16) : Option UInt16 := do
  let val ← src[byteIndex.toNat]?
  let next ← src[byteIndex.toNat + 1]?
  return val.toUInt16 ||| next.toUInt16 <<< 8

/-- `ByteUtilsGet4Bytes`. -/
def get4Bytes (src : List UInt8) (byteIndex : UInt16) : Option UInt32 := do
  let msb ← get2Bytes src byteIndex
  let lsb ← get2Bytes src (byteIndex + 2)
  return msb.toUInt32 <<< 16 ||| lsb.toUInt32

/-- `ByteUtilsGet2BytesFromStream`. -/
def get2BytesFromStream (src : List UInt8) : Option UInt16 := do
  let val ← src[1]?
  let first ← src[0]?
  return val.toUInt16 ||| first.toUInt16 <<< 8

/-- `ByteUtilsGet4BytesFromStream`. -/
def get4BytesFromStream (src : List UInt8) : Option UInt32 := do
  let src3 ← src[3]?
  let src2 ← src[2]?
  let src1 ← src[1]?
  let src0 ← src[0]?
  return src3.toUInt32 ||| src2.toUInt32 <<< 8 ||| src1.toUInt32 <<< 16 ||| src0.toUInt32 <<< 24

variable {src dst dst' : List UInt8} {i j : ℕ} {byteIndex val : UInt16}

theorem store_eq (h : i < dst.length) (val : UInt8) : store dst i val = some (dst.set i val) :=
  if_pos h

/-- The bytes of a value, the high one first. -/
theorem set2Bytes_eq (h : byteIndex.toNat + 1 < dst.length) :
    set2Bytes dst byteIndex val = some ((dst.set byteIndex.toNat (highByte val)).set
      (byteIndex.toNat + 1) (lowByte val)) := by
  unfold set2Bytes
  rw [store_eq (by omega)]
  exact store_eq (by rwa [length_set]) _

theorem length_set2Bytes (hroom : byteIndex.toNat + 1 < dst.length)
    (h : set2Bytes dst byteIndex val = some dst') : dst'.length = dst.length := by
  rw [set2Bytes_eq hroom] at h
  cases h
  simp only [length_set]

/-- What a setter leaves at an index. -/
theorem getElem?_set2Bytes (hroom : byteIndex.toNat + 1 < dst.length)
    (h : set2Bytes dst byteIndex val = some dst') (j : ℕ) :
    dst'[j]? = if j = byteIndex.toNat then some (highByte val)
      else if j = byteIndex.toNat + 1 then some (lowByte val) else dst[j]? := by
  rw [set2Bytes_eq hroom] at h
  cases h
  simp only [getElem?_set, length_set]
  split_ifs <;> first | rfl | omega

/-- The low byte is read first. -/
theorem get2Bytes_eq {first second : UInt8} (hf : src[byteIndex.toNat]? = some first)
    (hs : src[byteIndex.toNat + 1]? = some second) :
    get2Bytes src byteIndex = some (joinBytes second first) := by
  unfold get2Bytes
  rw [hf, hs]
  rfl

/-- The high byte is read first. -/
theorem get2BytesFromStream_eq {first second : UInt8} (hf : src[0]? = some first)
    (hs : src[1]? = some second) : get2BytesFromStream src = some (joinBytes first second) := by
  unfold get2BytesFromStream
  rw [hf, hs]
  rfl

theorem get4BytesFromStream_eq {b0 b1 b2 b3 : UInt8} (h0 : src[0]? = some b0)
    (h1 : src[1]? = some b1) (h2 : src[2]? = some b2) (h3 : src[3]? = some b3) :
    get4BytesFromStream src = some (joinHalves (joinBytes b0 b1) (joinBytes b2 b3)) := by
  unfold get4BytesFromStream
  rw [h0, h1, h2, h3]
  refine congrArg some (UInt32.toNat_inj.mp ?_)
  have hb0 : b0.toNat < 256 := b0.toNat_lt
  have hb1 : b1.toNat < 256 := b1.toNat_lt
  have hb2 : b2.toNat < 256 := b2.toNat_lt
  have hb3 : b3.toNat < 256 := b3.toNat_lt
  rw [toNat_joinHalves, toNat_joinBytes, toNat_joinBytes]
  simp only [UInt32.toNat_or, UInt32.toNat_shiftLeft, UInt8.toNat_toUInt32, UInt32.reduceToNat,
    Nat.reduceMod]
  have hs2 : b2.toNat <<< 8 % 2 ^ 32 = b2.toNat <<< 8 := by
    rw [Nat.shiftLeft_eq]
    omega
  have hs1 : b1.toNat <<< 16 % 2 ^ 32 = b1.toNat <<< 16 := by
    rw [Nat.shiftLeft_eq]
    omega
  have hs0 : b0.toNat <<< 24 % 2 ^ 32 = b0.toNat <<< 24 := by
    rw [Nat.shiftLeft_eq]
    omega
  rw [hs2, hs1, hs0, Nat.or_comm b3.toNat, ← Nat.shiftLeft_add_eq_or_of_lt (by omega),
    Nat.or_comm _ (b1.toNat <<< 16),
    ← Nat.shiftLeft_add_eq_or_of_lt (by rw [Nat.shiftLeft_eq]; omega), Nat.or_comm _ (b0.toNat <<< 24),
    ← Nat.shiftLeft_add_eq_or_of_lt (by simp only [Nat.shiftLeft_eq]; omega)]
  simp only [Nat.shiftLeft_eq]
  omega

/-! ## Two bytes -/

/-- What the two byte accessors should do: the getter returns what the setter wrote, the accessor
of streams reads the same, and the rest of the buffer stays as it is. -/
structure Agree2 (dst : List UInt8) (byteIndex val : UInt16) (dst' : List UInt8) : Prop where
  returned : get2Bytes dst' byteIndex = some val
  stream : get2BytesFromStream (dst'.drop byteIndex.toNat) = get2Bytes dst' byteIndex
  others : ∀ j, j < byteIndex.toNat ∨ byteIndex.toNat + 2 ≤ j → dst'[j]? = dst[j]?

/-- The getter returns the bytes of the value in the other order. -/
theorem get2Bytes_set2Bytes (hroom : byteIndex.toNat + 1 < dst.length)
    (h : set2Bytes dst byteIndex val = some dst') :
    get2Bytes dst' byteIndex = some (joinBytes (lowByte val) (highByte val)) := by
  refine get2Bytes_eq ?_ ?_
  · rw [getElem?_set2Bytes hroom h, if_pos rfl]
  · rw [getElem?_set2Bytes hroom h, if_neg (by omega), if_pos rfl]

/-- The accessor of streams returns the value. -/
theorem get2BytesFromStream_set2Bytes (hroom : byteIndex.toNat + 1 < dst.length)
    (h : set2Bytes dst byteIndex val = some dst') :
    get2BytesFromStream (dst'.drop byteIndex.toNat) = some val := by
  have hread : get2BytesFromStream (dst'.drop byteIndex.toNat) =
      some (joinBytes (highByte val) (lowByte val)) := by
    refine get2BytesFromStream_eq ?_ ?_
    · rw [getElem?_drop, getElem?_set2Bytes hroom h, if_pos (Nat.add_zero _)]
    · rw [getElem?_drop, getElem?_set2Bytes hroom h, if_neg (by omega), if_pos rfl]
  rw [hread, joinBytes_highByte_lowByte]

/-- A value with two equal bytes. -/
def SameBytes (val : UInt16) : Prop := highByte val = lowByte val

theorem joinBytes_swap_iff : joinBytes (lowByte val) (highByte val) = val ↔ SameBytes val := by
  conv_lhs => rhs; rw [← joinBytes_highByte_lowByte val]
  rw [joinBytes_inj]
  exact ⟨fun h => h.2, fun h => ⟨h.symm, h⟩⟩

/-- **The two byte accessors agree on the values with two equal bytes.** -/
theorem agree2_iff (hroom : byteIndex.toNat + 1 < dst.length)
    (h : set2Bytes dst byteIndex val = some dst') :
    Agree2 dst byteIndex val dst' ↔ SameBytes val := by
  have hget := get2Bytes_set2Bytes hroom h
  constructor
  · intro ha
    have hret := ha.returned
    rw [hget] at hret
    exact joinBytes_swap_iff.mp (some.inj hret)
  · intro hs
    have hret : get2Bytes dst' byteIndex = some val := by rw [hget, joinBytes_swap_iff.mpr hs]
    refine ⟨hret, by rw [hret, get2BytesFromStream_set2Bytes hroom h], fun j hj => ?_⟩
    rw [getElem?_set2Bytes hroom h, if_neg (by omega), if_neg (by omega)]

/-! ## Four bytes -/

variable {word : UInt32}

/-- What the four byte accessors should do. -/
structure Agree4 (dst : List UInt8) (byteIndex : UInt16) (word : UInt32) (dst' : List UInt8) :
    Prop where
  returned : get4Bytes dst' byteIndex = some word
  stream : get4BytesFromStream (dst'.drop byteIndex.toNat) = get4Bytes dst' byteIndex
  others : ∀ j, j < byteIndex.toNat ∨ byteIndex.toNat + 4 ≤ j → dst'[j]? = dst[j]?

theorem toNat_add_two (byteIndex : UInt16) :
    (byteIndex + 2).toNat = (byteIndex.toNat + 2) % 65536 := UInt16.toNat_add byteIndex 2

section

variable (hroom : byteIndex.toNat + 3 < dst.length)
include hroom

/-- What the setter leaves at an index. -/
theorem getElem?_set4Bytes (h : set4Bytes dst byteIndex word = some dst') (j : ℕ) :
    dst'[j]? = if j = (byteIndex.toNat + 2) % 65536 then some (highByte (lowHalf word))
      else if j = (byteIndex.toNat + 2) % 65536 + 1 then some (lowByte (lowHalf word))
      else if j = byteIndex.toNat then some (highByte (highHalf word))
      else if j = byteIndex.toNat + 1 then some (lowByte (highHalf word)) else dst[j]? := by
  obtain ⟨mid, hmid, hlow⟩ := bind_eq_some_iff.mp h
  have hlen := length_set2Bytes (by omega) hmid
  rw [getElem?_set2Bytes (by rw [toNat_add_two]; omega) hlow, toNat_add_two,
    getElem?_set2Bytes (by omega) hmid]
  rfl

theorem set4Bytes_isSome (word : UInt32) :
    ∃ dst', set4Bytes dst byteIndex word = some dst' := by
  have hmid : set2Bytes dst byteIndex (highHalf word) = some _ := set2Bytes_eq (by omega)
  refine ⟨_, bind_eq_some_iff.mpr ⟨_, hmid, set2Bytes_eq ?_⟩⟩
  rw [toNat_add_two]
  simp only [length_set]
  omega

/-- The getter returns the bytes of each half in the other order. -/
theorem get4Bytes_set4Bytes (h : set4Bytes dst byteIndex word = some dst') :
    get4Bytes dst' byteIndex = some (joinHalves
      (joinBytes (lowByte (highHalf word)) (highByte (highHalf word)))
      (joinBytes (lowByte (lowHalf word)) (highByte (lowHalf word)))) := by
  have hlt : byteIndex.toNat < 65536 := byteIndex.toNat_lt
  have hmsb : get2Bytes dst' byteIndex =
      some (joinBytes (lowByte (highHalf word)) (highByte (highHalf word))) := by
    refine get2Bytes_eq ?_ ?_ <;> rw [getElem?_set4Bytes hroom h]
    · rw [if_neg (by omega), if_neg (by omega), if_pos rfl]
    · rw [if_neg (by omega), if_neg (by omega), if_neg (by omega), if_pos rfl]
  have hlsb : get2Bytes dst' (byteIndex + 2) =
      some (joinBytes (lowByte (lowHalf word)) (highByte (lowHalf word))) := by
    refine get2Bytes_eq ?_ ?_ <;> rw [getElem?_set4Bytes hroom h, toNat_add_two]
    · rw [if_pos rfl]
    · rw [if_neg (by omega), if_pos rfl]
  unfold get4Bytes
  rw [hmsb, hlsb]
  rfl

end

/-- Each half of a value has two equal bytes. -/
def SameHalves (word : UInt32) : Prop := SameBytes (highHalf word) ∧ SameBytes (lowHalf word)

theorem joinHalves_swap_iff : joinHalves
    (joinBytes (lowByte (highHalf word)) (highByte (highHalf word)))
    (joinBytes (lowByte (lowHalf word)) (highByte (lowHalf word))) = word ↔ SameHalves word := by
  conv_lhs => rhs; rw [← joinHalves_highHalf_lowHalf word]
  rw [joinHalves_inj, joinBytes_swap_iff, joinBytes_swap_iff, SameHalves]

/-- The index does not wrap between the halves, or the bytes of the low half are where they
belong and where the index wraps to already. -/
def InPlace (dst : List UInt8) (byteIndex : UInt16) (word : UInt32) : Prop :=
  byteIndex.toNat + 2 < 65536 ∨
    (dst[byteIndex.toNat + 2]? = some (highByte (lowHalf word)) ∧
      dst[byteIndex.toNat + 3]? = some (lowByte (lowHalf word)) ∧
      dst[byteIndex.toNat + 2 - 65536]? = some (highByte (lowHalf word)) ∧
      dst[byteIndex.toNat + 3 - 65536]? = some (lowByte (lowHalf word)))

theorem get4BytesFromStream_set4Bytes_iff (hroom : byteIndex.toNat + 3 < dst.length)
    (h : set4Bytes dst byteIndex word = some dst') :
    get4BytesFromStream (dst'.drop byteIndex.toNat) = some word ↔
      byteIndex.toNat + 2 < 65536 ∨ (dst[byteIndex.toNat + 2]? = some (highByte (lowHalf word)) ∧
        dst[byteIndex.toNat + 3]? = some (lowByte (lowHalf word))) := by
  have hlt : byteIndex.toNat < 65536 := byteIndex.toNat_lt
  have h0 : (dst'.drop byteIndex.toNat)[0]? = some (highByte (highHalf word)) := by
    rw [getElem?_drop, getElem?_set4Bytes hroom h, if_neg (by omega), if_neg (by omega),
      if_pos (Nat.add_zero _)]
  have h1 : (dst'.drop byteIndex.toNat)[1]? = some (lowByte (highHalf word)) := by
    rw [getElem?_drop, getElem?_set4Bytes hroom h, if_neg (by omega), if_neg (by omega),
      if_neg (by omega), if_pos rfl]
  by_cases hwrap : byteIndex.toNat + 2 < 65536
  · refine iff_of_true ?_ (.inl hwrap)
    have h2 : (dst'.drop byteIndex.toNat)[2]? = some (highByte (lowHalf word)) := by
      rw [getElem?_drop, getElem?_set4Bytes hroom h, if_pos (by omega)]
    have h3 : (dst'.drop byteIndex.toNat)[3]? = some (lowByte (lowHalf word)) := by
      rw [getElem?_drop, getElem?_set4Bytes hroom h, if_neg (by omega), if_pos (by omega)]
    rw [get4BytesFromStream_eq h0 h1 h2 h3, joinBytes_highByte_lowByte,
      joinBytes_highByte_lowByte, joinHalves_highHalf_lowHalf]
  · -- the low half has been written to the start of the buffer
    rw [or_iff_right hwrap]
    have hb2 : dst[byteIndex.toNat + 2]? = some dst[byteIndex.toNat + 2] :=
      getElem?_eq_getElem (by omega)
    have hb3 : dst[byteIndex.toNat + 3]? = some dst[byteIndex.toNat + 3] :=
      getElem?_eq_getElem hroom
    have h2 : (dst'.drop byteIndex.toNat)[2]? = some dst[byteIndex.toNat + 2] := by
      rw [getElem?_drop, getElem?_set4Bytes hroom h, if_neg (by omega), if_neg (by omega),
        if_neg (by omega), if_neg (by omega), hb2]
    have h3 : (dst'.drop byteIndex.toNat)[3]? = some dst[byteIndex.toNat + 3] := by
      rw [getElem?_drop, getElem?_set4Bytes hroom h, if_neg (by omega), if_neg (by omega),
        if_neg (by omega), if_neg (by omega), hb3]
    have hword : word = joinHalves (highHalf word)
        (joinBytes (highByte (lowHalf word)) (lowByte (lowHalf word))) := by
      rw [joinBytes_highByte_lowByte, joinHalves_highHalf_lowHalf]
    rw [get4BytesFromStream_eq h0 h1 h2 h3, joinBytes_highByte_lowByte, hb2, hb3]
    conv_lhs => rhs; rw [hword]
    rw [some_inj, some_inj, some_inj, joinHalves_inj, joinBytes_inj]
    exact and_iff_right rfl

/-- **The four byte accessors agree on the values whose halves have two equal bytes, where the
index does not wrap.** -/
theorem agree4_iff (hroom : byteIndex.toNat + 3 < dst.length)
    (h : set4Bytes dst byteIndex word = some dst') :
    Agree4 dst byteIndex word dst' ↔ SameHalves word ∧ InPlace dst byteIndex word := by
  have hlt : byteIndex.toNat < 65536 := byteIndex.toNat_lt
  have hget := get4Bytes_set4Bytes hroom h
  have hstream := get4BytesFromStream_set4Bytes_iff hroom h
  have hat := getElem?_set4Bytes hroom h
  constructor
  · intro ha
    have hret := ha.returned
    have hsame : SameHalves word := by
      rw [hget] at hret
      exact joinHalves_swap_iff.mp (some.inj hret)
    refine ⟨hsame, ?_⟩
    by_cases hwrap : byteIndex.toNat + 2 < 65536
    · exact .inl hwrap
    · obtain ⟨h2, h3⟩ := (hstream.mp (by rw [ha.stream, hret])).resolve_left hwrap
      refine .inr ⟨h2, h3, ?_, ?_⟩
      · rw [← ha.others _ (by omega), hat, if_pos (by omega)]
      · rw [← ha.others _ (by omega), hat, if_neg (by omega), if_pos (by omega)]
  · rintro ⟨hsame, hplace⟩
    have hret : get4Bytes dst' byteIndex = some word := by rw [hget, joinHalves_swap_iff.mpr hsame]
    refine ⟨hret, ?_, fun j hj => ?_⟩
    · rw [hret, hstream]
      exact hplace.imp_right fun ⟨h2, h3, _⟩ => ⟨h2, h3⟩
    · rw [hat]
      by_cases hwrap : byteIndex.toNat + 2 < 65536
      · rw [if_neg (by omega), if_neg (by omega), if_neg (by omega), if_neg (by omega)]
      · obtain ⟨-, -, h2, h3⟩ := hplace.resolve_left hwrap
        have hmod : (byteIndex.toNat + 2) % 65536 = byteIndex.toNat + 2 - 65536 := by omega
        have hnext : byteIndex.toNat + 3 - 65536 = byteIndex.toNat + 2 - 65536 + 1 := by omega
        rw [hnext] at h3
        rw [hmod]
        split_ifs with hk hk' hi hi'
        · rw [hk, h2]
        · rw [hk', h3]
        · omega
        · omega
        · rfl

end Mh40.ByteUtils
