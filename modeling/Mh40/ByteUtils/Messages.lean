import Mh40.ByteUtils.Accessors

/-!
# Messages as fields of bytes

An upgrade message is built by setters at an index that each of them advances, and parsed by
getters in the same way.

* `build_eq`: what is built is the fields one after the other, the high byte of each first.
* `read_encode`: what is read back has the bytes of every field in the other order.
* `accessors_agree_iff`: when the accessors agree, on one index and over whole messages.
-/

namespace Mh40.ByteUtils

open Lib.Bytes List Option

/-- How many bytes an accessor moves. -/
inductive Width where
  | one
  | two
  | four
  deriving DecidableEq

/-- What the accessors return. -/
def Width.size : Width → UInt16
  | .one => 1
  | .two => 2
  | .four => 4

/-- A field of a message. -/
inductive Field where
  | one (val : UInt8)
  | two (val : UInt16)
  | four (val : UInt32)
  deriving DecidableEq

def Field.width : Field → Width
  | .one _ => .one
  | .two _ => .two
  | .four _ => .four

/-- The setter of a field. -/
def Field.set (payload : List UInt8) (byteIndex : UInt16) : Field → Option (List UInt8)
  | .one val => set1Byte payload byteIndex val
  | .two val => set2Bytes payload byteIndex val
  | .four val => set4Bytes payload byteIndex val

/-- The getter of a field. -/
def Width.get (data : List UInt8) (byteIndex : UInt16) : Width → Option Field
  | .one => (get1Byte data byteIndex).map .one
  | .two => (get2Bytes data byteIndex).map .two
  | .four => (get4Bytes data byteIndex).map .four

/-- The fields are set one after the other. -/
def build (payload : List UInt8) (byteIndex : UInt16) : List Field → Option (List UInt8)
  | [] => some payload
  | field :: fields => do
    let payload ← field.set payload byteIndex
    build payload (byteIndex + field.width.size) fields

/-- The fields are read one after the other. -/
def read (data : List UInt8) (byteIndex : UInt16) : List Width → Option (List Field)
  | [] => some []
  | width :: widths => do
    let field ← width.get data byteIndex
    let fields ← read data (byteIndex + width.size) widths
    return field :: fields

/-- The bytes of a field, the high one first. -/
def Field.bytes : Field → List UInt8
  | .one val => [val]
  | .two val => [highByte val, lowByte val]
  | .four val => [highByte (highHalf val), lowByte (highHalf val), highByte (lowHalf val),
      lowByte (lowHalf val)]

/-- The field that is read back. -/
def Field.swapped : Field → Field
  | .one val => .one val
  | .two val => .two (joinBytes (lowByte val) (highByte val))
  | .four val => .four (joinHalves (joinBytes (lowByte (highHalf val)) (highByte (highHalf val)))
      (joinBytes (lowByte (lowHalf val)) (highByte (lowHalf val))))

/-- The bytes of the field are the same in both orders. -/
def Field.Same : Field → Prop
  | .one _ => True
  | .two val => SameBytes val
  | .four val => SameHalves val

/-- The bytes of some fields. -/
def encode (fields : List Field) : List UInt8 := fields.flatMap Field.bytes

variable {fields : List Field} {front : List UInt8} {byteIndex : UInt16}

theorem encode_cons (field : Field) (fields : List Field) :
    encode (field :: fields) = field.bytes ++ encode fields := rfl

theorem Field.length_bytes (field : Field) : field.bytes.length = field.width.size.toNat := by
  cases field <;> rfl

theorem Field.swapped_eq_iff (field : Field) : field.swapped = field ↔ field.Same := by
  cases field with
  | one val => exact iff_of_true rfl trivial
  | two val => exact Field.two.injEq _ _ ▸ joinBytes_swap_iff
  | four val => exact Field.four.injEq _ _ ▸ joinHalves_swap_iff

/-! ## One field -/

theorem store_append {i : ℕ} (front : List UInt8) (hi : front.length = i) (a val : UInt8)
    (back : List UInt8) : store (front ++ a :: back) i val = some (front ++ val :: back) := by
  subst hi
  rw [store_eq (by simp), set_append_right _ _ (Nat.le_refl _), Nat.sub_self]
  rfl

theorem set2Bytes_append (front : List UInt8) (byteIndex : UInt16)
    (hi : front.length = byteIndex.toNat) (a b : UInt8) (back : List UInt8) (val : UInt16) :
    set2Bytes (front ++ a :: b :: back) byteIndex val =
      some (front ++ highByte val :: lowByte val :: back) := by
  have hlow := store_append (front ++ [highByte val]) (i := byteIndex.toNat + 1)
    (by rw [length_append, hi]; rfl) b (lowByte val) back
  simp only [append_assoc, singleton_append] at hlow
  unfold set2Bytes
  rw [store_append front hi]
  exact hlow

/-- A setter replaces the bytes at its index. -/
theorem Field.set_append (field : Field) (hi : front.length = byteIndex.toNat)
    (old : List UInt8) (hold : old.length = field.width.size.toNat)
    (hlt : byteIndex.toNat + field.width.size.toNat < 65536) (back : List UInt8) :
    field.set (front ++ old ++ back) byteIndex = some (front ++ field.bytes ++ back) := by
  rw [append_assoc, append_assoc]
  cases field with
  | one val =>
    obtain ⟨a, rfl⟩ := length_eq_one_iff.mp hold
    exact store_append front hi a val back
  | two val =>
    obtain ⟨a, b, rfl⟩ := length_eq_two.mp hold
    exact set2Bytes_append front byteIndex hi a b back val
  | four val =>
    obtain ⟨a, old, rfl⟩ := exists_cons_of_length_eq_add_one hold
    obtain ⟨b, c, d, rfl⟩ := length_eq_three.mp (Nat.succ.inj hold)
    have hnext : (byteIndex + 2).toNat = byteIndex.toNat + 2 := by
      rw [toNat_add_two]
      exact Nat.mod_eq_of_lt (by change _ + 4 < _ at hlt; omega)
    have hlow := set2Bytes_append
      (front ++ [highByte (highHalf val), lowByte (highHalf val)]) (byteIndex + 2)
      (by rw [length_append, hi, hnext]; rfl) c d back (lowHalf val)
    simp only [append_assoc, cons_append, nil_append] at hlow
    have hhigh := set2Bytes_append front byteIndex hi a b (c :: d :: back) (highHalf val)
    exact bind_eq_some_iff.mpr ⟨_, hhigh, hlow⟩

theorem getElem?_front (hi : front.length = byteIndex.toNat) (bytes back : List UInt8) (k : ℕ) :
    (front ++ bytes ++ back)[byteIndex.toNat + k]? = (bytes ++ back)[k]? := by
  rw [append_assoc, ← hi, getElem?_append_right (Nat.le_add_right _ _),
    Nat.add_sub_cancel_left]

/-- A getter reads the bytes at its index in the other order. -/
theorem Field.get_append (field : Field) (hi : front.length = byteIndex.toNat)
    (hlt : byteIndex.toNat + field.width.size.toNat < 65536) (back : List UInt8) :
    field.width.get (front ++ field.bytes ++ back) byteIndex = some field.swapped := by
  have hat := getElem?_front hi field.bytes back
  cases field with
  | one val =>
    have h0 : get1Byte (front ++ [val] ++ back) byteIndex = some val := hat 0
    simp only [Field.width, Width.get, Field.bytes, h0, map_some, Field.swapped]
  | two val =>
    have h := get2Bytes_eq (hat 0) (hat 1)
    simp only [Field.width, Width.get, h, map_some, Field.swapped]
  | four val =>
    have hnext : (byteIndex + 2).toNat = byteIndex.toNat + 2 := by
      rw [toNat_add_two]
      exact Nat.mod_eq_of_lt (by change _ + 4 < _ at hlt; omega)
    have hmsb := get2Bytes_eq (hat 0) (hat 1)
    have hat2 : (front ++ (Field.four val).bytes ++ back)[(byteIndex + 2).toNat]? =
        some (highByte (lowHalf val)) := by
      rw [hnext]
      exact hat 2
    have hat3 : (front ++ (Field.four val).bytes ++ back)[(byteIndex + 2).toNat + 1]? =
        some (lowByte (lowHalf val)) := by
      rw [hnext]
      exact hat 3
    have hlsb := get2Bytes_eq hat2 hat3
    have h : get4Bytes (front ++ (Field.four val).bytes ++ back) byteIndex = some (joinHalves _ _) :=
      bind_eq_some_iff.mpr ⟨_, hmsb, bind_eq_some_iff.mpr ⟨_, hlsb, rfl⟩⟩
    simp only [Field.width, Width.get, h, map_some, Field.swapped]

/-! ## Messages -/

/-- The size of a message. -/
def size (fields : List Field) : ℕ := (encode fields).length

theorem size_cons (field : Field) (fields : List Field) :
    size (field :: fields) = field.width.size.toNat + size fields := by
  rw [size, encode_cons, length_append, field.length_bytes, size]

/-- What is built in a payload of the right size. -/
theorem build_append (fields : List Field) (front : List UInt8) (byteIndex : UInt16)
    (hi : front.length = byteIndex.toNat) (old : List UInt8)
    (hold : old.length = size fields) (hlt : byteIndex.toNat + size fields < 65536) :
    build (front ++ old) byteIndex fields = some (front ++ encode fields) := by
  induction fields generalizing front byteIndex old with
  | nil =>
    obtain rfl := length_eq_zero_iff.mp hold
    rfl
  | cons field fields ih =>
    rw [size_cons] at hold hlt
    have hset := field.set_append hi (old.take field.width.size.toNat)
      (by rw [length_take]; omega) (by omega) (old.drop field.width.size.toNat)
    rw [append_assoc, take_append_drop] at hset
    have hnext : (byteIndex + field.width.size).toNat =
        byteIndex.toNat + field.width.size.toNat := by
      rw [UInt16.toNat_add]
      exact Nat.mod_eq_of_lt (by omega)
    have hrest := ih (front ++ field.bytes) (byteIndex + field.width.size)
      (by rw [length_append, field.length_bytes, hi, hnext])
      (old.drop field.width.size.toNat) (by rw [length_drop]; omega) (by omega)
    rw [append_assoc front field.bytes (encode fields), ← encode_cons] at hrest
    exact bind_eq_some_iff.mpr ⟨_, hset, hrest⟩

/-- What is read from the bytes of a message. -/
theorem read_append (fields : List Field) (front : List UInt8) (byteIndex : UInt16)
    (hi : front.length = byteIndex.toNat) (hlt : byteIndex.toNat + size fields < 65536) :
    read (front ++ encode fields) byteIndex (fields.map Field.width) =
      some (fields.map Field.swapped) := by
  induction fields generalizing front byteIndex with
  | nil => rfl
  | cons field fields ih =>
    rw [size_cons] at hlt
    have hget := field.get_append hi (by omega) (encode fields)
    have hnext : (byteIndex + field.width.size).toNat =
        byteIndex.toNat + field.width.size.toNat := by
      rw [UInt16.toNat_add]
      exact Nat.mod_eq_of_lt (by omega)
    have hrest := ih (front ++ field.bytes) (byteIndex + field.width.size)
      (by rw [length_append, field.length_bytes, hi, hnext]) (by omega)
    rw [append_assoc, ← encode_cons] at hget hrest
    exact bind_eq_some_iff.mpr ⟨_, hget, bind_eq_some_iff.mpr ⟨_, hrest, rfl⟩⟩

variable {payload : List UInt8}

theorem build_eq (hlen : payload.length = size fields) (hlt : size fields < 65536) :
    build payload 0 fields = some (encode fields) := by
  simpa using build_append fields [] 0 rfl payload hlen (by simpa using hlt)

theorem read_encode (hlt : size fields < 65536) :
    read (encode fields) 0 (fields.map Field.width) = some (fields.map Field.swapped) := by
  simpa using read_append fields [] 0 rfl (by simpa using hlt)

theorem map_swapped_eq_iff (fields : List Field) :
    fields.map Field.swapped = fields ↔ ∀ field ∈ fields, field.Same := by
  induction fields with
  | nil => simp
  | cons field fields ih =>
    rw [map_cons, cons.injEq, ih, field.swapped_eq_iff, forall_mem_cons]

/-- **When the accessors agree**: on one index, and over a message that is built in a payload of
its size. -/
theorem accessors_agree_iff {dst : List UInt8} {index2 index4 : UInt16}
    (h2 : index2.toNat + 1 < dst.length) (h4 : index4.toNat + 3 < dst.length) (val : UInt16)
    (word : UInt32) (hlen : payload.length = size fields) (hlt : size fields < 65536) :
    ((∃ dst', set2Bytes dst index2 val = some dst' ∧ Agree2 dst index2 val dst') ↔
      SameBytes val) ∧
    ((∃ dst', set4Bytes dst index4 word = some dst' ∧ Agree4 dst index4 word dst') ↔
      SameHalves word ∧ InPlace dst index4 word) ∧
    ((∃ data, build payload 0 fields = some data ∧
        read data 0 (fields.map Field.width) = some fields) ↔ ∀ field ∈ fields, field.Same) := by
  refine ⟨?_, ?_, ?_⟩
  · have hset : set2Bytes dst index2 val = some _ := set2Bytes_eq h2
    constructor
    · rintro ⟨dst', h, ha⟩
      exact (agree2_iff h2 h).mp ha
    · exact fun hs => ⟨_, hset, (agree2_iff h2 hset).mpr hs⟩
  · obtain ⟨dst', hset⟩ := set4Bytes_isSome h4 word
    constructor
    · rintro ⟨dst', h, ha⟩
      exact (agree4_iff h4 h).mp ha
    · exact fun hs => ⟨dst', hset, (agree4_iff h4 hset).mpr hs⟩
  · have hread := read_encode hlt
    constructor
    · rintro ⟨data, hb, hr⟩
      rw [build_eq hlen hlt] at hb
      cases hb
      rw [hread] at hr
      exact (map_swapped_eq_iff fields).mp (Option.some.inj hr)
    · intro hs
      refine ⟨_, build_eq hlen hlt, ?_⟩
      rw [hread, (map_swapped_eq_iff fields).mpr hs]

theorem accessors_agree_symmetric :
    ((∃ dst', set2Bytes [1, 2, 3, 4, 5] 3 0x1717 = some dst' ∧
        Agree2 [1, 2, 3, 4, 5] 3 0x1717 dst') ↔ SameBytes 0x1717) ∧
    ((∃ dst', set4Bytes [1, 2, 3, 4, 5] 1 0x11112222 = some dst' ∧
        Agree4 [1, 2, 3, 4, 5] 1 0x11112222 dst') ↔
      SameHalves 0x11112222 ∧ InPlace [1, 2, 3, 4, 5] 1 0x11112222) ∧
    ((∃ data, build [0, 0, 0] 0 [.one 4, .two 0x0202] = some data ∧
        read data 0 [.one, .two] = some [.one 4, .two 0x0202]) ↔
      ∀ field ∈ [Field.one 4, .two 0x0202], field.Same) :=
  accessors_agree_iff (by decide) (by decide) 0x1717 0x11112222
    (show [0, 0, 0].length = size [.one 4, .two 0x0202] by decide) (by decide)

/-- The two bytes of a value come back in the other order. -/
theorem not_agree2 : ¬ ∃ dst', set2Bytes [0, 0] 0 0x0102 = some dst' ∧
    Agree2 [0, 0] 0 0x0102 dst' := by
  rintro ⟨dst', h, ha⟩
  have hset : set2Bytes [0, 0] 0 0x0102 = some [1, 2] := by decide
  rw [hset] at h
  cases h
  exact absurd ha.returned (by decide)

end Mh40.ByteUtils
