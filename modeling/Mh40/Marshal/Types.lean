import Mh40.Marshal.Memory

/-!
# Type descriptors and object sets

The data of the marshal library: the descriptors of `marshal_if.h` and the object sets of
`marshal_object_set.c`.

* `TypeTable` is `type_desc_list`, indexed by `marshal_type_t`. The callbacks in it are the
  client's: each reads the memory as it likes and may panic (`none`).
* `Mobs` is `mobs_t`. The blocks of four that hold the entries are not modelled.

Everywhere in this part, `none` as the result of a function is a fault: a failed assertion or an
access outside the memory.
-/

namespace Mh40.Marshal

/-! ## Descriptors -/

/-- `marshal_type_t`. -/
abbrev MarshalType := UInt8

/-- `MARSHAL_TYPES_MAX`. -/
def marshalTypesMax : MarshalType := 255

/-- `marshal_member_descriptor_t`. -/
structure MemberDescriptor where
  offset : UInt8
  type : MarshalType
  arrayElements : UInt8
  isPointer : Bool
  isShared : Bool
  deriving Repr, DecidableEq

/-- `dynamic_type`. -/
inductive DynamicType where
  | taggedUnion
  | array
  deriving Repr, DecidableEq

/-- `tagged_union_member` and `array_elements`: the memory, the object, the member and the array
element. -/
abbrev MemberCallback := Memory → Option Addr → MemberDescriptor → ℕ → Option ℕ

/-- `marshal_custom_copy_cb`: the bytes it writes for the bytes it reads, as many. -/
abbrev CustomCopy := List UInt8 → Option (List UInt8)

/-- `marshal_type_descriptor_t`, with the callbacks of `marshal_type_descriptor_dynamic_t`: a
type without the extended descriptor has none. -/
structure TypeDescriptor where
  members : List MemberDescriptor
  marshalCopy : Option CustomCopy
  unmarshalCopy : Option CustomCopy
  size : UInt8
  isUnion : Bool
  dynamicLength : Bool
  dynamicType : DynamicType
  taggedUnionMember : Option MemberCallback
  arrayElements : Option MemberCallback

/-- `type_desc_list`. -/
abbrev TypeTable := List TypeDescriptor

/-- `base->type_desc_list[type]`. -/
def TypeTable.desc (T : TypeTable) (type : MarshalType) : Option TypeDescriptor := T[type.toNat]?

theorem TypeTable.mem_of_desc {T : TypeTable} {type : MarshalType} {t : TypeDescriptor}
    (h : T.desc type = some t) : t ∈ T :=
  List.mem_of_getElem? h

/-- `base_initialise_type_filters`: `has_shared_objects`. -/
def TypeTable.hasSharedObjects (T : TypeTable) : Bool := T.any fun t => t.members.any (·.isShared)

/-- `MAKE_MARSHAL_TYPE_DEFINITION_BASIC`. -/
def TypeDescriptor.basic (size : UInt8) : TypeDescriptor :=
  ⟨[], none, none, size, false, false, .taggedUnion, none, none⟩

/-- `MAKE_MARSHAL_TYPE_DEFINITION`. -/
def TypeDescriptor.struct (size : UInt8) (members : List MemberDescriptor) : TypeDescriptor :=
  ⟨members, none, none, size, false, false, .taggedUnion, none, none⟩

/-- `MAKE_MARSHAL_MEMBER`. -/
def MemberDescriptor.member (offset : UInt8) (type : MarshalType) : MemberDescriptor :=
  ⟨offset, type, 1, false, false⟩

/-- `MAKE_MARSHAL_MEMBER_POINTER`. -/
def MemberDescriptor.pointer (offset : UInt8) (type : MarshalType) : MemberDescriptor :=
  ⟨offset, type, 1, true, false⟩

/-- A copy callback, `memcpy` when it is NULL, on the bytes of one leaf. -/
def customCopy (copyCb : Option CustomCopy) (bs : List UInt8) : Option (List UInt8) :=
  match copyCb with
  | none => some bs
  | some copy => (copy bs).filter (·.length = bs.length)

/-! ## Object sets -/

/-- `mob_t`. -/
structure Mob where
  address : Option Addr
  type : MarshalType
  disambiguator : UInt8
  deriving Repr, DecidableEq

/-- `mobs_t`. -/
abbrev Mobs := List Mob

/-- `MOBS_MAX_OBJECTS`. -/
abbrev mobsMaxObjects : ℕ := 255

/-- `mobs_push_unique`. -/
def mobsPushUnique (set : Mobs) (object : Mob) : Option Mobs :=
  if set.length < mobsMaxObjects then some (set ++ [object]) else none

/-- `mobs_has_object`: the index of the first match. A NULL address matches all types. -/
def mobsHasObject (set : Mobs) (object : Mob) : Option ℕ :=
  set.findIdx? fun o =>
    object.address = o.address && (o.type = object.type || object.address = none)

/-- `mobs_push`. -/
def mobsPush (set : Mobs) (object : Mob) : Option (Bool × Mobs) :=
  match mobsHasObject set object with
  | some _ => some (false, set)
  | none => (mobsPushUnique set object).map (true, ·)

/-- `mobs_remove`: the first match goes, the objects behind it move up. -/
def mobsRemove (set : Mobs) (object : Mob) : Mobs :=
  set.eraseP fun o => o.address = object.address && o.type = object.type

/-- `mobs_difference_update`. -/
def mobsDifferenceUpdate (set remove : Mobs) : Mobs := remove.foldl mobsRemove set

/-- `mobs_get_object`. -/
def mobsGetObject (set : Mobs) (index : ℕ) : Option Mob := set[index]?

/-- `mobs_iterate` over a set of the state, that the callback may let grow. A set has at most
`mobsMaxObjects` objects, which bounds the iterations. -/
def mobsIterateFrom {σ : Type} (set : σ → Mobs) (cb : ℕ → Mob → σ → Option (Bool × σ)) :
    ℕ → ℕ → σ → Option (Bool × σ)
  | 0, _, _ => none
  | gas + 1, start, s =>
    match (set s)[start]? with
    | none => some (true, s)
    | some object =>
      match cb start object s with
      | none => none
      | some (false, s') => some (false, s')
      | some (true, s') => mobsIterateFrom set cb gas (start + 1) s'

/-- `mobs_iterate`. -/
def mobsIterate {σ : Type} (set : σ → Mobs) (start : ℕ) (cb : ℕ → Mob → σ → Option (Bool × σ))
    (s : σ) : Option (Bool × σ) :=
  mobsIterateFrom set cb (mobsMaxObjects + 1) start s

end Mh40.Marshal
