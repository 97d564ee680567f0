import Mh40.Marshal.Base

/-!
# The marshaller

`marshal.c`: `marshal` with the four states in which a full buffer can stop it, over the object
sets of `marshal_base_t`.

* `Marshaller` is `marshal_context_t`. `written` are the bytes of the buffer up to the write index,
  so the index is its length and a restored index is a prefix of it.
* The memory of the client is a parameter of each call. The buffer is not part of it.
* A call of `marshal` on a new root registers the objects and falls through the states as far as
  the buffer allows.
-/

namespace Mh40.Marshal

/-- `enum marshal_state`. -/
inductive MarshalState where
  | registerPointers
  | marshalValues
  | marshalValuesEnd
  | marshalPointerIndexes
  deriving Repr, DecidableEq

/-- `marshal_context_t`. -/
structure Marshaller where
  base : MarshalBase
  hasBuffer : Bool
  size : ℕ
  written : List UInt8
  state : MarshalState
  nextValuesIndex : ℕ
  nextPointersIndex : ℕ
  deriving Repr, DecidableEq

/-- `marshal_init`, before a buffer is set. -/
def marshalInit : Marshaller :=
  ⟨baseMobsInit, false, 0, [], .registerPointers, mobIndexNull + 1, 0⟩

/-- `marshal_set_buffer` with a buffer of `space` bytes. -/
def marshalSetBuffer (m : Marshaller) (space : ℕ) : Marshaller :=
  { m with hasBuffer := true, size := space, written := [] }

/-- `marshal_produced`. -/
def marshalProduced (m : Marshaller) : ℕ := m.written.length

/-- `write_uint8`. -/
def writeUint8 (value : UInt8) (m : Marshaller) : Option (Bool × Marshaller) :=
  if m.written.length < m.size then
    if m.hasBuffer then some (true, { m with written := m.written ++ [value] }) else none
  else some (false, m)

section

variable (T : TypeTable) (mem : Memory)

/-- `write_value`. -/
def writeValue (leafAddress : Addr) (typeDesc : TypeDescriptor) (m : Marshaller) :
    Option (Bool × Marshaller) :=
  if m.hasBuffer && m.written.length + typeDesc.size.toNat ≤ m.size then do
    let bs ← mem.readBytes leafAddress typeDesc.size.toNat
    let copy ← customCopy typeDesc.marshalCopy bs
    some (true, { m with written := m.written ++ copy })
  else some (false, m)

/-- The index that `write_pointer_index` writes: of the object, or of the shared member behind
the objects. -/
def referredIndex (base : MarshalBase) (referred : Mob) : Option ℕ :=
  match mobsHasObject base.objectSet referred with
  | some index => some index
  | none => (mobsHasObject base.sharedMemberSet referred).map (· + base.objectSet.length)

/-- `write_pointer_index`. -/
def writePointerIndex (pointer : Mob) (m : Marshaller) : Option (Bool × Marshaller) := do
  let pointerAddr ← pointer.address
  let referred ← mem.readPointer pointerAddr
  let index ← referredIndex m.base { pointer with address := referred }
  writeUint8 (UInt8.ofNat index) m

/-- `register_pointer`. -/
def registerPointer (pointerAddr : Addr) (desc : MemberDescriptor) (parent : Mob)
    (base : MarshalBase) : Option (Bool × MarshalBase) := do
  let referred ← mem.readPointer pointerAddr
  let disambiguator ← objDisambiguator T mem referred desc (some parent)
  let (_, objectSet) ← mobsPush base.objectSet ⟨referred, desc.type, disambiguator⟩
  let pointerMemberSet ← mobsPushUnique base.pointerMemberSet ⟨some pointerAddr, desc.type, 0⟩
  some (true, { base with objectSet, pointerMemberSet })

/-- `register_pointer_members`. -/
def registerPointerMembers (_index : ℕ) (object : Mob) (base : MarshalBase) :
    Option (Bool × MarshalBase) :=
  objectTreeTraverse T (fun _ => mem) ⟨none, some (registerPointer T mem), none⟩ object base

/-- `marshal_pointer_indexes`. -/
def marshalPointerIndexes (index : ℕ) (object : Mob) (m : Marshaller) :
    Option (Bool × Marshaller) := do
  let (written, m) ← writePointerIndex mem object m
  if written then some (true, { m with nextPointersIndex := index + 1 }) else some (false, m)

/-- The header of `marshal_values`: the type, and the disambiguator of a dynamic length type. -/
def writeHeader (object : Mob) (m : Marshaller) : Option (Bool × Marshaller) := do
  let typeDesc ← T.desc object.type
  let (written, m) ← writeUint8 object.type m
  if written && typeDesc.dynamicLength then writeUint8 object.disambiguator m
  else some (written, m)

/-- The writes of `marshal_values`: the header, then the leaf values. -/
def writeObject (object : Mob) (m : Marshaller) : Option (Bool × Marshaller) := do
  let (written, m) ← writeHeader T object m
  if written then objectTreeTraverse T (fun _ => mem) ⟨some (writeValue mem), none, none⟩ object m
  else some (false, m)

/-- `marshal_values`. A write that fails restores the index from before the first. -/
def marshalValues (index : ℕ) (object : Mob) (m : Marshaller) : Option (Bool × Marshaller) := do
  let backupIndex := m.written.length
  let (written, m) ← writeObject T mem object m
  if written then some (true, { m with nextValuesIndex := index + 1 })
  else some (false, { m with written := m.written.take backupIndex })

/-- `MARSHAL_POINTER_INDEXES`. -/
def marshalPointerIndexesState (m : Marshaller) : Option (Bool × Marshaller) := do
  let (finished, m) ← mobsIterate (·.base.pointerMemberSet) m.nextPointersIndex
    (marshalPointerIndexes mem) m
  if finished then
    some (true, { m with
      state := .registerPointers, nextPointersIndex := 0, base.pointerMemberSet := [] })
  else some (false, m)

/-- `MARSHAL_VALUES_END`, and on. -/
def marshalValuesEndState (m : Marshaller) : Option (Bool × Marshaller) := do
  let (written, m) ← writeUint8 marshalTypesMax m
  if written then marshalPointerIndexesState mem { m with state := .marshalPointerIndexes }
  else some (false, m)

/-- `MARSHAL_VALUES`, and on. -/
def marshalValuesState (m : Marshaller) : Option (Bool × Marshaller) := do
  let (finished, m) ← mobsIterate (·.base.objectSet) m.nextValuesIndex (marshalValues T mem) m
  if finished then marshalValuesEndState mem { m with state := .marshalValuesEnd }
  else some (false, m)

/-- The shared members of the objects from `start` on: registered in their own set, and taken out
of the object set where a pointer registered them as objects. -/
def registerShared (start : ℕ) (base : MarshalBase) : Option MarshalBase :=
  if T.hasSharedObjects then do
    let (finished, base) ← mobsIterate (·.objectSet) start (registerSharedMembers T mem) base
    let objectSet := mobsDifferenceUpdate base.objectSet base.sharedMemberSet
    if finished && objectSet.length + base.sharedMemberSet.length ≤ mobsMaxObjects then
      some { base with objectSet }
    else none
  else some base

/-- What `REGISTER_POINTERS` does after the push of a new root: a breadth-first traversal from
`start` on, in which each pointer member may add an object behind the others. -/
def registerObjects (start : ℕ) (base : MarshalBase) : Option MarshalBase := do
  let (finished, base) ← mobsIterate (·.objectSet) start (registerPointerMembers T mem) base
  if finished then registerShared T mem start base else none

/-- `REGISTER_POINTERS`, and on. A root that is in the set was marshalled before. -/
def registerPointersState (addr : Addr) (type : MarshalType) (m : Marshaller) :
    Option (Bool × Marshaller) := do
  let disambiguator ← objDisambiguator T mem (some addr) (.member 0 type) none
  let (pushed, objectSet) ← mobsPush m.base.objectSet ⟨some addr, type, disambiguator⟩
  if pushed then
    let base ← registerObjects T mem m.nextValuesIndex { m.base with objectSet }
    marshalValuesState T mem { m with base, state := .marshalValues }
  else some (true, m)

/-- `marshal`. -/
def marshal (m : Marshaller) (addr : Addr) (type : MarshalType) : Option (Bool × Marshaller) :=
  if type.toNat < T.length then
    match m.state with
    | .registerPointers => registerPointersState T mem addr type m
    | .marshalValues => marshalValuesState T mem m
    | .marshalValuesEnd => marshalValuesEndState mem m
    | .marshalPointerIndexes => marshalPointerIndexesState mem m
  else none

end

end Mh40.Marshal
