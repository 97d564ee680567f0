import Mh40.Marshal.Base

/-!
# The unmarshaller

`unmarshal.c`: `unmarshal` with its two states, which rebuild the objects in memory that they
allocate.

* `Unmarshaller` is `unmarshal_context_t` together with the heap. The heap may hold blocks of
  others below those that the unmarshaller allocates.
* A read past the data leaves the object that it was part of: its block is freed and its pointer
  members leave the set, and the read outdex goes back to its first byte.
-/

namespace Mh40.Marshal

/-- `enum unmarshal_state`. -/
inductive UnmarshalState where
  | unmarshalValues
  | unmarshalPointerIndexes
  deriving Repr, DecidableEq

/-- `unmarshal_context_t`, with the heap. -/
structure Unmarshaller where
  base : MarshalBase
  heap : Memory
  buf : List UInt8
  outdex : ℕ
  state : UnmarshalState
  rootIndex : ℕ
  nextIndex : ℕ

/-- `unmarshal_init`, over a heap. -/
def unmarshalInit (heap : Memory) : Unmarshaller :=
  ⟨baseMobsInit, heap, [], 0, .unmarshalValues, mobIndexNull + 1, 0⟩

/-- `unmarshal_set_buffer`. -/
def unmarshalSetBuffer (u : Unmarshaller) (buf : List UInt8) : Unmarshaller :=
  { u with buf, outdex := 0 }

/-- `unmarshal_consumed`. -/
def unmarshalConsumed (u : Unmarshaller) : ℕ := u.outdex

/-- `read_uint8`. -/
def readUint8 (u : Unmarshaller) : Option UInt8 × Unmarshaller :=
  match u.buf[u.outdex]? with
  | some value => (some value, { u with outdex := u.outdex + 1 })
  | none => (none, u)

/-- `read_value`. -/
def readValue (childAddress : Addr) (typeDesc : TypeDescriptor) (u : Unmarshaller) :
    Option (Bool × Unmarshaller) :=
  let nextOutdex := u.outdex + typeDesc.size.toNat
  if nextOutdex ≤ u.buf.length then do
    let copy ← customCopy typeDesc.unmarshalCopy
      ((u.buf.drop u.outdex).take typeDesc.size.toNat)
    let heap ← u.heap.writeBytes childAddress copy
    some (true, { u with heap, outdex := nextOutdex })
  else some (false, u)

/-- `store_pointers`. -/
def storePointers (pointerAddr : Addr) (desc : MemberDescriptor) (_parent : Mob)
    (u : Unmarshaller) : Option (Bool × Unmarshaller) := do
  let pointerMemberSet ← mobsPushUnique u.base.pointerMemberSet ⟨some pointerAddr, desc.type, 0⟩
  some (true, { u with base.pointerMemberSet := pointerMemberSet })

/-- The callbacks of `unmarshal_values`. -/
def valueReader : TraverseCallbacks Unmarshaller := ⟨some readValue, some storePointers, none⟩

/-- The object with the index read, or the shared member behind the objects. -/
def referredObject (base : MarshalBase) (referredIndex : ℕ) : Option Mob :=
  if base.objectSet.length ≤ referredIndex then
    mobsGetObject base.sharedMemberSet (referredIndex - base.objectSet.length)
  else mobsGetObject base.objectSet referredIndex

/-- `unmarshal_pointer_indexes`. -/
def unmarshalPointerIndexes (index : ℕ) (object : Mob) (u : Unmarshaller) :
    Option (Bool × Unmarshaller) :=
  match readUint8 u with
  | (none, u) => some (false, u)
  | (some referredIndex, u) => do
    let referred ← referredObject u.base referredIndex.toNat
    let pointerAddr ← object.address
    if referred.address = none ∨ object.type = referred.type then
      let heap ← u.heap.writePointer pointerAddr referred.address
      some (true, { u with heap, nextIndex := index + 1 })
    else none

section

variable (T : TypeTable)

/-- `unmarshal_alloc`: the object with its block, `false` when the disambiguator is not there
yet. -/
def unmarshalAlloc (type : MarshalType) (u : Unmarshaller) :
    Option (Option Mob × Unmarshaller) := do
  let typeDesc ← T.desc type
  if typeDesc.dynamicLength then
    match readUint8 u with
    | (none, u) => some (none, u)
    | (some disambiguator, u) =>
      let size ← objSize T type disambiguator
      let (address, heap) := u.heap.zpmalloc size
      some (some ⟨some address, type, disambiguator⟩, { u with heap })
  else
    let (address, heap) := u.heap.zpmalloc typeDesc.size.toNat
    some (some ⟨some address, type, 0⟩, { u with heap })

/-- What one turn of the loop in `unmarshal_values` ends with. -/
inductive Turn where
  | finished
  | empty
  | object
  deriving Repr, DecidableEq

/-- One turn of the loop in `unmarshal_values`, before anything is restored. -/
def unmarshalObject (u : Unmarshaller) : Option (Turn × Unmarshaller) :=
  match readUint8 u with
  | (none, u) => some (.empty, u)
  | (some type, u) =>
    if type = marshalTypesMax then some (.finished, u)
    else if type.toNat < T.length then do
      match ← unmarshalAlloc T type u with
      | (none, u) => some (.empty, u)
      | (some object, u) =>
        let (read, u) ← objectTreeTraverse T (·.heap) valueReader object u
        if read then
          let objectSet ← mobsPushUnique u.base.objectSet object
          some (.object, { u with base.objectSet := objectSet })
        else some (.empty, { u with heap := u.heap.pfreeLast })
    else none

/-- The loop of `unmarshal_values`. Each turn pushes an object, which bounds the turns. -/
def unmarshalValuesLoop : ℕ → Unmarshaller → Option (Bool × Unmarshaller)
  | 0, _ => none
  | gas + 1, u => do
    match ← unmarshalObject T u with
    | (.finished, u) => some (true, u)
    | (.object, u) => unmarshalValuesLoop gas u
    | (.empty, v) =>
      some (false, { v with
        base.pointerMemberSet := v.base.pointerMemberSet.take u.base.pointerMemberSet.length
        outdex := u.outdex })

/-- `unmarshal_values`. -/
def unmarshalValues (u : Unmarshaller) : Option (Bool × Unmarshaller) :=
  unmarshalValuesLoop T (mobsMaxObjects + 1) u

/-- The shared members of the new objects. -/
def registerUnmarshalledShared (u : Unmarshaller) : Option Unmarshaller :=
  if T.hasSharedObjects then do
    let (finished, base) ← mobsIterate (·.objectSet) u.rootIndex (registerSharedMembers T u.heap)
      u.base
    if finished then some { u with base } else none
  else some u

/-- `UNMARSHAL_POINTER_INDEXES`: the root and its type when it is finished. -/
def unmarshalPointerIndexesState (u : Unmarshaller) : Option (Option Mob × Unmarshaller) := do
  let (finished, u) ← mobsIterate (·.base.pointerMemberSet) u.nextIndex unmarshalPointerIndexes u
  if finished then
    let root ← mobsGetObject u.base.objectSet u.rootIndex
    some (some root, { u with
      state := .unmarshalValues, nextIndex := 0, rootIndex := u.base.objectSet.length,
      base.pointerMemberSet := [] })
  else some (none, u)

/-- `UNMARSHAL_VALUES`, and on. -/
def unmarshalValuesState (u : Unmarshaller) : Option (Option Mob × Unmarshaller) := do
  let (finished, u) ← unmarshalValues T u
  if finished then
    let u ← registerUnmarshalledShared T u
    unmarshalPointerIndexesState { u with state := .unmarshalPointerIndexes }
  else some (none, u)

/-- `unmarshal`: the root when it returns TRUE. -/
def unmarshal (u : Unmarshaller) : Option (Option Mob × Unmarshaller) :=
  match u.state with
  | .unmarshalValues => unmarshalValuesState T u
  | .unmarshalPointerIndexes => unmarshalPointerIndexesState u

end

end Mh40.Marshal
