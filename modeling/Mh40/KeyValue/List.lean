import Mh40.Lib.HeapArray

/-!
# Key-value list

Model of `key_value_list.c`. Values of 1, 2 and 4 octets are in three arrays, their keys in one
array, first the keys of the values of 1 octet, then of 2, then of 4. Values of other sizes are in a
linked list.

* An array is the list of its cells, `NULL` is the empty list; the linked list is a list.
* A value is the octets it is copied from and handed out as. A handed out pointer is the octets it
  points to.
* A panic, and a read outside of a value array, are `none`.
* The callback of `KeyValueList_RegisterAddCallback` is left out: it is called when the pair is in
  the list, and operations that it calls are further operations of the run.
-/

namespace Mh40.KeyValue

open Lib.HeapArray

/-- A value of `n` octets. -/
abbrev Octets (n : ℕ) := { bs : List UInt8 // bs.length = n }

instance {n : ℕ} : Inhabited (Octets n) := ⟨⟨List.replicate n 0, List.length_replicate⟩⟩

/-- `large_kv_element_t`. -/
structure LargeKvElement where
  len : UInt16
  key : UInt16
  data : List UInt8
  deriving DecidableEq

/-- `key_value_list_tag`; `head` is the linked list. -/
structure KeyValueList where
  lenKeys : UInt8
  len8 : UInt8
  len16 : UInt8
  len32 : UInt8
  keys : List UInt16
  values8 : List (Octets 1)
  values16 : List (Octets 2)
  values32 : List (Octets 4)
  head : List LargeKvElement
  deriving DecidableEq

/-- `KeyValueList_Create`. -/
def create : KeyValueList := ⟨0, 0, 0, 0, [], [], [], [], []⟩

/-! ## Searching -/

/-- The element of the linked list with the key. -/
def findLarge (list : KeyValueList) (key : UInt16) : Option LargeKvElement :=
  list.head.find? (·.key = key)

/-- A loop over `len` keys from `start` on: the index of the key, from `start`. -/
def findKey (list : KeyValueList) (start len : ℕ) (key : UInt16) : Option ℕ :=
  ((list.keys.drop start).take len).findIdx? (· = key)

/-- The size and the octets of the value whose key has the index. -/
def valueAt (list : KeyValueList) (index : ℕ) : Option (ℕ × List UInt8) :=
  if index < list.len8.toNat then list.values8[index]?.map fun v => (1, v.val)
  else
    let index := index - list.len8.toNat
    if index < list.len16.toNat then list.values16[index]?.map fun v => (2, v.val)
    else
      let index := index - list.len16.toNat
      list.values32[index]?.map fun v => (4, v.val)

/-- `KeyValueList_Get`: the size and the octets, if the key is set. -/
def get (list : KeyValueList) (key : UInt16) : Option (Option (ℕ × List UInt8)) :=
  match findLarge list key with
  | some ele => some (some (ele.len.toNat, ele.data.take ele.len.toNat))
  | none =>
    match findKey list 0 list.lenKeys.toNat key with
    | some index => (valueAt list index).map some
    | none => some none

/-- `KeyValueList_IsSet`. -/
def isSet (list : KeyValueList) (key : UInt16) : Option Bool :=
  (get list key).map Option.isSome

/-- The end of `KeyValueList_GetSized`: a panic when the key has a value of another size. -/
def notSized (list : KeyValueList) (key : UInt16) : Option (Option (List UInt8)) :=
  (isSet list key).bind fun set => if set then none else some none

/-- `KeyValueList_GetSized`. -/
def getSized (list : KeyValueList) (key : UInt16) (size : ℕ) : Option (Option (List UInt8)) :=
  if size = 1 then
    match findKey list 0 list.len8.toNat key with
    | some index => list.values8[index]?.map fun v => some v.val
    | none => notSized list key
  else if size = 2 then
    match findKey list list.len8.toNat list.len16.toNat key with
    | some index => list.values16[index]?.map fun v => some v.val
    | none => notSized list key
  else if size = 4 then
    match findKey list (list.len8.toNat + list.len16.toNat) list.len32.toNat key with
    | some index => list.values32[index]?.map fun v => some v.val
    | none => notSized list key
  else
    match findLarge list key with
    | some ele => some (some ele.data)
    | none => notSized list key

/-! ## Adding -/

/-- One value behind the `len` values of an array. -/
def appendValue {n : ℕ} (values : List (Octets n)) (len : UInt8) (value : Octets n) :
    List (Octets n) :=
  (realloc values (len.toNat + 1)).set len.toNat value

/-- The end of `keyValueList_addKeyValuePair`: room for the key is made at `keyIndex`. -/
def insertKey (list : KeyValueList) (keyIndex : ℕ) (key : UInt16) : KeyValueList :=
  let newLen := list.lenKeys.toNat + 1
  let keys := memmove (realloc list.keys newLen) (keyIndex + 1) keyIndex
    (list.lenKeys.toNat - keyIndex)
  { list with keys := keys.set keyIndex key, lenKeys := .ofNat newLen }

/-- `keyValueList_addKeyValuePair`. -/
def addKeyValuePair (list : KeyValueList) (key : UInt16) (value : List UInt8) : KeyValueList :=
  if h : value.length = 1 then
    insertKey { list with
      values8 := appendValue list.values8 list.len8 ⟨value, h⟩
      len8 := .ofNat (list.len8.toNat + 1) } list.len8.toNat key
  else if h : value.length = 2 then
    insertKey { list with
      values16 := appendValue list.values16 list.len16 ⟨value, h⟩
      len16 := .ofNat (list.len16.toNat + 1) } (list.len8.toNat + list.len16.toNat) key
  else if h : value.length = 4 then
    insertKey { list with
      values32 := appendValue list.values32 list.len32 ⟨value, h⟩
      len32 := .ofNat (list.len32.toNat + 1) }
      (list.len8.toNat + list.len16.toNat + list.len32.toNat) key
  else
    { list with head := ⟨.ofNat value.length, key, value⟩ :: list.head }

/-- `KeyValueList_Add`. -/
def add (list : KeyValueList) (key : UInt16) (value : List UInt8) : Option (Bool × KeyValueList) :=
  (isSet list key).map fun set =>
    if !set then (true, addKeyValuePair list key value) else (false, list)

/-! ## Removing -/

/-- A cell is taken out of an array of `len` cells. -/
def removeCell {α : Type} [Inhabited α] (arr : List α) (len : UInt8) (index : ℕ) : List α :=
  let moved := memmove arr index (index + 1) (len.toNat - index)
  if len - 1 ≠ 0 then realloc moved (len - 1).toNat else []

/-- The value whose key has the index is taken out of its array. -/
def removeValue (list : KeyValueList) (index : ℕ) : Option KeyValueList :=
  if index < list.len8.toNat then
    some { list with
      values8 := removeCell list.values8 list.len8 index, len8 := list.len8 - 1 }
  else
    let index := index - list.len8.toNat
    if index < list.len16.toNat then
      some { list with
        values16 := removeCell list.values16 list.len16 index, len16 := list.len16 - 1 }
    else
      let index := index - list.len16.toNat
      if index < list.len32.toNat then
        some { list with
          values32 := removeCell list.values32 list.len32 index, len32 := list.len32 - 1 }
      else none

/-- The key with the index is taken out of the array of keys. -/
def removeKey (list : KeyValueList) (keyIndex : ℕ) : KeyValueList :=
  { list with keys := removeCell list.keys list.lenKeys keyIndex, lenKeys := list.lenKeys - 1 }

/-- `KeyValueList_Remove`. -/
def remove (list : KeyValueList) (key : UInt16) : Option KeyValueList :=
  match findLarge list key with
  | some _ => some { list with head := list.head.eraseP (·.key = key) }
  | none =>
    match findKey list 0 list.lenKeys.toNat key with
    | some keyIndex => (removeValue list keyIndex).map (removeKey · keyIndex)
    | none => some list

/-- `KeyValueList_RemoveAll`. -/
def removeAll (_list : KeyValueList) : KeyValueList := create

/-! ## Runs -/

/-- An operation on a list. -/
inductive Op where
  | add (key : UInt16) (value : List UInt8)
  | remove (key : UInt16)
  | removeAll
  | get (key : UInt16)
  | isSet (key : UInt16)
  | getSized (key : UInt16) (size : ℕ)

/-- What an operation returns. -/
inductive Result where
  | added (success : Bool)
  | done
  | got (value : Option (ℕ × List UInt8))
  | set (success : Bool)
  | sized (value : Option (List UInt8))
  deriving DecidableEq

/-- One operation: the list after it and what it returns. -/
def step (list : KeyValueList) : Op → Option (KeyValueList × Result)
  | .add key value => (add list key value).map fun r => (r.2, .added r.1)
  | .remove key => (remove list key).map (·, .done)
  | .removeAll => some (removeAll list, .done)
  | .get key => (get list key).map fun r => (list, .got r)
  | .isSet key => (isSet list key).map fun r => (list, .set r)
  | .getSized key size => (getSized list key size).map fun r => (list, .sized r)

end Mh40.KeyValue
