import Mathlib.Algebra.Order.Ring.Nat
import Mh40.Lib.Buffer

/-!
# Private data of a metadata tag

Model of the private data of `buffer_metadata.c`: a block of memory with a count of items, and the
items one behind the other, each a word with its key and its length and then its bytes, in whole
words.

* A block is the list of its bytes, and its length is what `psizeof` says. The words are in little
  endian order, and the bit-fields of an item start at its lowest bit. An access outside of a block
  is `none`, and a pointer into it is the distance from its start.
* `Grant`: what the allocator has for a request, which may be larger than the request.
* `addPrivateData`, `findPrivateData`, `copyPrivateData`: the last one is what
  `buff_metadata_copy_tag` does with the block. The references that it counts for an end of file are
  kept outside of the tag, and are left out.
-/

namespace Mh40.BuffMetadata

open Lib.Buffer

/-- A block of memory. -/
abbrev Block := List UInt8

/-- What the allocator has for a request: bytes beyond the request, and what is in the block. -/
structure Grant where
  spare : ℕ
  contents : ℕ → UInt8

/-- `xpmalloc`. The sizes of blocks are an `int`. -/
def xpmalloc (size : ℕ) (grant : Option Grant) : Option Block :=
  grant.bind fun g =>
    if size + g.spare < 2 ^ 31 then some ((List.range (size + g.spare)).map g.contents) else none

/-- `psizeof`. -/
def psizeof (xdata : Option Block) : ℕ := (xdata.map List.length).getD 0

/-- `ROUND_UP_TO_WHOLE_WORDS`, of an unsigned number. -/
def roundUpToWholeWords (num : ℕ) : ℕ := (num + 3) % 2 ^ 32 / 4 * 4

/-- `PRIV_ITEM_LENGTH`. -/
def privItemLength (length : ℕ) : ℕ := roundUpToWholeWords ((4 + length) % 2 ^ 32)

/-- The bytes of a word. -/
def wordBytes (w : ℕ) : List UInt8 :=
  [UInt8.ofNat w, UInt8.ofNat (w / 2 ^ 8), UInt8.ofNat (w / 2 ^ 16), UInt8.ofNat (w / 2 ^ 24)]

/-- `item_count`. -/
def itemCount (block : Block) : Option ℕ :=
  (readAt block 0 4).map fun bytes => bytes.foldr (fun b w => b.toNat + 2 ^ 8 * w) 0

/-- An assignment to `item_count`. -/
def setItemCount (block : Block) (count : ℕ) : Option Block := writeAt block 0 (wordBytes count)

/-- `key` and `length` of the item at an offset. -/
def privItem (block : Block) (off : ℕ) : Option (UInt8 × ℕ) :=
  (readAt block off 3).bind fun bytes =>
    match bytes with
    | [key, low, high] => some (key, low.toNat + 2 ^ 8 * high.toNat)
    | _ => none

/-- `PRIV_ITEM_NEXT`, of an item with this length. -/
def privItemNext (off length : ℕ) : ℕ := off + privItemLength length

/-- The loop of `buff_metadata_get_priv_data_length`: where the item behind the next `items` ones
is. -/
def lengthLoop (block : Block) : ℕ → ℕ → Option ℕ
  | 0, off => some off
  | items + 1, off => do
    let (_, length) ← privItem block off
    lengthLoop block items (privItemNext off length)

/-- `buff_metadata_get_priv_data_length`. -/
def getPrivDataLength (block : Block) : Option ℕ := do
  let numItems ← itemCount block
  lengthLoop block numItems 4

/-- The loop of `buff_metadata_find_private_data`. -/
def findLoop (block : Block) (key : UInt8) : ℕ → ℕ → Option (Option (ℕ × ℕ))
  | 0, _ => some none
  | items + 1, off => do
    let (itemKey, length) ← privItem block off
    if itemKey = key then some (some (length, off + 4))
    else findLoop block key items (privItemNext off length)

/-- `buff_metadata_find_private_data`: the length of the item and where its data is. -/
def findPrivateData (xdata : Option Block) (key : UInt8) : Option (Option (ℕ × ℕ)) :=
  match xdata with
  | none => some none
  | some block => do
    let numItems ← itemCount block
    findLoop block key numItems 4

/-- The assignments to `key` and `length`: the latter has 16 bits. -/
def populateItem (block : Block) (off : ℕ) (key : UInt8) (length : UInt32) : Option Block :=
  writeAt block off [key, UInt8.ofNat length.toNat, UInt8.ofNat (length.toNat / 2 ^ 8)]

/-- `memcpy` of the data, if it is provided. -/
def copyData (block : Block) (off : ℕ) (length : UInt32) (data : Option (ℕ → UInt8)) :
    Option Block :=
  match data with
  | some data => writeAt block off ((List.range length.toNat).map data)
  | none => some block

/-- The block that an item is added to, with its count: the one of the tag, or a new one with all of
the data. -/
def makeRoom (xdata newData : Option Block) (oldSize : ℕ) : Option Block :=
  match xdata with
  | some old => do
    let block ← match newData with
      | some new => (readAt old 0 oldSize).bind (writeAt new 0)
      | none => some old
    let count ← itemCount block
    setItemCount block ((count + 1) % 2 ^ 32)
  | none => do
    let new ← newData
    setItemCount new 1

/-- `old_size`: without data, the space for the count. -/
def oldSizeOf (xdata : Option Block) : Option ℕ :=
  match xdata with
  | none => some 4
  | some block => getPrivDataLength block

/-- `buff_metadata_add_private_data`: where the data of the new item is, and the block of the
tag. -/
def addPrivateData (xdata : Option Block) (key : UInt8) (length : UInt32)
    (data : Option (ℕ → UInt8)) (grant : Option Grant) : Option (Option ℕ × Option Block) := do
  let oldSize ← oldSizeOf xdata
  let newSize := (oldSize + privItemLength length.toNat) % 2 ^ 32
  let newData := if newSize > psizeof xdata then xpmalloc newSize grant else none
  if newSize > psizeof xdata ∧ newData = none then some (none, xdata)
  else do
    let block ← makeRoom xdata newData oldSize
    let block ← populateItem block oldSize key length
    let block ← copyData block (oldSize + 4) length data
    some (some (oldSize + 4), some block)

/-- `buff_metadata_copy_tag`, for the block of the tag: it is lost when there is no memory. -/
def copyPrivateData (xdata : Option Block) (grant : Option Grant) : Option (Option Block) :=
  match xdata with
  | none => some none
  | some block => do
    let length ← getPrivDataLength block
    match xpmalloc length grant with
    | none => some none
    | some new => do
      let new ← (readAt block 0 length).bind (writeAt new 0)
      some (some new)

end Mh40.BuffMetadata
