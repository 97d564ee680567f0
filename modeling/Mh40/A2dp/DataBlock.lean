import Mathlib.Algebra.Order.Ring.Nat
import Mh40.Lib.HeapArray

/-!
# Data blocks of a device

Model of `a2dp_data_block.c` for one device: its blocks share one pool, which is reallocated when a
block is added or removed.

* `DataPool`: the header, and the bytes behind it. A pointer into the pool is its distance from the
  base, an offset counts the header, and 0 is `NULL`.
* `blockAdd`, `blockRemove`, `blockSetCurrent` and the four functions that look blocks up. Whether
  `realloc` succeeds is an argument; the bytes that it adds are set before they are read.
* The fields of a block are bit-fields of 9, 7, 6 and 10 bits, so what is stored in them is reduced.
* A device and a block that do not exist are refused by all functions, and are left out.
-/

namespace Mh40.A2dp.DataBlocks

open Lib.HeapArray

/-- `data_block_id`. -/
inductive DataBlockId where
  | sepList
  | listPreferredLocalSeids
  | listDiscoveredRemoteSeids
  | configuredServiceCaps
  deriving DecidableEq

/-- `data_block_info`. -/
structure DataBlockInfo where
  blockSize : ℕ
  elementSize : ℕ
  currentElement : ℕ
  offset : ℕ
  deriving DecidableEq

/-- `data_block_header`, with the bytes behind it. -/
structure DataPool where
  sizeBlocksPadded : ℕ
  block : DataBlockId → DataBlockInfo
  data : List UInt8

/-- `DBLK_HDR_SIZE`. -/
def dblkHdrSize : ℕ := 20

/-- `DBLK_PAD`. -/
def dblkPad (x : ℕ) : ℕ := (x + 3) / 4 * 4

/-- `DATA_BLOCK_INDEX_NEXT`. -/
def dataBlockIndexNext : UInt8 := 0xFF

/-- `DATA_BLOCK_INDEX_PREVIOUS`. -/
def dataBlockIndexPrevious : UInt8 := 0xFE

/-- `blockInit`. -/
def blockInit : DataPool := ⟨0, fun _ => ⟨0, 0, 0, 0⟩, []⟩

/-- `blockAdd`. -/
def blockAdd (p : DataPool) (id : DataBlockId) (elementCount elementSize : UInt8)
    (reallocated : Bool) : Option ℕ × DataPool :=
  if (p.block id).offset = 0 ∧ elementCount ≠ 0 ∧ elementSize ≠ 0 ∧ reallocated then
    let blockSize := elementSize.toNat * elementCount.toNat
    let paddedBlockSize := dblkPad blockSize
    let offset := dblkHdrSize + p.sizeBlocksPadded
    (some offset,
      { sizeBlocksPadded := (p.sizeBlocksPadded + paddedBlockSize) % 2 ^ 16
        block := Function.update p.block id
          { blockSize := blockSize % 2 ^ 9
            elementSize := elementSize.toNat % 2 ^ 7
            currentElement := 0
            offset := offset % 2 ^ 10 }
        data := memset (realloc p.data (p.sizeBlocksPadded + paddedBlockSize)) p.sizeBlocksPadded
          paddedBlockSize 0 })
  else (none, p)

/-- The blocks once `paddedBlockSize` bytes at `offset` are taken out. -/
def closeGap (block : DataBlockId → DataBlockInfo) (offset paddedBlockSize : ℕ)
    (id : DataBlockId) : DataBlockInfo :=
  if offset < (block id).offset then
    { block id with offset := ((block id).offset + 2 ^ 10 - paddedBlockSize % 2 ^ 10) % 2 ^ 10 }
  else block id

/-- `blockRemove`. -/
def blockRemove (p : DataPool) (id : DataBlockId) (reallocated : Bool) : DataPool :=
  let offset := (p.block id).offset
  if offset ≠ 0 then
    let paddedBlockSize := dblkPad (p.block id).blockSize
    let sizeBlocksPadded := (p.sizeBlocksPadded + 2 ^ 16 - paddedBlockSize) % 2 ^ 16
    let data := memmove p.data (offset - dblkHdrSize) (offset - dblkHdrSize + paddedBlockSize)
      (sizeBlocksPadded + dblkHdrSize - offset)
    let data := memset data sizeBlocksPadded paddedBlockSize 0xFF
    { sizeBlocksPadded
      block := Function.update (closeGap p.block offset paddedBlockSize) id ⟨0, 0, 0, 0⟩
      data := if reallocated then realloc data sizeBlocksPadded else data }
  else p

/-- A pointer into the pool, unless it is `NULL`. -/
def pointer (offset : ℕ) : Option ℕ := if offset ≠ 0 then some offset else none

/-- `blockGetBase`. -/
def blockGetBase (p : DataPool) (id : DataBlockId) : Option ℕ := pointer (p.block id).offset

/-- `blockGetIndexed`. -/
def blockGetIndexed (p : DataPool) (id : DataBlockId) (element : UInt8) : Option ℕ :=
  pointer ((p.block id).elementSize * element.toNat + (p.block id).offset)

/-- `blockGetCurrent`. -/
def blockGetCurrent (p : DataPool) (id : DataBlockId) : Option ℕ :=
  pointer ((p.block id).elementSize * (p.block id).currentElement + (p.block id).offset)

/-- The element that an argument of `blockSetCurrent` stands for. -/
def elementOf (currentElement : ℕ) (element : UInt8) : UInt8 :=
  if element = dataBlockIndexNext then UInt8.ofNat (currentElement + 1)
  else if element = dataBlockIndexPrevious then UInt8.ofNat currentElement - 1
  else element

/-- `blockSetCurrent`. -/
def blockSetCurrent (p : DataPool) (id : DataBlockId) (element : UInt8) : Option ℕ × DataPool :=
  let element := elementOf (p.block id).currentElement element
  if (p.block id).elementSize * element.toNat < (p.block id).blockSize then
    let info := { p.block id with currentElement := element.toNat % 2 ^ 6 }
    let p := { p with block := Function.update p.block id info }
    (blockGetCurrent p id, p)
  else (none, p)

/-- `blockGetSize`. -/
def blockGetSize (p : DataPool) (id : DataBlockId) : ℕ := (p.block id).blockSize

end Mh40.A2dp.DataBlocks
