import Mathlib.Algebra.Order.Ring.Nat
import Mh40.Lib.Linked

/-!
# The heap of the audio subsystem

`pmalloc/heap_alloc_hydra.c`. A processor has a few heaps, each with a list of its free blocks. A
block is a header and what follows it; the header of a free block links to the next one, that of
an allocated block holds a magic word with its owner.

* `Build`: the options of the build. `MemoryMap`: where the linker puts the heaps.
* `heapAllocInternal`: the best fit in one half of a heap, else in the other, cut at its top or at
  its bottom when enough is left.

`none` is a list of free blocks that does not end. Memory is read and written by words, at their
byte addresses. Initialisation, the choice of the heaps that are tried, `heap_free`, patches, log
messages and the watermarks of `HEAP_DEBUG` are left out.
-/

namespace Mh40.PlMalloc

open Lib

/-- `MIN_SPARE`. -/
def minSpare : ℕ := 8

/-- `ADDR_PER_WORD`. -/
def addrPerWord : ℕ := 4

/-- `DM2_RAM_BASE`. -/
def dm2RamBase : ℕ := 0xFFF00000

/-- `ROUND_UP_TO_WHOLE_WORDS`. -/
def roundUpToWholeWords (num : ℕ) : ℕ :=
  (num + (addrPerWord - 1)) % 2 ^ 32 / addrPerWord * addrPerWord

/-- `MAGIC_WORD_WITH_OWNER`: the task is in the top byte. -/
def magicWordWithOwner (owner : ℕ) : ℕ := owner % 2 ^ 8 * 2 ^ 24 + 0xabcd01

/-- Not `IS_NOT_MAGIC_WORD`. -/
def IsMagicWord (word : ℕ) : Prop := word % 2 ^ 24 = 0xabcd01

instance (word : ℕ) : Decidable (IsMagicWord word) := inferInstanceAs (Decidable (_ = _))

/-! ## The build and the memory map -/

/-- `heap_names`. -/
inductive HeapName
  | main
  | shared
  | slow
  | ext
deriving DecidableEq, Repr

/-- The options of a build. -/
structure Build where
  /-- `PMALLOC_DEBUG`. -/
  pmallocDebug : Bool
  /-- `CHIP_HAS_SLOW_DM_RAM`. -/
  hasSlowDmRam : Bool
  /-- `INSTALL_EXTERNAL_MEM`. -/
  externalMem : Bool

/-- `sizeof(mem_node)`: the length and the link, and with `PMALLOC_DEBUG` the file, the line and a
guard. -/
def Build.nodeSize (B : Build) : ℕ := if B.pmallocDebug then 20 else 8

/-- `GUARD_SIZE`. -/
def Build.guardSize (B : Build) : ℕ := if B.pmallocDebug then 4 else 0

/-- The heaps of a processor, and what is configured for it. -/
structure MemoryMap where
  build : Build
  heapStart : HeapName → ℕ
  heapSize : HeapName → ℕ
  /-- `hal_get_sram_enabled`. -/
  sramEnabled : Bool
  aligned : ∀ name, heapStart name % addrPerWord = 0 ∧ heapSize name % addrPerWord = 0
  /-- Heaps that are not empty do not overlap. -/
  apart : ∀ name name', name ≠ name' → 0 < heapSize name → 0 < heapSize name' →
    heapStart name + heapSize name ≤ heapStart name' ∨
      heapStart name' + heapSize name' ≤ heapStart name
  /-- The memory of the chip can be seen a second time, at `DM2_RAM_BASE`. -/
  dm_le : ∀ name, name ≠ .ext → heapStart name + heapSize name ≤ 2 ^ 32 - dm2RamBase
  ext_le : heapStart .ext + heapSize .ext ≤ dm2RamBase

/-- `heap_end`. -/
def MemoryMap.heapEnd (c : MemoryMap) (name : HeapName) : ℕ := c.heapStart name + c.heapSize name

def MemoryMap.heapMidpoint (c : MemoryMap) (name : HeapName) : ℕ :=
  c.heapStart name + c.heapSize name / 2

/-- A list of free blocks is shorter than this. -/
def MemoryMap.fuel (c : MemoryMap) (name : HeapName) : ℕ := c.heapSize name + 1

/-- The size rounded up to words, with the guard. -/
def MemoryMap.needed (c : MemoryMap) (size : ℕ) : ℕ :=
  (roundUpToWholeWords size + c.build.guardSize) % 2 ^ 32

/-! ## The state -/

/-- Memory, the lists of free blocks, and `heap_free`; 0 is `NULL`. -/
structure HydraHeap where
  mem : ℕ → ℕ
  freelist : HeapName → ℕ
  heapFree : HeapName → ℕ

/-- `node->u.next`. -/
def nextOf (mem : ℕ → ℕ) (p : ℕ) : ℕ := mem (p + 4)

/-- What a `mem_node **` points to. -/
inductive Link
  | freelist
  | next (p : ℕ)
deriving DecidableEq, Repr

def HydraHeap.write (h : HydraHeap) (addr value : ℕ) : HydraHeap :=
  { h with mem := Function.update h.mem addr value }

/-- `*pnode`. -/
def HydraHeap.deref (h : HydraHeap) (name : HeapName) : Link → ℕ
  | .freelist => h.freelist name
  | .next p => nextOf h.mem p

/-- `*pnode = value`. -/
def HydraHeap.assign (h : HydraHeap) (name : HeapName) (value : ℕ) : Link → HydraHeap
  | .freelist => { h with freelist := Function.update h.freelist name value }
  | .next p => h.write (p + 4) value

/-- A header copied to another address. -/
def HydraHeap.copyNode (h : HydraHeap) (B : Build) (src dst : ℕ) : HydraHeap :=
  { h with mem := fun i => if dst ≤ i ∧ i < dst + B.nodeSize then h.mem (src + (i - dst))
      else h.mem i }

/-- `heap_free += n`. -/
def HydraHeap.addFree (h : HydraHeap) (name : HeapName) (n : ℕ) : HydraHeap :=
  { h with heapFree := Function.update h.heapFree name ((h.heapFree name + n) % 2 ^ 32) }

/-- `heap_free -= n`. -/
def HydraHeap.subFree (h : HydraHeap) (name : HeapName) (n : ℕ) : HydraHeap :=
  { h with heapFree := Function.update h.heapFree name ((h.heapFree name + 2 ^ 32 - n) % 2 ^ 32) }

/-! ## The heaps of a processor -/

/-- Whether the processor has the heap. -/
def MemoryMap.Enabled (c : MemoryMap) : HeapName → Prop
  | .main => True
  | .shared => True
  | .slow => c.build.hasSlowDmRam = true
  | .ext => c.build.externalMem = true ∧ c.sramEnabled = true

instance (c : MemoryMap) : DecidablePred c.Enabled
  | .main => inferInstanceAs (Decidable True)
  | .shared => inferInstanceAs (Decidable True)
  | .slow => inferInstanceAs (Decidable (_ = _))
  | .ext => inferInstanceAs (Decidable (_ ∧ _))

/-! ## Allocation -/

/-- The variables of the search for the best fit. -/
structure Search where
  pbest : Option Link
  bestsize : ℕ
  pnode : Link

/-- One turn of the search: a block in the other half of the heap counts as a long one. -/
def searchStep (c : MemoryMap) (mem : ℕ → ℕ) (size : ℕ) (name : HeapName) (topDown : Bool)
    (s : Search) (node : ℕ) : Search :=
  let length := mem node
  let nodesize :=
    if topDown then
      if node < c.heapMidpoint name then c.heapSize name - 1 else length
    else
      if c.heapMidpoint name ≤ node then c.heapSize name - 1 else length
  let s :=
    if size ≤ length ∧ nodesize < s.bestsize then
      { s with pbest := some s.pnode, bestsize := length }
    else s
  { s with pnode := .next node }

/-- The header of the block, and the address after it. -/
def finishAlloc (c : MemoryMap) (h : HydraHeap) (name : HeapName) (addr size owner : ℕ) :
    ℕ × HydraHeap :=
  let h := (h.write addr (size - c.build.guardSize)).write (addr + 4) (magicWordWithOwner owner)
  (addr + c.build.nodeSize, h.subFree name (size + c.build.nodeSize))

/-- The block found: cut when enough is left of it, and else taken whole. -/
def takeBlock (c : MemoryMap) (h : HydraHeap) (name : HeapName) (topDown : Bool) (pbest : Link)
    (size owner : ℕ) : ℕ × HydraHeap :=
  let best := h.deref name pbest
  let length := h.mem best
  if (size + c.build.nodeSize + minSpare) % 2 ^ 32 ≤ length then
    if topDown then
      let addr := best + length - size
      let h := h.write best (length - (size + c.build.nodeSize))
      finishAlloc c h name addr size owner
    else
      let moved := best + size + c.build.nodeSize
      let h := (h.assign name moved pbest).copyNode c.build best moved
      let h := h.write moved (length - (size + c.build.nodeSize))
      finishAlloc c h name best size owner
  else
    let h := h.assign name (nextOf h.mem best) pbest
    let h := h.addFree name (c.build.nodeSize + c.build.guardSize)
    finishAlloc c h name best length owner

/-- `heap_alloc_internal`, 0 when no block is found. -/
def heapAllocInternal (c : MemoryMap) (h : HydraHeap) (size : ℕ) (name : HeapName)
    (topDown : Bool) (owner : ℕ) : Option (ℕ × HydraHeap) := do
  let size := c.needed size
  let nodes ← walk (nextOf h.mem) (c.fuel name) (h.freelist name)
  let s := nodes.foldl (searchStep c h.mem size name topDown) ⟨none, c.heapSize name, .freelist⟩
  match s.pbest with
  | none => some (0, h)
  | some pbest => some (takeBlock c h name topDown pbest size owner)

end Mh40.PlMalloc
