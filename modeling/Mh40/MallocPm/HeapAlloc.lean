import Mathlib.Algebra.Order.Ring.Nat
import Mh40.Lib.Linked

/-!
# The program memory heap

`malloc_pm/heap_alloc_pm.c`, as it is built for an 8-bit addressable processor with two cores. A
block is a header of two words and what follows it; the header of a free block links to the next
one, that of an allocated block holds a magic word. Each core has a list of free blocks.

* `Chip`: where the banks of program memory and the cache are. `Config`: where the heap starts and
  which cores share it.
* `initHeapPm`: one free block for each heap.
* `heapAllocPm`: the best fit, split when enough is left.
* `heapFreePm`: the block joined with the free ones before and after it.

`none` is a panic, or a list of free blocks that does not end. Addresses are those of bytes, words
of memory are numbered by `GET_NODE_ADDR32`. Patches and log messages are left out.
-/

namespace Mh40.MallocPm

open Lib

/-- `PC_PER_INSTRUCTION`. -/
def pcPerInstruction : ℕ := 4

/-- `SIZE_OF_DM_VAR_IN_PM_32(mem_node_pm)`. -/
def nodeSize : ℕ := 2

/-- `MAGIC_WORD`. -/
def magicWord : ℕ := 0xabcd01

/-- `BYTES_INTO_PM_32`. -/
def bytesIntoPm32 (x : ℕ) : ℕ := x / pcPerInstruction

/-- `MIN_SPARE_32`. -/
def minSpare32 : ℕ := bytesIntoPm32 32

/-- `HEAP_SIZE`, in words. -/
def heapSize (start stop : ℕ) : ℕ := (stop + 2 ^ 32 - start) % 2 ^ 32 / pcPerInstruction

/-- A number of words further. -/
def ptrAdd (p words : ℕ) : ℕ := (p + words * pcPerInstruction) % 2 ^ 32

/-! ## The chip and its configuration -/

/-- The program memory of a chip. -/
structure Chip where
  /-- `PM_RAM_END_ADDRESS`. -/
  pmRamEndAddress : ℕ
  /-- `PM_RAM_P1_CACHE_START_ADDRESS`. -/
  pmRamP1CacheStartAddress : ℕ
  /-- `PM_BANK_SIZE` is this power of two. -/
  pmBankBits : ℕ
  /-- `NUMBER_PM_BANKS`. -/
  numberPmBanks : ℕ
  /-- `PM_RAM_CACHE_BANK_SIZE_WORDS * ADDR_PER_WORD`. -/
  pmRamCacheBankSize : ℕ
  /-- `HAVE_USABLE_PM_ABOVE_P1_CACHE_BANK`. -/
  usableAboveP1Cache : Bool
  bank_bits : 3 ≤ pmBankBits
  cache_le_end : pmRamP1CacheStartAddress ≤ pmRamEndAddress
  end_lt : pmRamEndAddress < 2 ^ 32
  banks_le_cache : 2 ^ pmBankBits * numberPmBanks ≤ pmRamP1CacheStartAddress
  one_bank : 1 ≤ numberPmBanks
  cache_aligned : pmRamP1CacheStartAddress % 4 = 0
  end_aligned : pmRamEndAddress % 4 = 0
  cache_bank_pos : 0 < pmRamCacheBankSize
  cache_bank_aligned : pmRamCacheBankSize % 4 = 0
  /-- What is left of a bank before the cache, and after it, is more than a word. -/
  before_cache : pmRamP1CacheStartAddress % 2 ^ pmBankBits ≠ 4
  after_cache : pmRamP1CacheStartAddress + pmRamCacheBankSize + 4 ≠ pmRamEndAddress

/-- The chip that the sources are built for. -/
def streplus : Chip where
  pmRamEndAddress := 0x0401C000
  pmRamP1CacheStartAddress := 0x0401B800
  pmBankBits := 13
  numberPmBanks := 14
  pmRamCacheBankSize := 0x800
  usableAboveP1Cache := false
  bank_bits := by decide
  cache_le_end := by decide
  end_lt := by decide
  banks_le_cache := by decide
  one_bank := by decide
  cache_aligned := by decide
  end_aligned := by decide
  cache_bank_pos := by decide
  cache_bank_aligned := by decide
  before_cache := by decide
  after_cache := by decide

/-- `PM_BANK_SIZE`. -/
def Chip.pmBankSize (chip : Chip) : ℕ := 2 ^ chip.pmBankBits

/-- `P1_PM_CACHE_BANK_USABLE_START_ADDR`. -/
def Chip.usableStart (chip : Chip) : ℕ := chip.pmRamP1CacheStartAddress + chip.pmRamCacheBankSize

/-- What the initialisation is given. -/
structure Config where
  chip : Chip
  /-- `PM_HEAP_START_ADDR + pm_reserved_size`. -/
  heapStart : ℕ
  /-- `proc_multiple_cores_running`. -/
  multipleCores : Bool
  /-- `P1PMHEAPALLOCATION`, when it can be read. -/
  p1PmHeapAllocation : Option ℕ

/-- `num_p1_banks`: one where the configured number is not valid. -/
def Config.numP1Banks (c : Config) : ℕ :=
  match c.p1PmHeapAllocation with
  | some n => if c.chip.numberPmBanks < n then 1 else n
  | none => 1

/-- `p1_heap_start`: as many banks as configured, not below the heap of the other core, and at the
start of a bank. -/
def Config.p1HeapStart (c : Config) : ℕ :=
  let bank := c.chip.pmBankSize
  let start := c.chip.pmRamP1CacheStartAddress
  let start :=
    if c.numP1Banks ≠ 0 then
      let start := start - bank * c.numP1Banks
      if start < c.heapStart then c.heapStart else start
    else start
  if start % bank ≠ 0 then start / bank * bank + if c.numP1Banks ≠ 0 then bank else 0 else start

/-! ## The memory -/

/-- `mem_node_pm`: the length, and the link or the magic word. -/
structure MemNodePm where
  length32 : ℕ
  next : ℕ

/-- Program memory by words, the registers, and the variables of the module; 0 is `NULL`. -/
structure PmHeap where
  pm : ℕ → ℕ
  pmwinEnable : ℕ
  /-- The count of `interrupt_block`. -/
  blockCount : ℕ
  freelistPm : ℕ
  freelistPmP1 : ℕ
  heapPmStart : ℕ
  heapPmEnd : ℕ
  heapPmP1Start : ℕ
  heapPmP1End : ℕ
  addnlHeapPmP1Start : ℕ
  addnlHeapPmP1End : ℕ

/-- `READ_NODE_FROM_PM(GET_NODE_ADDR32(p), node)`. -/
def readNodeFromPm (pm : ℕ → ℕ) (p : ℕ) : MemNodePm :=
  ⟨pm (p / pcPerInstruction), pm (p / pcPerInstruction + 1)⟩

/-- `WRITE_NODE_TO_PM(GET_NODE_ADDR32(p), node)`. -/
def writeNodeToPm (pm : ℕ → ℕ) (p : ℕ) (node : MemNodePm) : ℕ → ℕ :=
  Function.update (Function.update pm (p / pcPerInstruction) node.length32)
    (p / pcPerInstruction + 1) node.next

/-- `node.next` in memory. -/
def nextOf (pm : ℕ → ℕ) (p : ℕ) : ℕ := (readNodeFromPm pm p).next

/-- `LOCK_INTERRUPTS`, and the window enabled. -/
def PmHeap.enter (h : PmHeap) : PmHeap :=
  { h with blockCount := h.blockCount + 1, pmwinEnable := 1 }

/-- The window as it was, and `UNLOCK_INTERRUPTS`. -/
def PmHeap.leave (h : PmHeap) (pmWinValue : ℕ) : PmHeap :=
  { h with blockCount := h.blockCount - 1, pmwinEnable := pmWinValue }

def PmHeap.write (h : PmHeap) (p : ℕ) (node : MemNodePm) : PmHeap :=
  { h with pm := writeNodeToPm h.pm p node }

/-! ## Initialisation -/

/-- `init_and_adjust_pm_heap`: the adjusted address of the one free block. -/
def initAndAdjustPmHeap (h : PmHeap) (pmHeapSize heapAddr nextAddr : ℕ) : ℕ × PmHeap :=
  let freelength := (pmHeapSize + 2 ^ 32 - nodeSize) % 2 ^ 32
  let pmWinValue := h.pmwinEnable
  let adjusted := heapAddr / 2 * 2
  (adjusted, (h.enter.write adjusted ⟨freelength, nextAddr⟩).leave pmWinValue)

/-- The heap of the first core. -/
def initP0 (h : PmHeap) : PmHeap :=
  let (start, h) := initAndAdjustPmHeap h (heapSize h.heapPmStart h.heapPmEnd) h.heapPmStart 0
  { h with heapPmStart := start, freelistPm := start }

/-- The heap of the second core. -/
def initP1 (h : PmHeap) : PmHeap :=
  let (start, h) := initAndAdjustPmHeap h (heapSize h.heapPmP1Start h.heapPmP1End) h.heapPmP1Start 0
  { h with heapPmP1Start := start, freelistPmP1 := start }

/-- The memory above the cache, at the head of the list of the second core. -/
def initAddnlP1 (chip : Chip) (h : PmHeap) : PmHeap :=
  let h := { h with
    addnlHeapPmP1Start := chip.usableStart, addnlHeapPmP1End := chip.pmRamEndAddress }
  let (start, h) := initAndAdjustPmHeap h (heapSize h.addnlHeapPmP1Start h.addnlHeapPmP1End)
    h.addnlHeapPmP1Start h.freelistPmP1
  { h with freelistPmP1 := start }

/-- The heaps that `configure_pm_heap_multi_core` has found not to be empty. -/
def initMultiCore (chip : Chip) (h : PmHeap) : PmHeap :=
  let h := if heapSize h.heapPmStart h.heapPmEnd ≠ 0 then initP0 h else h
  let h := if heapSize h.heapPmP1Start h.heapPmP1End ≠ 0 then initP1 h else h
  if chip.usableAboveP1Cache ∧ chip.usableStart < chip.pmRamEndAddress then initAddnlP1 chip h
  else h

/-- `configure_pm_heap_multi_core`. -/
def configurePmHeapMultiCore (c : Config) (h : PmHeap) : PmHeap :=
  initMultiCore c.chip { h with
    heapPmP1End := c.chip.pmRamP1CacheStartAddress
    heapPmP1Start := c.p1HeapStart
    heapPmEnd := c.p1HeapStart }

/-- `init_heap_pm`, with whatever is in memory. -/
def initHeapPm (c : Config) (pm : ℕ → ℕ) (pmwinEnable blockCount : ℕ) : PmHeap :=
  let h : PmHeap := ⟨pm, pmwinEnable, blockCount, 0, 0, c.heapStart, 0, 0, 0, 0, 0⟩
  if c.multipleCores then configurePmHeapMultiCore c h
  else initP0 { h with heapPmEnd := c.chip.pmRamEndAddress }

/-! ## Allocation -/

/-- The variables of the search for the best fit. -/
structure Search where
  bestnode : ℕ
  bestnodePrev : ℕ
  bestsize32 : ℕ
  prevnode : ℕ

/-- One turn of the search. -/
def searchStep (pm : ℕ → ℕ) (size32 : ℕ) (s : Search) (curnode : ℕ) : Search :=
  let length := (readNodeFromPm pm curnode).length32
  let s :=
    if size32 ≤ length ∧ length < s.bestsize32 then
      { s with bestnode := curnode, bestnodePrev := s.prevnode, bestsize32 := length }
    else s
  { s with prevnode := curnode }

/-- Which list of free blocks a call works on. -/
inductive Core
  | p0
  | p1
deriving DecidableEq, Repr

/-- `freelist_pm` or `freelist_pm_p1`. -/
def PmHeap.freelist (h : PmHeap) : Core → ℕ
  | .p0 => h.freelistPm
  | .p1 => h.freelistPmP1

def PmHeap.setFreelist (h : PmHeap) : Core → ℕ → PmHeap
  | .p0, p => { h with freelistPm := p }
  | .p1, p => { h with freelistPmP1 := p }

/-- `heap_alloc_internal_pm`, 0 when no block is found. `fuel` bounds the walk of the list. -/
def heapAllocInternalPm (fuel : ℕ) (h : PmHeap) (sizeByte heapsize32 : ℕ) (core : Core) :
    Option (ℕ × PmHeap) := do
  let pmWinValue := h.pmwinEnable
  let h := h.enter
  let nodes ← walk (nextOf h.pm) fuel (h.freelist core)
  let s := nodes.foldl (searchStep h.pm (bytesIntoPm32 sizeByte)) ⟨0, 0, heapsize32, 0⟩
  if s.bestnode ≠ 0 then
    let bestnode := readNodeFromPm h.pm s.bestnode
    if bytesIntoPm32 sizeByte + nodeSize + minSpare32 ≤ s.bestsize32 then
      let addr := ptrAdd s.bestnode (bestnode.length32 - bytesIntoPm32 sizeByte)
      let h := h.write s.bestnode
        ⟨bestnode.length32 - (bytesIntoPm32 sizeByte + nodeSize), bestnode.next⟩
      let h := h.write addr ⟨bytesIntoPm32 sizeByte, magicWord⟩
      some (ptrAdd addr nodeSize, h.leave pmWinValue)
    else
      let addr := s.bestnode
      let sizeByte := bestnode.length32 * pcPerInstruction
      let h :=
        if s.bestnodePrev ≠ 0 then
          let tempnode := readNodeFromPm h.pm s.bestnodePrev
          h.write s.bestnodePrev { tempnode with next := bestnode.next }
        else h.setFreelist core bestnode.next
      let h := h.write addr ⟨bytesIntoPm32 sizeByte, magicWord⟩
      some (ptrAdd addr nodeSize, h.leave pmWinValue)
  else some (0, h.leave pmWinValue)

/-- `PM_HEAP_SIZE`, or `PM_P1_HEAP_BEST_SIZE`. -/
def PmHeap.bestSize (chip : Chip) (h : PmHeap) : Core → ℕ
  | .p0 => heapSize h.heapPmStart h.heapPmEnd
  | .p1 =>
    if chip.usableAboveP1Cache then
      max (heapSize h.heapPmP1Start h.heapPmP1End)
        (heapSize h.addnlHeapPmP1Start h.addnlHeapPmP1End)
    else heapSize h.heapPmP1Start h.heapPmP1End

/-- The list for a preference: `MALLOC_PM_PREFERENCE_CORE_1` is 1. -/
def coreOf (preferenceCore : ℕ) : Core := if preferenceCore = 1 then .p1 else .p0

/-- The size in bytes rounded up to words. -/
def roundUp (sizeByte : ℕ) : ℕ :=
  if sizeByte % pcPerInstruction ≠ 0 then
    (sizeByte + (pcPerInstruction - sizeByte % pcPerInstruction)) % 2 ^ 32
  else sizeByte

/-- `heap_alloc_pm`. -/
def heapAllocPm (chip : Chip) (fuel : ℕ) (h : PmHeap) (sizeByte preferenceCore : ℕ) :
    Option (ℕ × PmHeap) :=
  if sizeByte = 0 then some (0, h)
  else
    let core := coreOf preferenceCore
    heapAllocInternalPm fuel h (roundUp sizeByte) (h.bestSize chip core) core

/-! ## Release -/

/-- `IS_IN_PM_P0_HEAP`. -/
def PmHeap.IsInP0 (h : PmHeap) (addr : ℕ) : Prop := h.heapPmStart ≤ addr ∧ addr ≤ h.heapPmEnd

instance (h : PmHeap) (addr : ℕ) : Decidable (h.IsInP0 addr) := inferInstanceAs (Decidable (_ ∧ _))

/-- `IS_IN_PM_P1_HEAP`. -/
def PmHeap.IsInP1 (chip : Chip) (h : PmHeap) (addr : ℕ) : Prop :=
  (h.heapPmP1Start ≤ addr ∧ addr ≤ h.heapPmP1End) ∨
    (chip.usableAboveP1Cache = true ∧ chip.usableStart ≤ addr ∧ addr ≤ chip.pmRamEndAddress)

instance (chip : Chip) (h : PmHeap) (addr : ℕ) : Decidable (h.IsInP1 chip addr) :=
  inferInstanceAs (Decidable (_ ∨ _))

/-- The core whose heap has the address. -/
def PmHeap.coreOfPtr (chip : Chip) (h : PmHeap) (ptr : ℕ) : Option Core :=
  if h.IsInP0 ptr then some .p0 else if h.IsInP1 chip ptr then some .p1 else none

/-- The place that `node_pm_addr` is left at in the second walk, with `prev_node_pm_addr`. -/
def findNode (p : ℕ) : ℕ → List ℕ → Option (ℕ × ℕ)
  | _, [] => none
  | prev, node :: nodes => if node = p then some (prev, node) else findNode p node nodes

/-- The place of the free block that ends where a node starts. -/
def findBefore (pm : ℕ → ℕ) (p : ℕ) (nodes : List ℕ) : Option ℕ :=
  nodes.find? fun curnode =>
    ptrAdd curnode ((readNodeFromPm pm curnode).length32 + nodeSize) = p

/-- The block made part of the free block before it, or put at the head of the list. -/
def joinBefore (h : PmHeap) (nodes : List ℕ) (core : Core) (p : ℕ) : ℕ × PmHeap :=
  let node := readNodeFromPm h.pm p
  match findBefore h.pm p nodes with
  | some cur =>
    let curnode := readNodeFromPm h.pm cur
    (cur, h.write cur
      ⟨(curnode.length32 + (node.length32 + nodeSize)) % 2 ^ 32, curnode.next⟩)
  | none =>
    let h' := h.write p ⟨node.length32, h.freelist core⟩
    (p, h'.setFreelist core p)

/-- The free block after `cur` made part of it. -/
def joinAfter (h : PmHeap) (nodes : List ℕ) (core : Core) (cur : ℕ) : PmHeap :=
  let curnode := readNodeFromPm h.pm cur
  match findNode (ptrAdd cur (curnode.length32 + nodeSize)) 0 nodes with
  | some (prev, p) =>
    let node := readNodeFromPm h.pm p
    let h := h.write cur ⟨(curnode.length32 + (node.length32 + nodeSize)) % 2 ^ 32, curnode.next⟩
    if prev = 0 then h.setFreelist core node.next
    else
      let prevnode := readNodeFromPm h.pm prev
      h.write prev { prevnode with next := node.next }
  | none => h

/-- `heap_free_pm`. -/
def heapFreePm (chip : Chip) (fuel : ℕ) (h : PmHeap) (ptr : ℕ) : Option PmHeap := do
  let pmWinValue := h.pmwinEnable
  let h := h.enter
  if ptr = 0 then some h
  else
    let core ← h.coreOfPtr chip ptr
    let p := (ptr + 2 ^ 32 - nodeSize * pcPerInstruction) % 2 ^ 32
    let node := readNodeFromPm h.pm p
    let last := ptrAdd ptr (node.length32 + 2 ^ 32 - 1)
    if node.next ≠ magicWord ∨ ¬ (h.IsInP0 last ∨ h.IsInP1 chip last) then none
    else
      let h := h.write p ⟨node.length32, 0⟩
      let nodes ← walk (nextOf h.pm) fuel (h.freelist core)
      let (cur, h) := joinBefore h nodes core p
      let nodes ← walk (nextOf h.pm) fuel (h.freelist core)
      some ((joinAfter h nodes core cur).leave pmWinValue)

end Mh40.MallocPm
