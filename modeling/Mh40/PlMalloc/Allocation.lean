import Mh40.PlMalloc.Layout

/-!
# The heaps of a memory map

* `cell`: the place of the link to a node of the list of free blocks.
* `Heap`: a heap with its tiles and its counter.
* `walk_nodes`: the list of free blocks ends within the fuel of the walks.
-/

namespace Mh40.PlMalloc

open Lib

/-! ## Links -/

/-- The place of the link to a node that comes after these. -/
def cell (n₁ : List ℕ) : Link :=
  match n₁.getLast? with
  | none => .freelist
  | some p => .next p

theorem cell_concat (n₁ : List ℕ) (p : ℕ) : cell (n₁ ++ [p]) = .next p := by
  unfold cell
  rw [List.getLast?_concat]

section Links

variable {h : HydraHeap} {name : HeapName} {n₁ n₂ : List ℕ} {a v i : ℕ}

theorem deref_cell (hl : Linked (nextOf h.mem) (h.freelist name) (n₁ ++ a :: n₂)) :
    h.deref name (cell n₁) = a := by
  rw [← hl.link]
  unfold cell
  cases n₁.getLast? with
  | none => rfl
  | some p => rfl

end Links

/-! ## The heaps of a memory map -/

/-- Whether there is a free block at first. -/
def MemoryMap.Usable (c : MemoryMap) (name : HeapName) : Prop :=
  c.Enabled name ∧ c.build.nodeSize < c.heapSize name ∧ c.heapStart name ≠ 0

instance (c : MemoryMap) (name : HeapName) : Decidable (c.Usable name) :=
  inferInstanceAs (Decidable (_ ∧ _ ∧ _))

/-- Where the blocks of a heap end: one that is not usable has none. -/
def MemoryMap.top (c : MemoryMap) (name : HeapName) : ℕ :=
  if c.Usable name then c.heapEnd name else c.heapStart name

/-- A heap with its tiles and its counter. -/
structure Heap (c : MemoryMap) (h : HydraHeap) (name : HeapName) (tiles : List Block)
    (nodes : List ℕ) : Prop where
  layout : Layout c.build (c.heapStart name) (c.top name) h.mem (h.freelist name) tiles nodes
  heapFree : h.heapFree name = freeSize c.build tiles

section Map

variable {c : MemoryMap} {h : HydraHeap} {name : HeapName} {tiles : List Block} {nodes : List ℕ}
  {b z : Block}

theorem heapEnd_le (c : MemoryMap) (name : HeapName) : c.heapEnd name ≤ dm2RamBase := by
  unfold MemoryMap.heapEnd
  by_cases hn : name = .ext
  · rw [hn]
    exact c.ext_le
  · refine Nat.le_trans (c.dm_le name hn) (by decide)

theorem top_le (c : MemoryMap) (name : HeapName) : c.top name ≤ c.heapEnd name := by
  unfold MemoryMap.top
  split_ifs
  · exact Nat.le_refl _
  · exact Nat.le_add_right _ _

section

variable (hh : Heap c h name tiles nodes)
include hh

theorem Heap.usable (hz : z ∈ tiles) : c.Usable name := by
  by_contra hu
  have htop : c.top name = c.heapStart name := if_neg hu
  have := hh.layout.tiled.mem hz
  omega

/-- A block lies in the memory of its heap. -/
theorem Heap.mem (hz : z ∈ tiles) :
    0 < c.heapStart name ∧ c.heapStart name ≤ z.start ∧ z.stop c.build ≤ c.heapEnd name ∧
      c.heapEnd name ≤ dm2RamBase := by
  have hm := hh.layout.tiled.mem hz
  have htop := top_le c name
  exact ⟨Nat.pos_of_ne_zero (hh.usable hz).2.2, hm.1, by omega, heapEnd_le c name⟩

theorem Heap.length_lt (hz : z ∈ tiles) :
    z.length < c.heapSize name := by
  have hm := hh.mem hz
  have h8 := eight_le_nodeSize c.build
  unfold Block.stop MemoryMap.heapEnd at hm
  omega

theorem walk_nodes :
    walk (nextOf h.mem) (c.fuel name) (h.freelist name) = some nodes := by
  refine walk_eq hh.layout.linked (Nat.lt_of_lt_of_le hh.layout.nodes_length ?_)
  have := top_le c name
  unfold MemoryMap.fuel
  unfold MemoryMap.heapEnd at this
  omega

end

end Map

end Mh40.PlMalloc
