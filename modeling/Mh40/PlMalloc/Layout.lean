import Mathlib.Data.List.Nodup
import Mathlib.Data.List.Perm.Subperm
import Mh40.Lib.Tiling
import Mh40.PlMalloc.HeapAlloc

/-!
# The layout of a heap

The blocks of a heap tile its memory. `Layout` ties the tiles to the headers in memory and to the
list of free blocks, which is in no order.

* `Layout.nodes_length`: there are no more free blocks than places.
* `freeSize`: what the free blocks hold.
-/

namespace Mh40.PlMalloc

open Lib

/-- A block, its header first; the length is that of what follows the header. -/
structure Block where
  start : ℕ
  length : ℕ
  free : Bool
deriving DecidableEq, Repr

def Block.stop (B : Build) (b : Block) : ℕ := b.start + B.nodeSize + b.length

/-- The length in the header, which does not count the guard of an allocated block. -/
def Block.stored (B : Build) (b : Block) : ℕ := if b.free then b.length else b.length - B.guardSize

/-- A block is of whole words, and has room for a guard. -/
structure Block.Formed (B : Build) (b : Block) : Prop where
  start_aligned : b.start % 4 = 0
  length_aligned : b.length % 4 = 0
  pos : 0 < b.length
  guard_le : B.guardSize ≤ b.length

/-- The header of a block is right. -/
structure Block.Headed (B : Build) (mem : ℕ → ℕ) (b : Block) : Prop where
  length : mem b.start = b.stored B
  magic : b.free = false → IsMagicWord (mem (b.start + 4))

/-- The headers and the list of free blocks for the tiles of a heap. -/
structure Layout (B : Build) (lo hi : ℕ) (mem : ℕ → ℕ) (head : ℕ) (tiles : List Block)
    (nodes : List ℕ) : Prop where
  tiled : Tiles Block.start (Block.stop B) lo tiles hi
  formed : ∀ z ∈ tiles, z.Formed B
  headed : ∀ z ∈ tiles, z.Headed B mem
  linked : Linked (nextOf mem) head nodes
  nodup : nodes.Nodup
  mem_nodes : ∀ p, p ∈ nodes ↔ ∃ z ∈ tiles, z.free = true ∧ p = z.start

/-- What the free blocks hold. -/
def freeSize (B : Build) (tiles : List Block) : ℕ :=
  (tiles.map fun z => if z.free then z.length - B.guardSize else 0).sum

/-! ## Sizes -/

section Sizes

variable (B : Build)

theorem nodeSize_cases : (B.nodeSize = 8 ∧ B.guardSize = 0 ∧ B.pmallocDebug = false) ∨
    (B.nodeSize = 20 ∧ B.guardSize = 4 ∧ B.pmallocDebug = true) := by
  unfold Build.nodeSize Build.guardSize
  cases B.pmallocDebug with
  | false => exact .inl ⟨rfl, rfl, rfl⟩
  | true => exact .inr ⟨rfl, rfl, rfl⟩

theorem eight_le_nodeSize : 8 ≤ B.nodeSize := by
  rcases nodeSize_cases B with h | h <;> omega

variable {B} in
theorem Block.stored_free {b : Block} (h : b.free = true) : b.stored B = b.length := if_pos h

end Sizes

section Blocks

variable {B : Build} {lo hi : ℕ} {mem mem' : ℕ → ℕ} {head : ℕ} {tiles : List Block}
  {nodes : List ℕ} {b z : Block} {p : ℕ}

section

variable (h : Layout B lo hi mem head tiles nodes)
include h

theorem Layout.free_of_mem_nodes (hp : p ∈ nodes) :
    ∃ z ∈ tiles, z.free = true ∧ p = z.start :=
  (h.mem_nodes p).mp hp

/-- The length that the header of a free block has. -/
theorem Layout.length_free (hz : z ∈ tiles) (hf : z.free = true) : mem z.start = z.length := by
  rw [(h.headed z hz).length, Block.stored_free hf]

/-- There are no more free blocks than places. -/
theorem Layout.nodes_length :
    nodes.length < hi - lo + 1 := by
  have hsub : nodes ⊆ tiles.map Block.start := by
    intro p hp
    obtain ⟨z, hz, -, rfl⟩ := h.free_of_mem_nodes hp
    exact List.mem_map_of_mem hz
  have hle := (h.nodup.subperm hsub).length_le
  rw [List.length_map] at hle
  have := h.tiled.length_le
  omega

end

end Blocks

end Mh40.PlMalloc
