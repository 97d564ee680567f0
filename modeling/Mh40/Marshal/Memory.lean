import Mathlib.Data.List.Basic
import Mathlib.Data.Option.Basic

/-!
# Memory

The C memory that the objects live in. `Memory` is a list of allocated blocks; an address is a
block and an offset in it, and NULL is `none`. An access past the end of a block is a fault.

Bytes and pointer cells are kept apart: a leaf member reads and writes bytes, a pointer member
reads and writes the cell at its offset.
-/

namespace Mh40.Marshal

open Option

structure Addr where
  block : ℕ
  offset : ℕ
  deriving Repr, DecidableEq

/-- `sizeof(char *)`. -/
abbrev pointerSize : ℕ := 4

structure Block where
  size : ℕ
  bytes : ℕ → UInt8
  pointers : ℕ → Option Addr

abbrev Memory := List Block

/-- The address `i` bytes further. -/
def Addr.shift (a : Addr) (i : ℕ) : Addr := ⟨a.block, a.offset + i⟩

@[simp] theorem Addr.shift_block (a : Addr) (i : ℕ) : (a.shift i).block = a.block := rfl

@[simp] theorem Addr.shift_offset (a : Addr) (i : ℕ) : (a.shift i).offset = a.offset + i := rfl

@[simp] theorem Addr.shift_shift (a : Addr) (i j : ℕ) : (a.shift i).shift j = a.shift (i + j) := by
  simp [Addr.shift, Nat.add_assoc]

/-- What `zpmalloc` returns: all bytes zero, all pointers NULL. -/
def Block.zeroed (size : ℕ) : Block := ⟨size, fun _ => 0, fun _ => none⟩

def Block.storeBytes (b : Block) (offset : ℕ) (bs : List UInt8) : Block :=
  { b with bytes := fun i =>
      if offset ≤ i then (bs[i - offset]?).getD (b.bytes i) else b.bytes i }

def Block.storePointer (b : Block) (offset : ℕ) (p : Option Addr) : Block :=
  { b with pointers := Function.update b.pointers offset p }

namespace Memory

/-- The byte at an address, whether or not it may be accessed. -/
def byte (mem : Memory) (a : Addr) : UInt8 := (mem[a.block]?).elim 0 (·.bytes a.offset)

/-- The block behind an access of `n` bytes at `a`. -/
def access (mem : Memory) (a : Addr) (n : ℕ) : Option Block :=
  (mem[a.block]?).filter fun b => a.offset + n ≤ b.size

def readBytes (mem : Memory) (a : Addr) (n : ℕ) : Option (List UInt8) :=
  (mem.access a n).map fun _ => (List.range n).map fun i => mem.byte (a.shift i)

def writeBytes (mem : Memory) (a : Addr) (bs : List UInt8) : Option Memory :=
  (mem.access a bs.length).map fun b => mem.set a.block (b.storeBytes a.offset bs)

/-- `*(void **)a`. -/
def readPointer (mem : Memory) (a : Addr) : Option (Option Addr) :=
  (mem.access a pointerSize).map fun b => b.pointers a.offset

/-- `*(void **)a = p`. -/
def writePointer (mem : Memory) (a : Addr) (p : Option Addr) : Option Memory :=
  (mem.access a pointerSize).map fun b => mem.set a.block (b.storePointer a.offset p)

/-- `zpmalloc`: the new block is the last one. -/
def zpmalloc (mem : Memory) (size : ℕ) : Addr × Memory :=
  (⟨mem.length, 0⟩, mem ++ [Block.zeroed size])

/-- `pfree` of the block allocated last. -/
def pfreeLast (mem : Memory) : Memory := mem.dropLast

end Memory

/-! ## What an access changes -/

namespace Memory

variable {mem mem' : Memory} {a b : Addr} {n : ℕ} {bs : List UInt8} {p : Option Addr}

/-- `n` bytes at `a` may be accessed. -/
def Holds (mem : Memory) (a : Addr) (n : ℕ) : Prop :=
  ∃ b, mem[a.block]? = some b ∧ a.offset + n ≤ b.size

theorem access_eq_some_iff {blk : Block} :
    mem.access a n = some blk ↔ mem[a.block]? = some blk ∧ a.offset + n ≤ blk.size := by
  simp [access, filter_eq_some_iff]

theorem readBytes_eq_some_iff :
    mem.readBytes a n = some bs ↔
      mem.Holds a n ∧ bs = (List.range n).map fun i => mem.byte (a.shift i) := by
  simp only [readBytes, map_eq_some_iff, access_eq_some_iff, Holds]
  constructor
  · rintro ⟨blk, hb, rfl⟩
    exact ⟨⟨blk, hb⟩, rfl⟩
  · rintro ⟨⟨blk, hb⟩, rfl⟩
    exact ⟨blk, hb, rfl⟩

theorem length_of_readBytes (h : mem.readBytes a n = some bs) : bs.length = n := by
  obtain ⟨_, rfl⟩ := readBytes_eq_some_iff.mp h
  simp

theorem holds_of_writeBytes (h : mem.writeBytes a bs = some mem') : mem.Holds a bs.length := by
  obtain ⟨blk, hb, _⟩ := map_eq_some_iff.mp h
  exact ⟨blk, access_eq_some_iff.mp hb⟩

theorem Holds.writeBytes (h : mem.Holds a bs.length) : ∃ mem', mem.writeBytes a bs = some mem' := by
  obtain ⟨blk, hb⟩ := h
  exact ⟨_, map_eq_some_iff.mpr ⟨blk, access_eq_some_iff.mpr hb, rfl⟩⟩

theorem holds_of_writePointer (h : mem.writePointer a p = some mem') :
    mem.Holds a pointerSize := by
  obtain ⟨blk, hb, _⟩ := map_eq_some_iff.mp h
  exact ⟨blk, access_eq_some_iff.mp hb⟩

theorem Holds.writePointer (h : mem.Holds a pointerSize) (p : Option Addr) :
    ∃ mem', mem.writePointer a p = some mem' := by
  obtain ⟨blk, hb⟩ := h
  exact ⟨_, map_eq_some_iff.mpr ⟨blk, access_eq_some_iff.mpr hb, rfl⟩⟩

/-- The block at an index after a write: the written one, or as it was. -/
theorem getElem?_of_set {blk blk' : Block} (hb : mem[a.block]? = some blk) (i : ℕ) :
    (mem.set a.block blk')[i]? = if i = a.block then some blk' else mem[i]? := by
  obtain ⟨hlt, _⟩ := List.getElem?_eq_some_iff.mp hb
  by_cases h : i = a.block
  · simp [h, hlt]
  · rw [if_neg h, List.getElem?_set_ne (Ne.symm h)]

theorem length_of_writePointer (h : mem.writePointer a p = some mem') :
    mem'.length = mem.length := by
  obtain ⟨blk, _, rfl⟩ := map_eq_some_iff.mp h
  exact List.length_set

theorem byte_of_writeBytes (h : mem.writeBytes a bs = some mem') (b : Addr) :
    mem'.byte b =
      if b.block = a.block ∧ a.offset ≤ b.offset then
        (bs[b.offset - a.offset]?).getD (mem.byte b)
      else mem.byte b := by
  obtain ⟨blk, hb, rfl⟩ := map_eq_some_iff.mp h
  obtain ⟨hb, _⟩ := access_eq_some_iff.mp hb
  unfold byte
  rw [getElem?_of_set hb]
  by_cases hblock : b.block = a.block
  · by_cases hoff : a.offset ≤ b.offset <;> simp [hblock, hoff, hb, Block.storeBytes]
  · simp [hblock]

theorem byte_of_writePointer (h : mem.writePointer a p = some mem') (b : Addr) :
    mem'.byte b = mem.byte b := by
  obtain ⟨blk, hb, rfl⟩ := map_eq_some_iff.mp h
  obtain ⟨hb, _⟩ := access_eq_some_iff.mp hb
  unfold byte
  rw [getElem?_of_set hb]
  by_cases hblock : b.block = a.block <;> simp [hblock, hb, Block.storePointer]

/-- The sizes of the blocks decide what may be accessed. -/
theorem holds_of_set {blk blk' : Block} (hb : mem[a.block]? = some blk)
    (hsize : blk'.size = blk.size) : Holds (mem.set a.block blk') b n ↔ mem.Holds b n := by
  unfold Holds
  rw [getElem?_of_set hb]
  by_cases hblock : b.block = a.block <;> simp [hblock, hb, hsize]

theorem holds_writeBytes_iff (h : mem.writeBytes a bs = some mem') :
    mem'.Holds b n ↔ mem.Holds b n := by
  obtain ⟨blk, hb, rfl⟩ := map_eq_some_iff.mp h
  exact holds_of_set (access_eq_some_iff.mp hb).1 rfl

theorem holds_writePointer_iff (h : mem.writePointer a p = some mem') :
    mem'.Holds b n ↔ mem.Holds b n := by
  obtain ⟨blk, hb, rfl⟩ := map_eq_some_iff.mp h
  exact holds_of_set (access_eq_some_iff.mp hb).1 rfl

theorem readPointer_of_writePointer (h : mem.writePointer a p = some mem') (b : Addr) :
    mem'.readPointer b = if b = a then some p else mem.readPointer b := by
  obtain ⟨blk, hb, rfl⟩ := map_eq_some_iff.mp h
  obtain ⟨hb, hsize⟩ := access_eq_some_iff.mp hb
  unfold readPointer access
  rw [getElem?_of_set hb]
  by_cases hblock : b.block = a.block
  · by_cases hoff : b.offset = a.offset
    · have : b = a := by
        cases a
        cases b
        simp_all
      subst this
      simp [Block.storePointer, hsize]
    · have : b ≠ a := fun h => hoff (congrArg Addr.offset h)
      rw [if_pos hblock, if_neg this, hblock, hb]
      by_cases hin : b.offset + pointerSize ≤ blk.size <;>
        simp [Block.storePointer, Option.filter, hin, Function.update_of_ne hoff]
  · have : b ≠ a := fun h => hblock (congrArg Addr.block h)
    rw [if_neg hblock, if_neg this]

/-- The same `n` bytes at two addresses. -/
def SameBytes (mem : Memory) (a : Addr) (mem' : Memory) (b : Addr) (n : ℕ) : Prop :=
  ∃ bs, mem.readBytes a n = some bs ∧ mem'.readBytes b n = some bs

theorem sameBytes_iff :
    SameBytes mem a mem' b n ↔
      mem.Holds a n ∧ mem'.Holds b n ∧ ∀ i < n, mem.byte (a.shift i) = mem'.byte (b.shift i) := by
  simp only [SameBytes, readBytes_eq_some_iff]
  constructor
  · rintro ⟨bs, ⟨ha, rfl⟩, hb, heq⟩
    refine ⟨ha, hb, fun i hi => ?_⟩
    have := congrArg (·[i]?) heq
    simpa [hi] using this
  · rintro ⟨ha, hb, h⟩
    refine ⟨_, ⟨ha, rfl⟩, hb, ?_⟩
    exact List.map_congr_left fun i hi => h i (List.mem_range.mp hi)

end Memory

end Mh40.Marshal
