import Mh40.A2dp.DataBlock
import Mh40.Lib.Run

/-!
# What the data blocks hold

The blocks of a device as a map from the names of the blocks to what they should be, beside the
pool. The owner of a block writes to its bytes.

* `Block`: a block with its elements, its current element and its bytes.
* `Represents`: the pool has the blocks of the map, in places that do not meet, and no other ones.
* `Permits`: a block fits into the bit-fields, the current element is below 64, and an element is
  looked up by an index that is in range.
* `represents_of_permits`: permitted calls keep the pool and the map together.
-/

namespace Mh40.A2dp.DataBlocks

open Lib Lib.HeapArray Option List Function

/-! ## Statement -/

/-- A block of a device. -/
structure Block where
  elementCount : ℕ
  elementSize : ℕ
  current : ℕ
  bytes : List UInt8
  size_pos : 0 < elementSize
  current_lt : current < elementCount
  length_eq : bytes.length = elementSize * elementCount

/-- The bytes of the pool from a pointer on. -/
def byteAt (p : DataPool) (offset : ℕ) : Option UInt8 :=
  if dblkHdrSize ≤ offset then p.data[offset - dblkHdrSize]? else none

/-- The places of two blocks do not meet. -/
def Apart (base size base' size' : ℕ) : Prop := base + size ≤ base' ∨ base' + size' ≤ base

/-- The pool has the block `b`, at `base`. -/
structure Has (p : DataPool) (id : DataBlockId) (b : Block) (base : ℕ) : Prop where
  getBase : blockGetBase p id = some base
  getSize : blockGetSize p id = b.elementSize * b.elementCount
  getIndexed : ∀ element : UInt8, element.toNat < b.elementCount →
    blockGetIndexed p id element = some (base + b.elementSize * element.toNat)
  getCurrent : blockGetCurrent p id = some (base + b.elementSize * b.current)
  behindHeader : dblkHdrSize ≤ base
  inside : base + b.elementSize * b.elementCount ≤ dblkHdrSize + p.data.length
  bytes : ∀ i < b.elementSize * b.elementCount, byteAt p (base + i) = b.bytes[i]?

/-- The pool has no block of this name. -/
structure HasNot (p : DataPool) (id : DataBlockId) : Prop where
  getBase : blockGetBase p id = none
  getSize : blockGetSize p id = 0
  getIndexed : ∀ element, blockGetIndexed p id element = none
  getCurrent : blockGetCurrent p id = none

/-- The pool has the blocks of the map. -/
structure Represents (p : DataPool) (blocks : DataBlockId → Option Block) : Prop where
  has : ∀ id b, blocks id = some b → ∃ base, Has p id b base
  hasNot : ∀ id, blocks id = none → HasNot p id
  apart : ∀ id id' b b' base base', id ≠ id' → blocks id = some b → blocks id' = some b' →
    Has p id b base → Has p id' b' base' →
    Apart base (b.elementSize * b.elementCount) base' (b'.elementSize * b'.elementCount)

/-- The pool, and the blocks that should be in it. -/
structure Blocks where
  pool : DataPool
  map : DataBlockId → Option Block

/-- A call, or a byte that the owner of a block writes. -/
inductive BlockEvent where
  | add (id : DataBlockId) (elementCount elementSize : UInt8) (reallocated : Bool)
  | remove (id : DataBlockId) (reallocated : Bool)
  | setCurrent (id : DataBlockId) (element : UInt8)
  | getIndexed (id : DataBlockId) (element : UInt8)
  | write (id : DataBlockId) (index : ℕ) (value : UInt8)

/-- A block of zeros. -/
def Block.zero (elementCount elementSize : UInt8) (h : elementCount ≠ 0 ∧ elementSize ≠ 0) :
    Block where
  elementCount := elementCount.toNat
  elementSize := elementSize.toNat
  current := 0
  bytes := List.replicate (elementSize.toNat * elementCount.toNat) 0
  size_pos := Nat.pos_of_ne_zero fun h0 => h.2 (UInt8.toNat_inj.mp h0)
  current_lt := Nat.pos_of_ne_zero fun h0 => h.1 (UInt8.toNat_inj.mp h0)
  length_eq := length_replicate

/-- The block with another current element, when there is such an element. -/
def Block.setCurrent (b : Block) (element : UInt8) : Block :=
  if h : (elementOf b.current element).toNat < b.elementCount then
    { b with
      current := (elementOf b.current element).toNat
      current_lt := h }
  else b

/-- The block with another byte. -/
def Block.write (b : Block) (index : ℕ) (value : UInt8) : Block :=
  { b with
    bytes := b.bytes.set index value
    length_eq := length_set.trans b.length_eq }

/-- The map after a block was added: it has a block of that name if a pointer was returned. -/
def addBlock (map : DataBlockId → Option Block) (id : DataBlockId)
    (elementCount elementSize : UInt8) (answer : Option ℕ) : DataBlockId → Option Block :=
  if h : elementCount ≠ 0 ∧ elementSize ≠ 0 then
    if answer.isSome then Function.update map id (some (.zero elementCount elementSize h)) else map
  else map

/-- The pool after the owner of a block wrote a byte of it. -/
def writeByte (p : DataPool) (id : DataBlockId) (index : ℕ) (value : UInt8) : DataPool :=
  if index < blockGetSize p id then
    { p with data := p.data.set ((p.block id).offset - dblkHdrSize + index) value }
  else p

/-- One event. -/
def blocksStep (s : Blocks) : BlockEvent → Option Blocks
  | .add id elementCount elementSize reallocated =>
    let call := blockAdd s.pool id elementCount elementSize reallocated
    some ⟨call.2, addBlock s.map id elementCount elementSize call.1⟩
  | .remove id reallocated =>
    some ⟨blockRemove s.pool id reallocated, Function.update s.map id none⟩
  | .setCurrent id element =>
    some ⟨(blockSetCurrent s.pool id element).2,
      Function.update s.map id ((s.map id).map (·.setCurrent element))⟩
  | .getIndexed _ _ => some s
  | .write id index value =>
    some ⟨writeByte s.pool id index value,
      Function.update s.map id ((s.map id).map (·.write index value))⟩

/-- A returned pointer is that of the block or of its current element, and an element that there
is not has none. -/
def Answers (s : Blocks) : BlockEvent → Prop
  | .add id elementCount elementSize reallocated =>
    let call := blockAdd s.pool id elementCount elementSize reallocated
    ∀ base, call.1 = some base → blockGetBase call.2 id = some base
  | .setCurrent id element =>
    let call := blockSetCurrent s.pool id element
    ∀ current, call.1 = some current → blockGetCurrent call.2 id = some current
  | .getIndexed id element => (∀ b, s.map id = some b → b.elementCount ≤ element.toNat) →
    blockGetIndexed s.pool id element = none
  | _ => True

/-- What is stored in the bit-fields fits, and an index is in range. -/
def Permits (s : Blocks) : BlockEvent → Prop
  | .add id elementCount elementSize reallocated =>
    (s.pool.block id).offset = 0 → elementCount ≠ 0 → elementSize ≠ 0 → reallocated →
      elementSize.toNat < 2 ^ 7 ∧ elementSize.toNat * elementCount.toNat < 2 ^ 9 ∧
        dblkHdrSize + s.pool.sizeBlocksPadded < 2 ^ 10
  | .setCurrent id element =>
    let element := elementOf (s.pool.block id).currentElement element
    (s.pool.block id).elementSize * element.toNat < (s.pool.block id).blockSize →
      element.toNat < 2 ^ 6
  | .getIndexed id element => (s.pool.block id).offset ≠ 0 →
    (s.pool.block id).elementSize * element.toNat < (s.pool.block id).blockSize
  | _ => True

/-! ## Invariant -/

variable {s s' : Blocks} {p : DataPool} {id id' : DataBlockId} {b b' : Block}

/-- How many bytes of the pool a block takes. -/
def Block.padded (b : Block) : ℕ := dblkPad (b.elementSize * b.elementCount)

theorem le_dblkPad (x : ℕ) : x ≤ dblkPad x := by
  unfold dblkPad
  omega

theorem Block.size_pos' (b : Block) : 0 < b.elementSize * b.elementCount :=
  Nat.mul_pos b.size_pos (Nat.zero_lt_of_lt b.current_lt)

theorem Block.le_padded (b : Block) : b.elementSize * b.elementCount ≤ b.padded := le_dblkPad _

/-- The pool keeps a block where its offset is. -/
structure Slot (p : DataPool) (id : DataBlockId) (b : Block) : Prop where
  blockSize : (p.block id).blockSize = b.elementSize * b.elementCount
  elementSize : (p.block id).elementSize = b.elementSize
  currentElement : (p.block id).currentElement = b.current
  size_lt : b.elementSize * b.elementCount < 2 ^ 9
  offset_lt : (p.block id).offset < 2 ^ 10
  le_offset : dblkHdrSize ≤ (p.block id).offset
  end_le : (p.block id).offset + b.padded ≤ dblkHdrSize + p.sizeBlocksPadded
  bytes : ∀ i < b.elementSize * b.elementCount,
    p.data[(p.block id).offset - dblkHdrSize + i]? = b.bytes[i]?

/-- The pool and the map, block by block. -/
structure Inv (s : Blocks) : Prop where
  absent : ∀ id, s.map id = none → s.pool.block id = ⟨0, 0, 0, 0⟩
  slot : ∀ id b, s.map id = some b → Slot s.pool id b
  apart : ∀ id id' b b', id ≠ id' → s.map id = some b → s.map id' = some b' →
    Apart (s.pool.block id).offset b.padded (s.pool.block id').offset b'.padded
  length : s.pool.sizeBlocksPadded ≤ s.pool.data.length
  size_lt : s.pool.sizeBlocksPadded < 2 ^ 16

theorem inv_init : Inv ⟨blockInit, fun _ => none⟩ where
  absent _ _ := rfl
  slot _ _ h := absurd h (some_ne_none _).symm
  apart _ _ _ _ _ h := absurd h (some_ne_none _).symm
  length := Nat.zero_le _
  size_lt := by decide

theorem pointer_pos {offset : ℕ} (h : 0 < offset) : pointer offset = some offset :=
  if_pos (Nat.pos_iff_ne_zero.mp h)

/-- What is at a slot is what the functions of the code see. -/
theorem Slot.has (h : Slot p id b) (hlen : p.sizeBlocksPadded ≤ p.data.length) :
    Has p id b (p.block id).offset := by
  obtain ⟨hsize, helement, hcurrent, hlt, hoff, hle, hend, hbytes⟩ := h
  have hpos : 0 < (p.block id).offset := Nat.lt_of_lt_of_le (by decide) hle
  have hpad := b.le_padded
  refine ⟨pointer_pos hpos, hsize, fun element _ => ?_, ?_, hle, by omega, fun i hi => ?_⟩
  · rw [blockGetIndexed, helement, pointer_pos (by omega), Nat.add_comm]
  · rw [blockGetCurrent, helement, hcurrent, pointer_pos (by omega), Nat.add_comm]
  · rw [byteAt, if_pos (by omega), ← hbytes i hi]
    congr 1
    omega

theorem hasNot_of_zero (h : p.block id = ⟨0, 0, 0, 0⟩) : HasNot p id := by
  refine ⟨?_, ?_, fun element => ?_, ?_⟩ <;>
    simp [blockGetBase, blockGetSize, blockGetIndexed, blockGetCurrent, pointer, h]

theorem Inv.represents (h : Inv s) : Represents s.pool s.map where
  has id b hb := ⟨_, (h.slot id b hb).has h.length⟩
  hasNot id hn := hasNot_of_zero (h.absent id hn)
  apart id id' b b' base base' hne hb hb' hbase hbase' := by
    have hbase := hbase.getBase
    have hbase' := hbase'.getBase
    rw [((h.slot id b hb).has h.length).getBase] at hbase
    rw [((h.slot id' b' hb').has h.length).getBase] at hbase'
    cases hbase
    cases hbase'
    have := b.le_padded
    have := b'.le_padded
    rcases h.apart id id' b b' hne hb hb' with h | h
    · exact .inl (by omega)
    · exact .inr (by omega)

/-- A block without an offset is not in the map. -/
theorem Inv.offset_eq_zero_iff (h : Inv s) (id : DataBlockId) :
    (s.pool.block id).offset = 0 ↔ s.map id = none := by
  cases hm : s.map id with
  | none => simp [h.absent id hm]
  | some b =>
    have := (h.slot id b hm).le_offset
    unfold dblkHdrSize at this
    simp
    omega

/-! ## Calls -/

/-- A block whose bytes are elsewhere than those of a change. -/
theorem Slot.congr (h : Slot p id b) {p' : DataPool} (hblock : p'.block id = p.block id)
    (hsize : p.sizeBlocksPadded ≤ p'.sizeBlocksPadded)
    (hbytes : ∀ i < b.elementSize * b.elementCount,
      p'.data[(p.block id).offset - dblkHdrSize + i]? =
        p.data[(p.block id).offset - dblkHdrSize + i]?) : Slot p' id b := by
  obtain ⟨h1, h2, h3, h4, h5, h6, h7, h8⟩ := h
  refine ⟨?_, ?_, ?_, h4, ?_, ?_, ?_, fun i hi => ?_⟩ <;> rw [hblock]
  · exact h1
  · exact h2
  · exact h3
  · exact h5
  · exact h6
  · omega
  · rw [hbytes i hi, h8 i hi]

theorem Apart.symm {base size base' size' : ℕ} (h : Apart base size base' size') :
    Apart base' size' base size := Or.symm h

/-- A change to one block. -/
theorem Inv.update (h : Inv s) {p' : DataPool} {new : Option Block}
    (hblock : ∀ id', id' ≠ id → p'.block id' = s.pool.block id')
    (hsize : s.pool.sizeBlocksPadded ≤ p'.sizeBlocksPadded)
    (hlt : p'.sizeBlocksPadded < 2 ^ 16) (hlen : p'.sizeBlocksPadded ≤ p'.data.length)
    (hbytes : ∀ id', id' ≠ id → ∀ b, s.map id' = some b → ∀ i < b.elementSize * b.elementCount,
      p'.data[(s.pool.block id').offset - dblkHdrSize + i]? =
        s.pool.data[(s.pool.block id').offset - dblkHdrSize + i]?)
    (habsent : new = none → p'.block id = ⟨0, 0, 0, 0⟩)
    (hpresent : ∀ b, new = some b → Slot p' id b ∧
      ∀ id', id' ≠ id → ∀ b', s.map id' = some b' →
        Apart (p'.block id).offset b.padded (s.pool.block id').offset b'.padded) :
    Inv ⟨p', update s.map id new⟩ where
  absent id' hn := by
    dsimp only at hn ⊢
    by_cases hid : id' = id
    · subst hid
      exact habsent (by rwa [update_self] at hn)
    · rw [update_of_ne hid] at hn
      exact (hblock id' hid).trans (h.absent id' hn)
  slot id' b hb := by
    dsimp only at hb ⊢
    by_cases hid : id' = id
    · subst hid
      exact (hpresent b (by rwa [update_self] at hb)).1
    · rw [update_of_ne hid] at hb
      exact (h.slot id' b hb).congr (hblock id' hid) hsize (hbytes id' hid b hb)
  apart id1 id2 b1 b2 hne hb1 hb2 := by
    dsimp only at hb1 hb2 ⊢
    by_cases h₁ : id1 = id
    · subst h₁
      rw [update_self] at hb1
      rw [update_of_ne (Ne.symm hne)] at hb2
      rw [hblock id2 (Ne.symm hne)]
      exact (hpresent b1 hb1).2 id2 (Ne.symm hne) b2 hb2
    · rw [update_of_ne h₁] at hb1
      rw [hblock id1 h₁]
      by_cases h₂ : id2 = id
      · subst h₂
        rw [update_self] at hb2
        exact ((hpresent b2 hb2).2 id1 h₁ b1 hb1).symm
      · rw [update_of_ne h₂] at hb2
        rw [hblock id2 h₂]
        exact h.apart id1 id2 b1 b2 hne hb1 hb2
  length := hlen
  size_lt := hlt

theorem inv_add (h : Inv s) (id : DataBlockId) (elementCount elementSize : UInt8)
    (reallocated : Bool)
    (hp : (s.pool.block id).offset = 0 → elementCount ≠ 0 → elementSize ≠ 0 → reallocated →
      elementSize.toNat < 2 ^ 7 ∧ elementSize.toNat * elementCount.toNat < 2 ^ 9 ∧
        dblkHdrSize + s.pool.sizeBlocksPadded < 2 ^ 10) :
    Inv ⟨(blockAdd s.pool id elementCount elementSize reallocated).2,
      addBlock s.map id elementCount elementSize
        (blockAdd s.pool id elementCount elementSize reallocated).1⟩ := by
  by_cases hc : (s.pool.block id).offset = 0 ∧ elementCount ≠ 0 ∧ elementSize ≠ 0 ∧
    reallocated = true
  · rw [blockAdd, if_pos hc]
    obtain ⟨hzero, hcount, hsize, hre⟩ := hc
    obtain ⟨helement, hblock, hoff⟩ := hp hzero hcount hsize hre
    dsimp only
    set size := elementSize.toNat * elementCount.toNat with hs
    have hpad : size ≤ dblkPad size ∧ dblkPad size ≤ 512 := by
      unfold dblkPad
      omega
    have hlen := h.length
    unfold dblkHdrSize at hoff
    have hmap : addBlock s.map id elementCount elementSize
        (some (dblkHdrSize + s.pool.sizeBlocksPadded)) =
        update s.map id (some (.zero elementCount elementSize ⟨hcount, hsize⟩)) := by
      rw [addBlock, dif_pos ⟨hcount, hsize⟩]
      rfl
    have hroom : s.pool.sizeBlocksPadded + dblkPad size ≤
        (realloc s.pool.data (s.pool.sizeBlocksPadded + dblkPad size)).length :=
      (length_realloc _ _).ge
    rw [hmap, Nat.mod_eq_of_lt (a := s.pool.sizeBlocksPadded + dblkPad size) (by omega),
      Nat.mod_eq_of_lt hblock, Nat.mod_eq_of_lt helement,
      Nat.mod_eq_of_lt (a := dblkHdrSize + s.pool.sizeBlocksPadded) (by unfold dblkHdrSize; omega)]
    refine h.update (fun id' hne => update_of_ne hne _ _) (Nat.le_add_right _ _)
      (by dsimp only; omega) (by rw [length_memset hroom]; exact hroom)
      (fun id' hne b hb i hi => ?_)
      (fun hn => absurd hn (some_ne_none _)) (fun b hb => ?_)
    · have hslot := h.slot id' b hb
      have hle := hslot.le_offset
      have hend := hslot.end_le
      have hpadded := b.le_padded
      rw [getElem?_memset hroom, if_neg (by omega), getElem?_realloc (by omega) (by omega)]
    · obtain rfl := some.inj hb
      have hzero : (Block.zero elementCount elementSize ⟨hcount, hsize⟩).padded = dblkPad size := rfl
      refine ⟨⟨?_, ?_, ?_, hblock, ?_, ?_, ?_, fun i hi => ?_⟩, fun id' hne b hb => ?_⟩
      all_goals simp only [update_self]
      · rfl
      · rfl
      · rfl
      · exact hoff
      · exact Nat.le_add_right _ _
      · rw [hzero, Nat.add_assoc]
      · have hi : i < size := hi
        rw [Nat.add_sub_cancel_left, getElem?_memset hroom, if_pos (by omega)]
        exact (getElem?_replicate_of_lt hi).symm
      · exact .inr (h.slot id' b hb).end_le
  · rw [blockAdd, if_neg hc]
    have hmap : addBlock s.map id elementCount elementSize none = s.map := by
      unfold addBlock
      split_ifs <;> simp_all
    rwa [hmap]

/-- The block that is removed, and where the others go. -/
theorem closeGap_eq (h : Inv s) (hb : s.map id = some b) (hb' : s.map id' = some b')
    (hne : id' ≠ id) :
    closeGap s.pool.block (s.pool.block id).offset b.padded id' = { s.pool.block id' with
      offset := if (s.pool.block id).offset < (s.pool.block id').offset then
        (s.pool.block id').offset - b.padded else (s.pool.block id').offset } := by
  have hslot := h.slot id b hb
  have hslot' := h.slot id' b' hb'
  have hle := hslot.le_offset
  have hlt := hslot'.offset_lt
  have hpos := b'.size_pos'
  have hpad' := b'.le_padded
  have hpad : b.padded ≤ 512 := by
    have := hslot.size_lt
    unfold Block.padded dblkPad
    omega
  unfold closeGap
  split_ifs with hafter
  · have hoffset : ((s.pool.block id').offset + 2 ^ 10 - b.padded % 2 ^ 10) % 2 ^ 10 =
        (s.pool.block id').offset - b.padded := by
      rcases h.apart id' id b' b hne hb' hb with hap | hap <;> omega
    simp only [hoffset]
  · rfl

/-- The pool without a block: the bytes behind the block move down, and the end is filled. -/
theorem blockRemove_eq (h : Inv s) (hb : s.map id = some b) (reallocated : Bool) :
    b.padded ≤ s.pool.sizeBlocksPadded ∧ ∃ data, blockRemove s.pool id reallocated =
        { sizeBlocksPadded := s.pool.sizeBlocksPadded - b.padded
          block := update (closeGap s.pool.block (s.pool.block id).offset b.padded) id
            ⟨0, 0, 0, 0⟩
          data } ∧
      s.pool.sizeBlocksPadded - b.padded ≤ data.length ∧
      ∀ j < s.pool.sizeBlocksPadded - b.padded, data[j]? =
        if (s.pool.block id).offset - dblkHdrSize ≤ j then s.pool.data[j + b.padded]?
        else s.pool.data[j]? := by
  obtain ⟨hsize, -, -, -, -, hle, hend, -⟩ := h.slot id b hb
  have hlen := h.length
  have hlt := h.size_lt
  unfold dblkHdrSize at hle hend
  have htotal : (s.pool.sizeBlocksPadded + 2 ^ 16 - b.padded) % 2 ^ 16 =
      s.pool.sizeBlocksPadded - b.padded := by omega
  have hoff : (s.pool.block id).offset ≠ 0 := by omega
  set n := s.pool.sizeBlocksPadded - b.padded with hn
  set base := (s.pool.block id).offset - dblkHdrSize with hbase
  have hbase' : base + 20 = (s.pool.block id).offset := by
    unfold dblkHdrSize at hbase
    omega
  have hcount : n + dblkHdrSize - (s.pool.block id).offset = n - base := by
    unfold dblkHdrSize
    omega
  set moved := memmove s.pool.data base (base + b.padded) (n - base) with hmoved
  have hmove : moved.length = s.pool.data.length := length_memmove (by omega)
  set data := memset moved n b.padded 0xFF with hdata
  have hdatalen : data.length = s.pool.data.length := by
    rw [hdata, length_memset (by rw [hmove]; omega), hmove]
  refine ⟨by omega, if reallocated then realloc data n else data, ?_, ?_, fun j hj => ?_⟩
  · have hpad : dblkPad (s.pool.block id).blockSize = b.padded := by rw [hsize]; rfl
    rw [blockRemove, if_pos hoff, hpad]
    dsimp only
    rw [htotal, hcount]
  · split_ifs
    · exact (length_realloc _ _).ge
    · omega
  · have hfinal : (if reallocated then realloc data n else data)[j]? = data[j]? := by
      split_ifs
      · exact getElem?_realloc hj (by omega)
      · rfl
    rw [hfinal, hdata, getElem?_memset (by rw [hmove]; omega), if_neg (by omega),
      getElem?_memmove (by omega) (by omega)]
    split_ifs with h1 h2 h2
    · congr 1
      omega
    · omega
    · omega
    · rfl

theorem inv_remove (h : Inv s) (id : DataBlockId) (reallocated : Bool) :
    Inv ⟨blockRemove s.pool id reallocated, update s.map id none⟩ := by
  cases hb : s.map id with
  | none =>
    have hzero := (h.offset_eq_zero_iff id).mpr hb
    rw [blockRemove, if_neg (by simp [hzero]), ← hb, update_eq_self]
    exact h
  | some b =>
    obtain ⟨hpad, data, hremove, hlen, hget⟩ := blockRemove_eq h hb reallocated
    obtain ⟨-, -, -, -, -, hle, hend, -⟩ := h.slot id b hb
    have hlt := h.size_lt
    have hpadded := b.le_padded
    have hpos := b.size_pos'
    unfold dblkHdrSize at hle hend hget
    rw [hremove]
    have hother : ∀ id' b', update s.map id none id' = some b' → id' ≠ id ∧
        s.map id' = some b' := by
      intro id' b' hb'
      by_cases hid : id' = id
      · rw [hid, update_self] at hb'
        cases hb'
      · rw [update_of_ne hid] at hb'
        exact ⟨hid, hb'⟩
    refine ⟨fun id' hnone => ?_, fun id' b' hb' => ?_, fun id1 id2 b1 b2 hne hb1 hb2 => ?_, ?_, ?_⟩
    · by_cases hid : id' = id
      · rw [hid]
        exact update_self _ _ _
      · have hblock := h.absent id' ((update_of_ne hid _ _).symm.trans hnone)
        dsimp only
        rw [update_of_ne hid, closeGap, if_neg (by rw [hblock]; exact Nat.not_lt_zero _),
          hblock]
    · obtain ⟨hne, hb'⟩ := hother id' b' hb'
      have hap := h.apart id' id b' b hne hb' hb
      obtain ⟨h1, h2, h3, h4, h5, h6, h7, h8⟩ := h.slot id' b' hb'
      have hpadded' := b'.le_padded
      have hpos' := b'.size_pos'
      unfold Apart at hap
      unfold dblkHdrSize at h6 h7 h8
      refine ⟨?_, ?_, ?_, h4, ?_, ?_, ?_, fun i hi => ?_⟩ <;> dsimp only <;>
        rw [update_of_ne hne, closeGap_eq h hb hb' hne] <;> dsimp only
      · exact h1
      · exact h2
      · exact h3
      · split_ifs <;> omega
      · unfold dblkHdrSize
        split_ifs <;> omega
      · unfold dblkHdrSize
        split_ifs <;> omega
      · unfold dblkHdrSize
        rw [hget _ (by split_ifs <;> omega), ← h8 i hi]
        split_ifs
        · congr 1
          omega
        · omega
        · omega
        · rfl
    · obtain ⟨hne1, hb1⟩ := hother id1 b1 hb1
      obtain ⟨hne2, hb2⟩ := hother id2 b2 hb2
      have hap := h.apart id1 id2 b1 b2 hne hb1 hb2
      have hap1 := h.apart id1 id b1 b hne1 hb1 hb
      have hap2 := h.apart id2 id b2 b hne2 hb2 hb
      have hpos1 := b1.size_pos'
      have hpos2 := b2.size_pos'
      have hpadded1 := b1.le_padded
      have hpadded2 := b2.le_padded
      dsimp only
      rw [update_of_ne hne1, update_of_ne hne2, closeGap_eq h hb hb1 hne1,
        closeGap_eq h hb hb2 hne2]
      unfold Apart at *
      dsimp only
      split_ifs <;> omega
    · exact hlen
    · dsimp only
      omega

theorem inv_setCurrent (h : Inv s) (id : DataBlockId) (element : UInt8)
    (hp : Permits s (.setCurrent id element)) :
    Inv ⟨(blockSetCurrent s.pool id element).2,
      update s.map id ((s.map id).map (·.setCurrent element))⟩ := by
  cases hb : s.map id with
  | none =>
    have hblock := h.absent id hb
    rw [blockSetCurrent, hblock]
    simp only [Nat.zero_mul, Nat.lt_irrefl, if_false, map_none]
    rw [← hb, update_eq_self]
    exact h
  | some b =>
    obtain ⟨h1, h2, h3, h4, h5, h6, h7, h8⟩ := h.slot id b hb
    have hiff : b.elementSize * (elementOf b.current element).toNat <
        b.elementSize * b.elementCount ↔ (elementOf b.current element).toNat < b.elementCount :=
      Nat.mul_lt_mul_left b.size_pos
    unfold Permits at hp
    dsimp only at hp
    rw [h1, h2, h3, hiff] at hp
    simp only [blockSetCurrent, h1, h2, h3, hiff, map_some]
    unfold Block.setCurrent
    split_ifs with hlt
    · dsimp only
      rw [Nat.mod_eq_of_lt (hp hlt)]
      refine h.update (fun id' hne => update_of_ne hne _ _) (Nat.le_refl _) h.size_lt
        h.length (fun _ _ _ _ _ _ => rfl)
        (fun hn => absurd hn (some_ne_none _)) (fun b' hb' => ?_)
      obtain rfl := some.inj hb'
      refine ⟨⟨?_, ?_, ?_, h4, ?_, ?_, ?_, fun i hi => ?_⟩, fun id' hne b' hb' => ?_⟩ <;>
        simp only [update_self]
      · exact h5
      · exact h6
      · exact h7
      · exact h8 i hi
      · exact h.apart id id' b b' (Ne.symm hne) hb hb'
    · rw [← hb, update_eq_self]
      exact h

theorem inv_write (h : Inv s) (id : DataBlockId) (index : ℕ) (value : UInt8) :
    Inv ⟨writeByte s.pool id index value,
      update s.map id ((s.map id).map (·.write index value))⟩ := by
  cases hb : s.map id with
  | none =>
    have hblock := h.absent id hb
    rw [writeByte, blockGetSize, hblock]
    simp only [Nat.not_lt_zero, if_false, map_none]
    rw [← hb, update_eq_self]
    exact h
  | some b =>
    obtain ⟨h1, h2, h3, h4, h5, h6, h7, h8⟩ := h.slot id b hb
    have hlen := h.length
    have hpadded := b.le_padded
    unfold writeByte blockGetSize
    rw [h1]
    unfold dblkHdrSize at h6 h7
    have hfields : ∀ data : List UInt8, data.length = s.pool.data.length →
        (∀ id', id' ≠ id → ∀ b', s.map id' = some b' →
          ∀ i < b'.elementSize * b'.elementCount,
            data[(s.pool.block id').offset - dblkHdrSize + i]? =
              s.pool.data[(s.pool.block id').offset - dblkHdrSize + i]?) →
        (∀ i < b.elementSize * b.elementCount,
          data[(s.pool.block id).offset - dblkHdrSize + i]? = (b.bytes.set index value)[i]?) →
        Inv ⟨{ s.pool with data }, update s.map id (some (b.write index value))⟩ := by
      intro data hdata hothers hown
      refine h.update (fun _ _ => rfl) (Nat.le_refl _) h.size_lt (by rw [hdata]; exact hlen)
        hothers (fun hn => absurd hn (some_ne_none _)) (fun b' hb' => ?_)
      obtain rfl := some.inj hb'
      exact ⟨⟨h1, h2, h3, h4, h5, by unfold dblkHdrSize; exact h6, by unfold dblkHdrSize; exact h7,
        hown⟩, fun id' hne b' hb' => h.apart id id' b b' (Ne.symm hne) hb hb'⟩
    by_cases hindex : index < b.elementSize * b.elementCount
    · rw [if_pos hindex]
      refine hfields _ length_set (fun id' hne b' hb' i hi => ?_) (fun i hi => ?_)
      · have hap := h.apart id' id b' b hne hb' hb
        have hle' := (h.slot id' b' hb').le_offset
        have hpadded' := b'.le_padded
        unfold Apart at hap
        unfold dblkHdrSize at hle' ⊢
        rw [getElem?_set_ne (by omega)]
      · rw [getElem?_set, getElem?_set, h8 i hi, b.length_eq]
        unfold dblkHdrSize
        split_ifs <;> first | rfl | omega
    · rw [if_neg hindex]
      refine hfields _ rfl (fun _ _ _ _ _ _ => rfl) (fun i hi => ?_)
      rw [getElem?_set_ne (by omega), h8 i hi]

/-! ## Runs -/

/-- **The step.** -/
theorem inv_blocksStep {e : BlockEvent} (h : Inv s) (hp : Permits s e)
    (hs : blocksStep s e = some s') : Inv s' := by
  cases e with
  | add id elementCount elementSize reallocated =>
    obtain rfl := some.inj hs
    exact inv_add h id elementCount elementSize reallocated hp
  | remove id reallocated =>
    obtain rfl := some.inj hs
    exact inv_remove h id reallocated
  | setCurrent id element =>
    obtain rfl := some.inj hs
    exact inv_setCurrent h id element hp
  | getIndexed id element =>
    obtain rfl := some.inj hs
    exact h
  | write id index value =>
    obtain rfl := some.inj hs
    exact inv_write h id index value

theorem blockAdd_isSome {elementCount elementSize : UInt8} {reallocated : Bool} :
    (blockAdd p id elementCount elementSize reallocated).1.isSome ↔
      (p.block id).offset = 0 ∧ elementCount ≠ 0 ∧ elementSize ≠ 0 ∧ reallocated := by
  unfold blockAdd
  split_ifs with h
  · exact iff_of_true rfl h
  · exact iff_of_false Bool.false_ne_true h

theorem answers_add (p : DataPool) (id : DataBlockId) (elementCount elementSize : UInt8)
    (reallocated : Bool) {base : ℕ}
    (hlt : dblkHdrSize + p.sizeBlocksPadded < 2 ^ 10)
    (hbase : (blockAdd p id elementCount elementSize reallocated).1 = some base) :
    blockGetBase (blockAdd p id elementCount elementSize reallocated).2 id = some base := by
  unfold blockAdd at hbase ⊢
  split_ifs at hbase ⊢
  · obtain rfl := some.inj hbase
    simp only [blockGetBase, update_self]
    rw [Nat.mod_eq_of_lt hlt, pointer_pos (by unfold dblkHdrSize; omega)]

theorem answers_setCurrent (p : DataPool) (id : DataBlockId) (element : UInt8) {current : ℕ}
    (h : (blockSetCurrent p id element).1 = some current) :
    blockGetCurrent (blockSetCurrent p id element).2 id = some current := by
  unfold blockSetCurrent at h ⊢
  dsimp only at h ⊢
  split_ifs at h ⊢
  · exact h

/-- An element that is looked up is there, or the block is not. -/
theorem answers_getIndexed (h : Inv s) {element : UInt8}
    (hp : (s.pool.block id).offset ≠ 0 →
      (s.pool.block id).elementSize * element.toNat < (s.pool.block id).blockSize)
    (hout : ∀ b, s.map id = some b → b.elementCount ≤ element.toNat) :
    blockGetIndexed s.pool id element = none := by
  cases hb : s.map id with
  | none => exact (hasNot_of_zero (h.absent id hb)).getIndexed element
  | some b =>
    have hslot := h.slot id b hb
    have hin := hp fun hzero => by
      rw [(h.offset_eq_zero_iff id).mp hzero] at hb
      cases hb
    rw [hslot.elementSize, hslot.blockSize] at hin
    exact absurd (Nat.lt_of_mul_lt_mul_left hin) (Nat.not_lt.mpr (hout b hb))

theorem answers_of_permits {e : BlockEvent} (h : Inv s) (hp : Permits s e) : Answers s e := by
  cases e with
  | add id elementCount elementSize reallocated =>
    intro base hbase
    obtain ⟨h1, h2, h3, h4⟩ := blockAdd_isSome.mp (isSome_of_mem hbase)
    exact answers_add _ _ _ _ _ (hp h1 h2 h3 h4).2.2 hbase
  | remove id reallocated => trivial
  | setCurrent id element => exact fun current => answers_setCurrent _ _ _
  | getIndexed id element => exact answers_getIndexed h hp
  | write id index value => trivial

/-- The blocks of a device at first. -/
def noBlocks : Blocks := ⟨blockInit, fun _ => none⟩

/-- **What a device does with its blocks.** While what is added fits into the bit-fields and the
indexes are in range, the pool has the blocks that should be there in every state, and every call
answers for them. -/
theorem represents_of_permits {events : List BlockEvent}
    (h : Meets blocksStep Permits noBlocks events) :
    Throughout blocksStep (fun s => Represents s.pool s.map) noBlocks events ∧
      Meets blocksStep Answers noBlocks events := by
  constructor
  · intro front s hfront hs
    exact (invariant_of_meets (fun _ _ _ => inv_blocksStep) inv_init (h.of_prefix hfront)
      hs).represents
  · have hstep : ∀ s e, Inv s → Permits s e →
        Answers s e ∧ ∀ s', blocksStep s e = some s' → Inv s' :=
      fun s e hs hp => ⟨answers_of_permits hs hp, fun _ => inv_blocksStep hs hp⟩
    exact meets_of_meets hstep inv_init h

instance Permits.decidable (s : Blocks) : (e : BlockEvent) → Decidable (Permits s e)
  | .add .. => inferInstanceAs (Decidable (_ → _ → _ → _ → _ ∧ _ ∧ _))
  | .remove .. => inferInstanceAs (Decidable True)
  | .setCurrent .. => inferInstanceAs (Decidable (_ → _))
  | .getIndexed .. => inferInstanceAs (Decidable (_ → _))
  | .write .. => inferInstanceAs (Decidable True)

/-- Two lists of endpoints, of which the one that was added first is removed again. -/
def twoLists : List BlockEvent :=
  [.add .sepList 3 8 true, .add .listPreferredLocalSeids 4 1 true, .write .sepList 9 0x11,
    .write .listPreferredLocalSeids 2 0x22, .setCurrent .listPreferredLocalSeids 2,
    .getIndexed .sepList 1, .remove .sepList true, .getIndexed .listPreferredLocalSeids 2]

theorem represents_of_permits_twoLists : Meets blocksStep Permits noBlocks twoLists ∧
    Throughout blocksStep (fun s => Represents s.pool s.map) noBlocks twoLists ∧
      Meets blocksStep Answers noBlocks twoLists :=
  have h : Meets blocksStep Permits noBlocks twoLists := by decide +kernel
  ⟨h, represents_of_permits h⟩

/-- The size of an element of 128 bytes is kept as 0, and a block of two has a sixth element. -/
theorem not_right_largeElement :
    ¬Throughout blocksStep (fun s => Represents s.pool s.map) noBlocks
        [.add .sepList 2 128 true] ∧
      ¬Meets blocksStep Answers noBlocks [.add .sepList 2 8 true, .getIndexed .sepList 5] := by
  constructor
  · intro h
    obtain ⟨base, hhas⟩ := (h [.add .sepList 2 128 true] _ (List.prefix_refl _) rfl).has .sepList
      (.zero 2 128 (by decide)) rfl
    have hbase := hhas.getBase
    have hindexed := hhas.getIndexed 1 (by decide)
    have h0 : some 20 = some base := hbase
    have h1 : some 20 = some (base + 128 * 1) := hindexed
    rw [Option.some.injEq] at h0 h1
    omega
  · rintro ⟨-, h, -⟩
    have hnone : (some 60 : Option ℕ) = none := h fun b hb => by
      obtain rfl := Option.some.inj hb
      decide
    exact absurd hnone (Option.some_ne_none _)

end Mh40.A2dp.DataBlocks
