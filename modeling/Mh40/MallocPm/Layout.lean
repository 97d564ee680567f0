import Mh40.Lib.Tiling
import Mh40.MallocPm.HeapAlloc
import Mathlib.Data.List.Nodup
import Mathlib.Data.List.Perm.Subperm

/-!
# The layout of the program memory heap

The blocks of a heap tile its memory. `Layout` ties the tiles of every region to the headers in
memory and to the lists of free blocks; a change of the heap replaces some adjacent tiles of one
region by others that cover the same words.

* `Layout.change`: what a change has to show.
* `Layout.split`, `Layout.take`: an allocation, from a longer block or of a whole one.
* `Layout.push`, `Layout.absorb`, `Layout.join`: a release, with a free block before it or not, and
  with one after it.
-/

namespace Mh40.MallocPm

open Lib List Function Option

/-- The heap of the first core, that of the second core, and what lies above its cache. -/
inductive Region
  | p0
  | p1
  | above
deriving DecidableEq, Repr

/-- The core whose list has the free blocks of the region. -/
def Region.core : Region → Core
  | .p0 => .p0
  | .p1 => .p1
  | .above => .p1

/-- A block by words, its header first. -/
structure Block where
  start : ℕ
  length : ℕ
  free : Bool
deriving DecidableEq, Repr

def Block.stop (b : Block) : ℕ := b.start + b.length + nodeSize

/-- The address of the header. -/
def Block.addr (b : Block) : ℕ := b.start * pcPerInstruction

/-- The address that the owner has. -/
def Block.ptr (b : Block) : ℕ := (b.start + nodeSize) * pcPerInstruction

theorem Block.start_lt_stop (b : Block) : b.start < b.stop := by
  unfold Block.stop nodeSize
  omega

/-- The first word of each region, and the first one after it. -/
structure Bounds where
  lo : Region → ℕ
  hi : Region → ℕ

/-- Blocks of different regions do not meet. -/
structure Bounds.Valid (B : Bounds) : Prop where
  pos : ∀ r, B.lo r < B.hi r → 0 < B.lo r
  hi_lt : ∀ r, B.hi r * pcPerInstruction < 2 ^ 32
  apart : ∀ r r', r ≠ r' → B.lo r < B.hi r → B.lo r' < B.hi r' →
    B.hi r ≤ B.lo r' ∨ B.hi r' ≤ B.lo r
  /-- Two regions of one core do not even touch. -/
  gap : ∀ r r', r ≠ r' → r.core = r'.core → B.lo r < B.hi r → B.lo r' < B.hi r' →
    B.hi r ≠ B.lo r'

/-- The headers and the lists of free blocks for the tiles of the regions. -/
structure Layout (B : Bounds) (pm : ℕ → ℕ) (freelist : Core → ℕ) (tiles : Region → List Block)
    (nodes : Core → List ℕ) : Prop where
  tiled : ∀ r, Tiles Block.start Block.stop (B.lo r) (tiles r) (B.hi r)
  length_eq : ∀ r, ∀ b ∈ tiles r, pm b.start = b.length
  magic : ∀ r, ∀ b ∈ tiles r, b.free = false → pm (b.start + 1) = magicWord
  linked : ∀ c, Linked (nextOf pm) (freelist c) (nodes c)
  nodup : ∀ c, (nodes c).Nodup
  mem_nodes : ∀ c p, p ∈ nodes c ↔
    ∃ r, r.core = c ∧ ∃ b ∈ tiles r, b.free = true ∧ p = b.addr

/-! ## Memory -/

section Memory

variable {pm : ℕ → ℕ} {w i : ℕ} {node : MemNodePm}

theorem addr_div (w : ℕ) : w * pcPerInstruction / pcPerInstruction = w :=
  Nat.mul_div_cancel w (by decide)

theorem readNode_addr : readNodeFromPm pm (w * pcPerInstruction) = ⟨pm w, pm (w + 1)⟩ := by
  rw [readNodeFromPm, addr_div]

theorem nextOf_addr : nextOf pm (w * pcPerInstruction) = pm (w + 1) := by
  rw [nextOf, readNode_addr]

theorem writeNode_apply : writeNodeToPm pm (w * pcPerInstruction) node i =
    if i = w + 1 then node.next else if i = w then node.length32 else pm i := by
  rw [writeNodeToPm, addr_div, update_apply, update_apply]

theorem ptrAdd_addr {n : ℕ} (h : (w + n) * pcPerInstruction < 2 ^ 32) :
    ptrAdd (w * pcPerInstruction) n = (w + n) * pcPerInstruction := by
  rw [ptrAdd, ← Nat.add_mul, Nat.mod_eq_of_lt h]

theorem addr_inj {w w' : ℕ} (h : w * pcPerInstruction = w' * pcPerInstruction) : w = w' :=
  Nat.eq_of_mul_eq_mul_right (by decide) h

end Memory

/-! ## Blocks of a layout -/

section Blocks

variable {B : Bounds} {pm : ℕ → ℕ} {freelist : Core → ℕ} {tiles : Region → List Block}
  {nodes : Core → List ℕ} {r r' : Region} {b b' : Block}

section

variable (h : Layout B pm freelist tiles nodes)
include h

theorem Layout.of_eq {pm' : ℕ → ℕ} {freelist' : Core → ℕ} (hpm : pm' = pm)
    (hfreelist : freelist' = freelist) :
    Layout B pm' freelist' tiles nodes := by
  rw [hpm, hfreelist]
  exact h

theorem Layout.lo_lt_hi (hb : b ∈ tiles r) :
    B.lo r < B.hi r := by
  have := (h.tiled r).mem hb
  omega

section

variable (hB : B.Valid)
include hB

theorem Layout.stop_lt (hb : b ∈ tiles r) :
    0 < b.start ∧ b.stop * pcPerInstruction < 2 ^ 32 := by
  have h1 := (h.tiled r).mem hb
  have h2 := hB.pos r (h.lo_lt_hi hb)
  exact ⟨by omega, Nat.lt_of_le_of_lt (Nat.mul_le_mul_right _ h1.2.2) (hB.hi_lt r)⟩

theorem Layout.addr_ne_zero (hb : b ∈ tiles r) : b.addr ≠ 0 :=
  Nat.mul_ne_zero (h.stop_lt hB hb).1.ne' (by decide)

/-- Two blocks are the same one, or do not overlap. -/
theorem Layout.apart (hb : b ∈ tiles r) (hb' : b' ∈ tiles r') :
    (r = r' ∧ b = b') ∨ b.stop ≤ b'.start ∨ b'.stop ≤ b.start := by
  by_cases hr : r = r'
  · subst hr
    rcases (h.tiled r).apart hb hb' with heq | hlt
    · exact .inl ⟨rfl, heq⟩
    · exact .inr hlt
  · have h1 := (h.tiled r).mem hb
    have h2 := (h.tiled r').mem hb'
    rcases hB.apart r r' hr (h.lo_lt_hi hb) (h.lo_lt_hi hb') with hlt | hlt
    · exact .inr (.inl (by omega))
    · exact .inr (.inr (by omega))

theorem Layout.eq_of_start (hb : b ∈ tiles r) (hb' : b' ∈ tiles r') (heq : b.start = b'.start) :
    r = r' ∧ b = b' := by
  have h1 := b.start_lt_stop
  have h2 := b'.start_lt_stop
  rcases h.apart hB hb hb' with hsame | hlt | hlt
  · exact hsame
  · omega
  · omega

/-- The link of a block is not the header of one. -/
theorem Layout.link_ne_start (hb : b ∈ tiles r) (hb' : b' ∈ tiles r') :
    b.start + 1 ≠ b'.start := by
  have happart := h.apart hB hb hb'
  unfold Block.stop nodeSize at happart
  rcases happart with ⟨-, rfl⟩ | hlt | hlt <;> omega

/-- A block that starts where another one of its core stops is in the same region. -/
theorem Layout.region_eq (hb : b ∈ tiles r) (hb' : b' ∈ tiles r') (hc : r.core = r'.core)
    (heq : b.stop = b'.start) :
    r = r' := by
  by_contra hr
  have h1 := (h.tiled r).mem hb
  have h2 := (h.tiled r').mem hb'
  have hlo := h.lo_lt_hi hb
  have hlo' := h.lo_lt_hi hb'
  have hgap := hB.gap r r' hr hc hlo hlo'
  rcases hB.apart r r' hr hlo hlo' with hlt | hlt
  · omega
  · omega

end

theorem Layout.free_of_mem_nodes {c : Core} {p : ℕ} (hp : p ∈ nodes c) :
    ∃ r, r.core = c ∧ ∃ b ∈ tiles r, b.free = true ∧ p = b.addr :=
  (h.mem_nodes c p).mp hp

/-- The free block of a node. -/
theorem Layout.addr_mem_nodes (hb : b ∈ tiles r) (hf : b.free = true) : b.addr ∈ nodes r.core :=
  (h.mem_nodes _ _).mpr ⟨r, rfl, b, hb, hf, rfl⟩

theorem Layout.readNode (hb : b ∈ tiles r) :
    readNodeFromPm pm b.addr = ⟨b.length, pm (b.start + 1)⟩ := by
  rw [Block.addr, readNode_addr, h.length_eq r b hb]

/-- There are fewer free blocks than addresses. -/
theorem Layout.nodes_length (hB : B.Valid) {fuel : ℕ} (hpos : 0 < fuel)
    (hfuel : ∀ r, B.hi r * pcPerInstruction ≤ fuel) (c : Core) :
    (nodes c).length < fuel := by
  have hsub : nodes c ⊆ List.range' 1 (fuel - 1) := by
    intro p hp
    obtain ⟨r, -, b, hb, -, rfl⟩ := h.free_of_mem_nodes hp
    have hmem := (h.tiled r).mem hb
    have hne := h.addr_ne_zero hB hb
    have hle := hfuel r
    rw [mem_range'_1]
    unfold Block.addr pcPerInstruction at *
    omega
  have := ((h.nodup c).subperm hsub).length_le
  rw [length_range'] at this
  omega

end

end Blocks

/-! ## Changes of a layout -/

section Changes

variable {B : Bounds} {pm pm' : ℕ → ℕ} {freelist freelist' : Core → ℕ}
  {tiles : Region → List Block} {nodes : Core → List ℕ} {r : Region}
  {l₁ l₂ old new : List Block} {ns : List ℕ}

variable (old) in
/-- **A change** of a region, which may also extend it. The headers of the new tiles are written, the
lengths of all other blocks stay and so do their magic words, and the list of the core links the
free blocks. -/
theorem Layout.change {B' : Bounds} (h : Layout B pm freelist tiles nodes) (hB : B.Valid)
    (hr : tiles r = l₁ ++ (old ++ l₂))
    (hbounds : ∀ r', r' ≠ r → B'.lo r' = B.lo r' ∧ B'.hi r' = B.hi r')
    (htiled : Tiles Block.start Block.stop (B'.lo r) (l₁ ++ (new ++ l₂)) (B'.hi r))
    (hlength : ∀ b ∈ new, pm' b.start = b.length)
    (hmagic : ∀ b ∈ new, b.free = false → pm' (b.start + 1) = magicWord)
    (hkeep : ∀ r', ∀ b ∈ tiles r', (r' = r → b ∉ old) →
      pm' b.start = pm b.start ∧ (b.free = false → pm' (b.start + 1) = pm (b.start + 1)))
    (hother : ∀ c, c ≠ r.core → freelist' c = freelist c ∧
      ∀ p ∈ nodes c, nextOf pm' p = nextOf pm p)
    (hlinked : Linked (nextOf pm') (freelist' r.core) ns) (hnodup : ns.Nodup)
    (hmem : ∀ p, p ∈ ns ↔ (p ∈ nodes r.core ∧ ∀ b ∈ old, b.free = true → p ≠ b.addr) ∨
      ∃ b ∈ new, b.free = true ∧ p = b.addr) :
    Layout B' pm' freelist' (update tiles r (l₁ ++ (new ++ l₂)))
      (update nodes r.core ns) := by
  have hinj : ∀ b ∈ l₁ ++ l₂, ∀ b' ∈ old, b.addr ≠ b'.addr := by
    intro b hb b' hb' heq
    have hp := (h.tiled r).pairwise
    rw [hr, pairwise_append, pairwise_append] at hp
    have h1 := b.start_lt_stop
    have h2 := b'.start_lt_stop
    have heq := addr_inj heq
    rcases mem_append.mp hb with hb | hb
    · have := hp.2.2 b hb b' (mem_append_left _ hb')
      omega
    · have := hp.2.1.2.2 b' hb' b hb
      omega
  have hinj' : ∀ r', r' ≠ r → ∀ b ∈ tiles r', ∀ b' ∈ old, b.addr ≠ b'.addr := by
    intro r' hr' b hb b' hb' heq
    have hb' : b' ∈ tiles r := hr ▸ mem_append_right _ (mem_append_left _ hb')
    exact hr' (h.eq_of_start hB hb hb' (addr_inj heq)).1
  have hcases : ∀ r' b, b ∈ update tiles r (l₁ ++ (new ++ l₂)) r' →
      (r' = r ∧ b ∈ new) ∨ (b ∈ tiles r' ∧ (r' = r → b ∈ l₁ ++ l₂)) := by
    intro r' b hb
    by_cases hr' : r' = r
    · subst hr'
      rw [update_self] at hb
      rcases mem_append.mp hb with hb | hb
      · exact .inr ⟨hr ▸ mem_append_left _ hb, fun _ => mem_append_left _ hb⟩
      · rcases mem_append.mp hb with hb | hb
        · exact .inl ⟨rfl, hb⟩
        · refine .inr ⟨hr ▸ ?_, fun _ => mem_append_right _ hb⟩
          exact mem_append_right _ (mem_append_right _ hb)
    · rw [update_of_ne hr'] at hb
      exact .inr ⟨hb, fun h => absurd h hr'⟩
  have hnot : ∀ r' b, (r' = r → b ∈ l₁ ++ l₂) → r' = r → b ∉ old := fun r' b hl hr' hold =>
    hinj b (hl hr') b hold rfl
  refine ⟨fun r' => ?_, fun r' b hb => ?_, fun r' b hb hf => ?_, fun c => ?_, fun c => ?_,
    fun c p => ?_⟩
  · by_cases hr' : r' = r
    · subst hr'
      rw [update_self]
      exact htiled
    · rw [update_of_ne hr', (hbounds r' hr').1, (hbounds r' hr').2]
      exact h.tiled r'
  · rcases hcases r' b hb with ⟨-, hb⟩ | ⟨hb, hl⟩
    · exact hlength b hb
    · exact (hkeep r' b hb (hnot r' b hl)).1.trans (h.length_eq r' b hb)
  · rcases hcases r' b hb with ⟨-, hb⟩ | ⟨hb, hl⟩
    · exact hmagic b hb hf
    · exact ((hkeep r' b hb (hnot r' b hl)).2 hf).trans (h.magic r' b hb hf)
  · by_cases hc : c = r.core
    · subst hc
      rw [update_self]
      exact hlinked
    · rw [update_of_ne hc, (hother c hc).1]
      exact (h.linked c).congr (hother c hc).2
  · by_cases hc : c = r.core
    · subst hc
      rw [update_self]
      exact hnodup
    · rw [update_of_ne hc]
      exact h.nodup c
  · by_cases hc : c = r.core
    · subst hc
      rw [update_self, hmem, h.mem_nodes]
      constructor
      · rintro (⟨⟨r', hr', b, hb, hf, rfl⟩, hno⟩ | ⟨b, hb, hf, rfl⟩)
        · refine ⟨r', hr', b, ?_, hf, rfl⟩
          by_cases he : r' = r
          · subst he
            rw [update_self]
            rw [hr] at hb
            rcases mem_append.mp hb with hb | hb
            · exact mem_append_left _ hb
            · rcases mem_append.mp hb with hb | hb
              · exact absurd rfl (hno b hb hf)
              · exact mem_append_right _ (mem_append_right _ hb)
          · rw [update_of_ne he]
            exact hb
        · refine ⟨r, rfl, b, ?_, hf, rfl⟩
          rw [update_self]
          exact mem_append_right _ (mem_append_left _ hb)
      · rintro ⟨r', hr', b, hb, hf, rfl⟩
        rcases hcases r' b hb with ⟨-, hb⟩ | ⟨hb, hl⟩
        · exact .inr ⟨b, hb, hf, rfl⟩
        · refine .inl ⟨⟨r', hr', b, hb, hf, rfl⟩, fun b' hb' _ => ?_⟩
          by_cases he : r' = r
          · exact hinj b (hl he) b' hb'
          · exact hinj' r' he b hb b' hb'
    · rw [update_of_ne hc, h.mem_nodes]
      have hsame : ∀ r' : Region, r'.core = c →
          update tiles r (l₁ ++ (new ++ l₂)) r' = tiles r' := fun r' hr' =>
        update_of_ne (fun he => hc (by rw [← hr', he])) ..
      constructor
      · rintro ⟨r', hr', b, hb, hf⟩
        exact ⟨r', hr', b, hsame r' hr' ▸ hb, hf⟩
      · rintro ⟨r', hr', b, hb, hf⟩
        exact ⟨r', hr', b, hsame r' hr' ▸ hb, hf⟩

variable (old) in
/-- Some adjacent tiles are replaced by others that cover the same words. -/
theorem Layout.splice (h : Layout B pm freelist tiles nodes) (hr : tiles r = l₁ ++ (old ++ l₂))
    (hcover : ∀ x y, Tiles Block.start Block.stop x old y → Tiles Block.start Block.stop x new y) :
    Tiles Block.start Block.stop (B.lo r) (l₁ ++ (new ++ l₂)) (B.hi r) := by
  have ht := h.tiled r
  rw [hr] at ht
  obtain ⟨x, h1, ht⟩ := tiles_append.mp ht
  obtain ⟨y, ho, h2⟩ := tiles_append.mp ht
  exact tiles_append.mpr ⟨x, h1, tiles_append.mpr ⟨y, hcover x y ho, h2⟩⟩

variable {b x y : Block} {n1 n2 : List ℕ}

section

variable (h : Layout B pm freelist tiles nodes)
include h

/-- Another block than `b` does not overlap it. -/
theorem Layout.sep (hB : B.Valid) {r' : Region} {b' : Block} (hb' : b' ∈ tiles r')
    (hb : b ∈ tiles r) (hne : r' = r → b' ≠ b) :
    b'.stop ≤ b.start ∨ b.stop ≤ b'.start :=
  (h.apart hB hb' hb).resolve_left fun he => hne he.1 he.2

/-- The links of the free blocks of another core. -/
theorem Layout.nextOf_eq {c : Core} {p : ℕ} (hp : p ∈ nodes c)
    (hkeep : ∀ r', r'.core = c → ∀ b' ∈ tiles r', b'.free = true →
      p = b'.addr → pm' (b'.start + 1) = pm (b'.start + 1)) : nextOf pm' p = nextOf pm p := by
  obtain ⟨r', hr', b', hb', hf, rfl⟩ := h.free_of_mem_nodes hp
  rw [Block.addr, nextOf_addr, nextOf_addr]
  exact hkeep r' hr' b' hb' hf rfl

/-- The top of a free block allocated. -/
theorem Layout.split (hB : B.Valid) (hr : tiles r = l₁ ++ b :: l₂) (hf : b.free = true) {n : ℕ}
    (hn : n + nodeSize ≤ b.length) :
    Layout B
      (writeNodeToPm (writeNodeToPm pm b.addr ⟨b.length - (n + nodeSize), pm (b.start + 1)⟩)
        ((b.start + (b.length - n)) * pcPerInstruction) ⟨n, magicWord⟩)
      freelist
      (update tiles r (l₁ ++ ([⟨b.start, b.length - (n + nodeSize), true⟩,
        ⟨b.start + (b.length - n), n, false⟩] ++ l₂)))
      nodes := by
  have hb : b ∈ tiles r := by rw [hr]; simp
  have hfar : ∀ r', ∀ b' ∈ tiles r', (r' = r → b' ≠ b) → ∀ i, (i = b'.start ∨ i = b'.start + 1) →
      writeNodeToPm (writeNodeToPm pm b.addr ⟨b.length - (n + nodeSize), pm (b.start + 1)⟩)
        ((b.start + (b.length - n)) * pcPerInstruction) ⟨n, magicWord⟩ i = pm i := by
    intro r' b' hb' hne i hi
    have hsep := h.sep hB hb' hb hne
    unfold Block.stop nodeSize at hsep
    unfold nodeSize at hn
    rw [writeNode_apply, Block.addr, writeNode_apply, if_neg (by omega), if_neg (by omega),
      if_neg (by omega), if_neg (by omega)]
  have hlink : ∀ r', ∀ b' ∈ tiles r',
      writeNodeToPm (writeNodeToPm pm b.addr ⟨b.length - (n + nodeSize), pm (b.start + 1)⟩)
        ((b.start + (b.length - n)) * pcPerInstruction) ⟨n, magicWord⟩ (b'.start + 1) =
        pm (b'.start + 1) := by
    intro r' b' hb'
    by_cases he : r' = r ∧ b' = b
    · rw [he.2]
      unfold nodeSize at hn
      rw [writeNode_apply, Block.addr, writeNode_apply, if_neg (by omega), if_neg (by omega),
        if_pos rfl]
    · exact hfar r' b' hb' (fun h1 h2 => he ⟨h1, h2⟩) _ (.inr rfl)
  have hnodes : nodes = update nodes r.core (nodes r.core) := by simp
  rw [hnodes]
  refine h.change [b] hB hr (fun _ _ => ⟨rfl, rfl⟩) (h.splice [b] hr fun x y hxy => ?_)
    (fun b' hb' => ?_) (fun b' hb' hf' => ?_) (fun r' b' hb' hne => ?_)
    (fun c hc => ⟨rfl, fun p hp => ?_⟩) ?_ (h.nodup _) fun p => ?_
  · obtain ⟨hs, -, hy⟩ := hxy
    have hy : b.stop = y := hy
    unfold Block.stop nodeSize at hy
    unfold nodeSize at hn
    refine ⟨hs, Block.start_lt_stop _, ?_, Block.start_lt_stop _, ?_⟩
    · simp only [Block.stop, nodeSize]
      omega
    · change Block.stop _ = y
      simp only [Block.stop, nodeSize]
      omega
  · unfold nodeSize at hn
    rcases mem_cons.mp hb' with rfl | hb'
    · rw [writeNode_apply, Block.addr, writeNode_apply]
      dsimp only
      rw [if_neg (by omega), if_neg (by omega), if_neg (by omega), if_pos rfl]
    · obtain rfl := mem_singleton.mp hb'
      rw [writeNode_apply, if_neg (Nat.succ_ne_self _).symm, if_pos rfl]
  · rcases mem_cons.mp hb' with rfl | hb'
    · cases hf'
    · obtain rfl := mem_singleton.mp hb'
      rw [writeNode_apply, if_pos rfl]
  · have hne : r' = r → b' ≠ b := fun he hbb => hne he (hbb ▸ mem_singleton_self _)
    exact ⟨hfar r' b' hb' hne _ (.inl rfl), fun _ => hfar r' b' hb' hne _ (.inr rfl)⟩
  · exact h.nextOf_eq hp fun r' _ b' hb' _ _ => hlink r' b' hb'
  · exact (h.linked _).congr fun p hp => h.nextOf_eq hp fun r' _ b' hb' _ _ => hlink r' b' hb'
  · constructor
    · intro hp
      by_cases hpb : p = b.addr
      · exact .inr ⟨_, mem_cons_self, rfl, hpb⟩
      · exact .inl ⟨hp, fun b' hb' _ => mem_singleton.mp hb' ▸ hpb⟩
    · rintro (⟨hp, -⟩ | ⟨b', hb', hf', rfl⟩)
      · exact hp
      · rcases mem_cons.mp hb' with rfl | hb'
        · exact (h.addr_mem_nodes hb hf : b.addr ∈ _)
        · obtain rfl := mem_singleton.mp hb'
          cases hf'

end

/-- The word that holds the link of the last node of a list. -/
def lastLink (ns : List ℕ) : Option ℕ := ns.getLast?.map fun p => p / pcPerInstruction + 1

section

variable (h : Layout B pm freelist tiles nodes)
include h

/-- The last link is that of a free block. -/
theorem Layout.lastLink_some {c : Core} {p i : ℕ} (hn : nodes c = n1 ++ p :: n2)
    (hi : lastLink n1 = some i) :
    ∃ r', r'.core = c ∧ ∃ z ∈ tiles r', z.free = true ∧ n1.getLast? = some z.addr ∧
      i = z.start + 1 := by
  obtain ⟨q, hq, rfl⟩ := map_eq_some_iff.mp hi
  have hmem : q ∈ nodes c := by
    rw [hn]
    exact mem_append_left _ (mem_of_getLast? hq)
  obtain ⟨r', hr', z, hz, hf, rfl⟩ := h.free_of_mem_nodes hmem
  exact ⟨r', hr', z, hz, hf, hq, by rw [Block.addr, addr_div]⟩

theorem Layout.lastLink_ne_start (hB : B.Valid) {c : Core} {p : ℕ} (hn : nodes c = n1 ++ p :: n2)
    {r' : Region} (hb : b ∈ tiles r') : lastLink n1 ≠ some b.start := by
  intro hlast
  obtain ⟨r'', -, z, hz, -, -, heq⟩ := h.lastLink_some hn hlast
  exact h.link_ne_start hB hz hb heq.symm

/-- It is not that of an allocated block, or of one of another core. -/
theorem Layout.lastLink_ne (hB : B.Valid) {c : Core} {p : ℕ} (hn : nodes c = n1 ++ p :: n2)
    {r' : Region} (hb : b ∈ tiles r') (hno : b.free = true → r'.core ≠ c) :
    lastLink n1 ≠ some (b.start + 1) := by
  intro hlast
  obtain ⟨r'', hr'', z, hz, hf, -, heq⟩ := h.lastLink_some hn hlast
  obtain ⟨rfl, rfl⟩ := h.eq_of_start hB hb hz (Nat.succ.inj heq)
  exact hno hf hr''

/-- The nodes without one of them. -/
theorem Layout.mem_unlinked {c : Core} {p q : ℕ} (hn : nodes c = n1 ++ q :: n2) :
    p ∈ n1 ++ n2 ↔ p ∈ nodes c ∧ p ≠ q := by
  have hnd := h.nodup c
  rw [hn] at hnd ⊢
  have hnot := (nodup_middle.mp hnd).notMem
  rw [mem_append, mem_append, mem_cons]
  constructor
  · intro hp
    exact ⟨hp.imp_right .inr, fun he => hnot (he ▸ mem_append.mpr hp)⟩
  · rintro ⟨hp | hp | hp, hne⟩
    · exact .inl hp
    · exact absurd hp hne
    · exact .inr hp

/-- A node taken out of the list of its core. -/
theorem Layout.unlink (hn : nodes r.core = n1 ++ b.addr :: n2)
    (hpm : ∀ r', r'.core = r.core → ∀ z ∈ tiles r', z.free = true → z.addr ≠ b.addr →
      pm' (z.start + 1) =
        if lastLink n1 = some (z.start + 1) then pm (b.start + 1) else pm (z.start + 1)) :
    Linked (nextOf pm') (if n1 = [] then pm (b.start + 1) else freelist r.core) (n1 ++ n2) := by
  have hnd := h.nodup r.core
  have hl := h.linked r.core
  rw [hn] at hnd hl
  have hz : ∀ p ∈ n1 ++ n2, ∃ r', r'.core = r.core ∧ ∃ z ∈ tiles r', z.free = true ∧
      p = z.addr ∧ z.addr ≠ b.addr := by
    intro p hp
    obtain ⟨hmem, hne⟩ := (h.mem_unlinked hn).mp hp
    obtain ⟨r', hr', z, hz, hf, rfl⟩ := h.free_of_mem_nodes hmem
    exact ⟨r', hr', z, hz, hf, rfl, hne⟩
  have hstart : nextOf pm b.addr = pm (b.start + 1) := nextOf_addr
  rw [← hstart]
  refine hl.unlink hnd (fun p hp hne => ?_) fun p hp => ?_
  · obtain ⟨r', hr', z, hz, hf, rfl, hzb⟩ := hz p hp
    rw [Block.addr, nextOf_addr, nextOf_addr, hpm r' hr' z hz hf hzb, if_neg]
    intro hlast
    obtain ⟨r'', hr'', z', hz', hf', hq, heq⟩ := h.lastLink_some hn hlast
    refine hne ?_
    rw [hq, Block.addr, Block.addr, Nat.succ.inj heq]
  · obtain ⟨r', hr', z, hz, hf, rfl, hzb⟩ :=
      hz p (mem_append_left _ (mem_of_getLast? hp))
    rw [hstart, Block.addr, nextOf_addr, hpm r' hr' z hz hf hzb, if_pos]
    rw [lastLink, hp, map_some, Block.addr, addr_div]

/-- A free block allocated as a whole. -/
theorem Layout.take (hB : B.Valid) (hr : tiles r = l₁ ++ b :: l₂) (hf : b.free = true)
    (hn : nodes r.core = n1 ++ b.addr :: n2)
    (hpm : ∀ i, pm' i = if i = b.start + 1 then magicWord else
      if lastLink n1 = some i then pm (b.start + 1) else pm i) :
    Layout B pm'
      (update freelist r.core (if n1 = [] then pm (b.start + 1) else freelist r.core))
      (update tiles r (l₁ ++ ([{ b with free := false }] ++ l₂)))
      (update nodes r.core (n1 ++ n2)) := by
  have hb : b ∈ tiles r := by rw [hr]; simp
  have hnd := h.nodup r.core
  rw [hn] at hnd
  have hlen : ∀ r', ∀ b' ∈ tiles r', pm' b'.start = pm b'.start := by
    intro r' b' hb'
    rw [hpm, if_neg (h.link_ne_start hB hb hb').symm, if_neg (h.lastLink_ne_start hB hn hb')]
  have hlink : ∀ r', ∀ b' ∈ tiles r', (r' = r → b' ≠ b) → pm' (b'.start + 1) =
      if lastLink n1 = some (b'.start + 1) then pm (b.start + 1) else pm (b'.start + 1) := by
    intro r' b' hb' hne
    have hsep := h.sep hB hb' hb hne
    unfold Block.stop nodeSize at hsep
    rw [hpm, if_neg (by omega)]
  refine h.change [b] hB hr (fun _ _ => ⟨rfl, rfl⟩) (h.splice [b] hr fun x y hxy => hxy)
    (fun b' hb' => ?_) (fun b' hb' _ => ?_) (fun r' b' hb' hne => ⟨hlen r' b' hb', fun hf' => ?_⟩)
    (fun c hc => ⟨update_of_ne hc .., fun p hp => ?_⟩) ?_ ?_ fun p => ?_
  · obtain rfl := mem_singleton.mp hb'
    exact (hlen r b hb).trans (h.length_eq r b hb)
  · obtain rfl := mem_singleton.mp hb'
    exact (hpm _).trans (if_pos rfl)
  · have hne : r' = r → b' ≠ b := fun he hbb => hne he (hbb ▸ mem_singleton_self _)
    rw [hlink r' b' hb' hne, if_neg (h.lastLink_ne hB hn hb' fun hbf => ?_)]
    rw [hf'] at hbf
    cases hbf
  · refine h.nextOf_eq hp fun r' hr' b' hb' _ _ => ?_
    rw [hlink r' b' hb' fun he => absurd (he ▸ hr'.symm) hc,
      if_neg (h.lastLink_ne hB hn hb' fun _ => hr'.symm ▸ hc)]
  · rw [update_self]
    exact h.unlink hn fun r' _ z hz _ hne => hlink r' z hz fun _ he => hne (he ▸ rfl)
  · exact (nodup_middle.mp hnd).of_cons
  · rw [h.mem_unlinked hn]
    constructor
    · rintro ⟨hp, hne⟩
      exact .inl ⟨hp, fun b' hb' _ => mem_singleton.mp hb' ▸ hne⟩
    · rintro (⟨hp, hno⟩ | ⟨b', hb', hf', -⟩)
      · exact ⟨hp, hno b (mem_singleton_self b) hf⟩
      · obtain rfl := mem_singleton.mp hb'
        cases hf'

end

variable (pm') in
/-- An allocated block put at the head of the list. -/
theorem Layout.push (h : Layout B pm freelist tiles nodes) (hB : B.Valid)
    (hr : tiles r = l₁ ++ b :: l₂) (hf : b.free = false)
    (hpm : ∀ i, pm' i = if i = b.start + 1 then freelist r.core else pm i) :
    Layout B pm' (update freelist r.core b.addr)
      (update tiles r (l₁ ++ ([{ b with free := true }] ++ l₂)))
      (update nodes r.core (b.addr :: nodes r.core)) := by
  have hb : b ∈ tiles r := by rw [hr]; simp
  have hfar : ∀ r', ∀ b' ∈ tiles r', (r' = r → b' ≠ b) → ∀ i, (i = b'.start ∨ i = b'.start + 1) →
      pm' i = pm i := by
    intro r' b' hb' hne i hi
    have hsep := h.sep hB hb' hb hne
    unfold Block.stop nodeSize at hsep
    rw [hpm, if_neg (by omega)]
  have hne_free : ∀ b' : Block, b'.free = true → b' ≠ b := fun b' hf' he => by
    rw [he, hf] at hf'
    cases hf'
  have hlink : ∀ c, ∀ p ∈ nodes c, nextOf pm' p = nextOf pm p := fun c p hp =>
    h.nextOf_eq hp fun r' _ b' hb' hf' _ => hfar r' b' hb' (fun _ => hne_free b' hf') _ (.inr rfl)
  refine h.change [b] hB hr (fun _ _ => ⟨rfl, rfl⟩) (h.splice [b] hr fun x y hxy => hxy)
    (fun b' hb' => ?_) (fun b' hb' hf' => ?_) (fun r' b' hb' hne => ?_)
    (fun c hc => ⟨update_of_ne hc .., hlink c⟩) ?_ ?_ fun p => ?_
  · obtain rfl := mem_singleton.mp hb'
    rw [hpm, if_neg (Nat.succ_ne_self _).symm]
    exact h.length_eq r b hb
  · obtain rfl := mem_singleton.mp hb'
    cases hf'
  · have hne : r' = r → b' ≠ b := fun he hbb => hne he (hbb ▸ mem_singleton_self _)
    exact ⟨hfar r' b' hb' hne _ (.inl rfl), fun _ => hfar r' b' hb' hne _ (.inr rfl)⟩
  · rw [update_self]
    refine ⟨rfl, h.addr_ne_zero hB hb, ?_⟩
    rw [Block.addr, nextOf_addr, hpm, if_pos rfl]
    exact (h.linked _).congr (hlink _)
  · refine nodup_cons.mpr ⟨fun hmem => ?_, h.nodup _⟩
    obtain ⟨r', -, b', hb', hf', heq⟩ := h.free_of_mem_nodes hmem
    obtain ⟨-, he⟩ := h.eq_of_start hB hb' hb (addr_inj heq).symm
    exact hne_free b' hf' he
  · constructor
    · intro hp
      rcases mem_cons.mp hp with rfl | hp
      · exact .inr ⟨_, mem_singleton_self _, rfl, rfl⟩
      · refine .inl ⟨hp, fun b' hb' hf' => ?_⟩
        obtain rfl := mem_singleton.mp hb'
        rw [hf] at hf'
        cases hf'
    · rintro (⟨hp, -⟩ | ⟨b', hb', -, rfl⟩)
      · exact mem_cons_of_mem _ hp
      · obtain rfl := mem_singleton.mp hb'
        exact mem_cons_self

/-- The cover of a block joined with the one after it. -/
theorem tiles_joined {u v : ℕ} (h : Tiles Block.start Block.stop u [x, y] v) :
    Tiles Block.start Block.stop u [⟨x.start, x.length + (y.length + nodeSize), true⟩] v := by
  obtain ⟨hs, -, hy, -, hv⟩ := h
  have hv : y.stop = v := hv
  refine ⟨hs, Block.start_lt_stop _, ?_⟩
  change Block.stop _ = v
  unfold Block.stop at *
  dsimp only
  omega

variable (pm') in
/-- An allocated block made part of the free one before it. -/
theorem Layout.absorb (h : Layout B pm freelist tiles nodes) (hB : B.Valid)
    (hr : tiles r = l₁ ++ x :: b :: l₂) (hx : x.free = true) (hf : b.free = false)
    (hpm : ∀ i, i ≠ b.start + 1 →
      pm' i = if i = x.start then x.length + (b.length + nodeSize) else pm i) :
    Layout B pm' freelist
      (update tiles r (l₁ ++
        ([⟨x.start, x.length + (b.length + nodeSize), true⟩] ++ l₂))) nodes := by
  have hxm : x ∈ tiles r := by rw [hr]; simp
  have hbm : b ∈ tiles r := by rw [hr]; simp
  have hxb : x ≠ b := fun he => by
    rw [he, hf] at hx
    cases hx
  have hfar : ∀ r', ∀ b' ∈ tiles r', (r' = r → b' ≠ x) → (r' = r → b' ≠ b) →
      ∀ i, (i = b'.start ∨ i = b'.start + 1) → pm' i = pm i := by
    intro r' b' hb' hne hne' i hi
    have hsep := h.sep hB hb' hxm hne
    have hsep' := h.sep hB hb' hbm hne'
    unfold Block.stop nodeSize at hsep hsep'
    rw [hpm i (by omega), if_neg (by omega)]
  have hxlink : pm' (x.start + 1) = pm (x.start + 1) := by
    have hsep := h.sep hB hxm hbm fun _ => hxb
    unfold Block.stop nodeSize at hsep
    rw [hpm _ (by omega), if_neg (Nat.succ_ne_self _)]
  have hlink : ∀ c, ∀ p ∈ nodes c, nextOf pm' p = nextOf pm p := by
    refine fun c p hp => h.nextOf_eq hp fun r' _ b' hb' hf' _ => ?_
    have hne' : b' ≠ b := fun he => by
      rw [he, hf] at hf'
      cases hf'
    by_cases he : r' = r ∧ b' = x
    · rw [he.2]
      exact hxlink
    · exact hfar r' b' hb' (fun h1 h2 => he ⟨h1, h2⟩) (fun _ => hne') _ (.inr rfl)
  have hnodes : nodes = update nodes r.core (nodes r.core) := by simp
  rw [hnodes]
  refine h.change [x, b] hB hr (fun _ _ => ⟨rfl, rfl⟩) (h.splice [x, b] hr
    fun u v huv => tiles_joined huv) (fun b' hb' => ?_) (fun b' hb' hf' => ?_)
    (fun r' b' hb' hne => ?_) (fun c _ => ⟨rfl, hlink c⟩) ((h.linked _).congr (hlink _)) (h.nodup _)
    fun p => ?_
  · obtain rfl := mem_singleton.mp hb'
    have hsep := h.sep hB hxm hbm fun _ => hxb
    unfold Block.stop nodeSize at hsep
    exact (hpm _ (by dsimp only; omega)).trans (if_pos rfl)
  · obtain rfl := mem_singleton.mp hb'
    cases hf'
  · have hne1 : r' = r → b' ≠ x := fun he hbb => hne he (by simp [hbb])
    have hne2 : r' = r → b' ≠ b := fun he hbb => hne he (by simp [hbb])
    exact ⟨hfar r' b' hb' hne1 hne2 _ (.inl rfl), fun _ => hfar r' b' hb' hne1 hne2 _ (.inr rfl)⟩
  · constructor
    · intro hp
      by_cases hpx : p = x.addr
      · exact .inr ⟨_, mem_singleton_self _, rfl, hpx⟩
      · refine .inl ⟨hp, fun b' hb' hf' => ?_⟩
        rcases mem_cons.mp hb' with rfl | hb'
        · exact hpx
        · obtain rfl := mem_singleton.mp hb'
          rw [hf] at hf'
          cases hf'
    · rintro (⟨hp, -⟩ | ⟨b', hb', -, rfl⟩)
      · exact hp
      · obtain rfl := mem_singleton.mp hb'
        exact (h.addr_mem_nodes hxm hx : x.addr ∈ _)

/-- Two adjacent free blocks joined. -/
theorem Layout.join (h : Layout B pm freelist tiles nodes) (hB : B.Valid)
    (hr : tiles r = l₁ ++ x :: y :: l₂) (hx : x.free = true) (hy : y.free = true)
    (hn : nodes r.core = n1 ++ y.addr :: n2)
    (hpm : ∀ i, pm' i = if lastLink n1 = some i then pm (y.start + 1) else
      if i = x.start then x.length + (y.length + nodeSize) else pm i) :
    Layout B pm'
      (update freelist r.core (if n1 = [] then pm (y.start + 1) else freelist r.core))
      (update tiles r (l₁ ++
        ([⟨x.start, x.length + (y.length + nodeSize), true⟩] ++ l₂)))
      (update nodes r.core (n1 ++ n2)) := by
  have hxm : x ∈ tiles r := by rw [hr]; simp
  have hym : y ∈ tiles r := by rw [hr]; simp
  have hxy : x.stop ≤ y.start := by
    have hp := (h.tiled r).pairwise
    rw [hr, pairwise_append, pairwise_cons] at hp
    exact hp.2.1.1 y mem_cons_self
  have hnd := h.nodup r.core
  rw [hn] at hnd
  have hlen : ∀ r', ∀ b' ∈ tiles r', (r' = r → b' ≠ x) → pm' b'.start = pm b'.start := by
    intro r' b' hb' hne
    have hsep := h.sep hB hb' hxm hne
    unfold Block.stop nodeSize at hsep
    rw [hpm, if_neg (h.lastLink_ne_start hB hn hb'), if_neg (by omega)]
  have hlink : ∀ r', ∀ b' ∈ tiles r', pm' (b'.start + 1) =
      if lastLink n1 = some (b'.start + 1) then pm (y.start + 1) else pm (b'.start + 1) := by
    intro r' b' hb'
    rw [hpm, if_neg (h.link_ne_start hB hb' hxm)]
  refine h.change [x, y] hB hr (fun _ _ => ⟨rfl, rfl⟩) (h.splice [x, y] hr
    fun u v huv => tiles_joined huv) (fun b' hb' => ?_) (fun b' hb' hf' => ?_)
    (fun r' b' hb' hne => ?_) (fun c hc => ⟨update_of_ne hc .., fun p hp => ?_⟩) ?_ ?_ fun p => ?_
  · obtain rfl := mem_singleton.mp hb'
    exact (hpm _).trans ((if_neg (h.lastLink_ne_start hB hn hxm)).trans (if_pos rfl))
  · obtain rfl := mem_singleton.mp hb'
    cases hf'
  · have hne1 : r' = r → b' ≠ x := fun he hbb => hne he (by simp [hbb])
    refine ⟨hlen r' b' hb' hne1, fun hf' => ?_⟩
    rw [hlink r' b' hb', if_neg (h.lastLink_ne hB hn hb' fun hbf => ?_)]
    rw [hf'] at hbf
    cases hbf
  · refine h.nextOf_eq hp fun r' hr' b' hb' _ _ => ?_
    rw [hlink r' b' hb', if_neg (h.lastLink_ne hB hn hb' fun _ => hr'.symm ▸ hc)]
  · rw [update_self]
    exact h.unlink hn fun r' _ z hz _ _ => hlink r' z hz
  · exact (nodup_middle.mp hnd).of_cons
  · rw [h.mem_unlinked hn]
    constructor
    · rintro ⟨hp, hne⟩
      by_cases hpx : p = x.addr
      · exact .inr ⟨_, mem_singleton_self _, rfl, hpx⟩
      · refine .inl ⟨hp, fun b' hb' _ => ?_⟩
        rcases mem_cons.mp hb' with rfl | hb'
        · exact hpx
        · exact mem_singleton.mp hb' ▸ hne
    · rintro (⟨hp, hno⟩ | ⟨b', hb', -, rfl⟩)
      · exact ⟨hp, hno y (by simp) hy⟩
      · obtain rfl := mem_singleton.mp hb'
        refine ⟨(h.addr_mem_nodes hxm hx : x.addr ∈ _), fun he => ?_⟩
        have heq := addr_inj he
        unfold Block.stop nodeSize at hxy
        dsimp only at heq
        omega

end Changes

end Mh40.MallocPm
