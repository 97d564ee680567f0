import Mh40.Lib.Run
import Mh40.MallocPm.Initial

/-!
# The program memory heap over whole runs

The owners of blocks are recorded beside the heap, with the sizes that they asked for. Calls
allocate and release, and owners write to their blocks.

* `Legal`: only live blocks and `NULL` are released, and owners write to their own blocks.
* `Allowed`: the size can be rounded up, and `NULL` is not released.
* `Sound`: the blocks tile the heaps and none is lost. `Right`: what a call returns, and that it
  leaves the registers as they were.
* `heap_sound`: every legal run of allowed calls is sound and right.
-/

namespace Mh40.MallocPm

open Lib List Function

/-- A block that its owner has not released, with the size in bytes that was asked for. -/
structure Live where
  ptr : ℕ
  size : ℕ
  core : Core
deriving DecidableEq, Repr

/-- The heap, and the blocks that have owners. -/
structure State where
  heap : PmHeap
  live : List Live

/-- What the users of the heap do. -/
inductive Call
  | heapAllocPm (sizeByte : BitVec 32) (preferenceCore : ℕ)
  | heapFreePm (ptr : ℕ)
  /-- An owner writes a word. -/
  | store (word value : ℕ)
deriving DecidableEq, Repr

/-- A list of free blocks is shorter than this. -/
def Config.fuel (c : Config) : ℕ := c.chip.pmRamEndAddress

/-- `none` is a panic. -/
def step (c : Config) (s : State) : Call → Option State
  | .heapAllocPm sizeByte preferenceCore =>
    (heapAllocPm c.chip c.fuel s.heap sizeByte.toNat preferenceCore).map fun (ptr, h) =>
      ⟨h, if ptr = 0 then s.live else ⟨ptr, sizeByte.toNat, coreOf preferenceCore⟩ :: s.live⟩
  | .heapFreePm ptr =>
    (heapFreePm c.chip c.fuel s.heap ptr).map fun h => ⟨h, s.live.filter (·.ptr ≠ ptr)⟩
  | .store word value =>
    let pm := Function.update s.heap.pm word value
    some ⟨{ s.heap with pm := pm }, s.live⟩

/-- The heaps as they are set up, with whatever is in memory. -/
def initial (c : Config) (pm : ℕ → ℕ) (pmwinEnable blockCount : ℕ) : State :=
  ⟨initHeapPm c pm pmwinEnable blockCount, []⟩

/-- What the users may do. -/
def Legal (s : State) : Call → Prop
  | .heapAllocPm _ _ => True
  | .heapFreePm ptr => ptr = 0 ∨ ∃ l ∈ s.live, l.ptr = ptr
  | .store word _ =>
    ∃ l ∈ s.live, l.ptr ≤ word * pcPerInstruction ∧ word * pcPerInstruction < l.ptr + l.size

instance (s : State) : DecidablePred (Legal s)
  | .heapAllocPm _ _ => inferInstanceAs (Decidable True)
  | .heapFreePm _ => inferInstanceAs (Decidable (_ ∨ _))
  | .store _ _ => inferInstanceAs (Decidable (∃ l ∈ s.live, _))

/-- The calls that the heap is right about: the rounded size does not wrap around to 0, or there is
no free block; and what is released is not `NULL`. -/
def Allowed (s : State) : Call → Prop
  | .heapAllocPm sizeByte preferenceCore =>
    sizeByte = 0 ∨ roundUp sizeByte.toNat ≠ 0 ∨ s.heap.freelist (coreOf preferenceCore) = 0
  | .heapFreePm ptr => ptr ≠ 0
  | .store _ _ => True

instance (s : State) : DecidablePred (Allowed s)
  | .heapAllocPm _ _ => inferInstanceAs (Decidable (_ ∨ _ ∨ _))
  | .heapFreePm _ => inferInstanceAs (Decidable (_ ≠ _))
  | .store _ _ => inferInstanceAs (Decidable True)

/-! ## What the heap is for -/

/-- The allocated blocks and their owners. -/
structure Ledger (tiles : Region → List Block) (live : List Live) : Prop where
  owned : ∀ l ∈ live, ∃ r, r.core = l.core ∧ ∃ b ∈ tiles r, b.free = false ∧ l.ptr = b.ptr ∧
    l.size ≤ b.length * pcPerInstruction
  used : ∀ r, ∀ b ∈ tiles r, b.free = false → ∃ l ∈ live, l.ptr = b.ptr
  distinct : live.Pairwise fun l l' => l.ptr ≠ l'.ptr

/-- One free block for each heap that is not empty. -/
def Config.initialTiles (c : Config) (r : Region) : List Block :=
  if c.bounds.lo r < c.bounds.hi r then
    [⟨c.bounds.lo r, c.bounds.hi r - c.bounds.lo r - nodeSize, true⟩]
  else []

/-- What holds between two calls. -/
structure Sound (c : Config) (s : State) : Prop where
  /-- The blocks tile the heaps, no two adjacent ones are free, the free ones are those of the
  lists and the others have owners. -/
  tiled : ∃ tiles nodes, Layout c.bounds s.heap.pm s.heap.freelist tiles nodes ∧
    (∀ r, (tiles r).IsChain NotBothFree) ∧ Ledger tiles s.live ∧
    (s.live = [] → tiles = c.initialTiles)
  apart : s.live.Pairwise fun l l' => l.ptr + l.size ≤ l'.ptr ∨ l'.ptr + l'.size ≤ l.ptr
  inside : ∀ l ∈ s.live, ∃ r, r.core = l.core ∧ c.bounds.lo r * pcPerInstruction ≤ l.ptr ∧
    l.ptr + l.size ≤ c.bounds.hi r * pcPerInstruction
  vars : Vars c s.heap
  varsAbove : VarsAbove c s.heap

/-- The answer to an allocation: `NULL` exactly when no free block of the core is long enough. A
request for no bytes is answered with `NULL`, and does nothing. -/
def Answers (c : Config) (s : State) : Call → Prop
  | .heapAllocPm sizeByte preferenceCore => ∃ ptr h nodes,
    heapAllocPm c.chip c.fuel s.heap sizeByte.toNat preferenceCore = some (ptr, h) ∧
    Linked (nextOf s.heap.pm) (s.heap.freelist (coreOf preferenceCore)) nodes ∧
    if sizeByte = 0 then ptr = 0 ∧ h = s.heap
    else ptr = 0 ↔ ∀ p ∈ nodes, lengthAt s.heap.pm p * pcPerInstruction < sizeByte.toNat
  | .heapFreePm _ => True
  | .store _ _ => True

/-- A call does not panic, leaves the count of blocked interrupts and the window as they were, and
answers rightly. -/
def Right (c : Config) (s : State) (call : Call) : Prop :=
  Answers c s call ∧ ∃ s', step c s call = some s' ∧
    s'.heap.blockCount = s.heap.blockCount ∧ s'.heap.pmwinEnable = s.heap.pmwinEnable

/-! ## The invariant -/

/-- What every step keeps. -/
structure Inv (c : Config) (s : State) (tiles : Region → List Block) (nodes : Core → List ℕ) :
    Prop where
  layout : Layout c.bounds s.heap.pm s.heap.freelist tiles nodes
  chain : ∀ r, (tiles r).IsChain NotBothFree
  ledger : Ledger tiles s.live
  vars : Vars c s.heap
  varsAbove : VarsAbove c s.heap

section Invariant

variable {c : Config} {s : State} {tiles : Region → List Block} {nodes : Core → List ℕ} {r : Region}
  {core : Core}

theorem Heaps.boundsValid (hc : Heaps c) : c.bounds.Valid := hc.valid fun _ => .inl rfl

theorem fuel_pos (hc : Heaps c) : 0 < c.fuel := by
  have hpos := hc.pos
  have hle := hc.le .p0
  have hend := hc.hi_le .p0
  unfold Config.fuel
  unfold pcPerInstruction at hend
  omega

/-- Without owners every block is free, and two free blocks would be adjacent. -/
theorem Inv.restored (h : Inv c s tiles nodes) (hlive : s.live = []) : tiles = c.initialTiles := by
  funext r
  have hfree : ∀ b ∈ tiles r, b.free = true := by
    intro b hb
    cases hf : b.free with
    | true => rfl
    | false =>
      obtain ⟨l, hl, -⟩ := h.ledger.used r b hb hf
      rw [hlive] at hl
      cases hl
  have ht := h.layout.tiled r
  have hchain := h.chain r
  unfold Config.initialTiles
  cases htiles : tiles r with
  | nil =>
    rw [htiles] at ht
    have heq : c.bounds.lo r = c.bounds.hi r := ht
    rw [if_neg (by omega)]
  | cons b l =>
    rw [htiles] at ht hchain hfree
    cases l with
    | nil =>
      obtain ⟨hstart, hlt, hstop⟩ := ht
      have hstop : b.stop = c.bounds.hi r := hstop
      have hbf := hfree b mem_cons_self
      obtain ⟨start, length, free⟩ := b
      unfold Block.stop nodeSize at hstop
      dsimp only at hstart hstop hbf
      rw [if_pos (by omega), ← hstart, hbf]
      congr
      unfold nodeSize
      omega
    | cons b' l =>
      have hbb := (isChain_cons_cons.mp hchain).1
      exact absurd ⟨hfree b mem_cons_self,
        hfree b' (mem_cons_of_mem b mem_cons_self)⟩ hbb

theorem Inv.sound (hc : Heaps c) (h : Inv c s tiles nodes) : Sound c s := by
  refine ⟨⟨tiles, nodes, h.layout, h.chain, h.ledger, h.restored⟩, ?_, fun l hl => ?_, h.vars,
    h.varsAbove⟩
  · refine h.ledger.distinct.imp_of_mem fun {l l'} hl hl' hne => ?_
    obtain ⟨r, -, b, hb, -, hp, hs⟩ := h.ledger.owned l hl
    obtain ⟨r', -, b', hb', -, hp', hs'⟩ := h.ledger.owned l' hl'
    have hapart := h.layout.apart hc.boundsValid hb hb'
    have hbb : ¬ (r = r' ∧ b = b') := fun he => hne (by rw [hp, hp', he.2])
    have hapart := hapart.resolve_left hbb
    rw [hp, hp']
    unfold Block.stop Block.ptr nodeSize pcPerInstruction at *
    omega
  · obtain ⟨r, hr, b, hb, -, hp, hs⟩ := h.ledger.owned l hl
    have hmem := (h.layout.tiled r).mem hb
    refine ⟨r, hr, ?_⟩
    rw [hp]
    unfold Block.stop Block.ptr nodeSize pcPerInstruction at *
    omega

/-! ## Steps -/

/-- The initial state. -/
theorem inv_initial (hreg : c.Regular) (pm : ℕ → ℕ) (pmwinEnable blockCount : ℕ) :
    ∃ tiles nodes, Inv c (initial c pm pmwinEnable blockCount) tiles nodes := by
  obtain ⟨⟨tiles, nodes, hL, hone⟩, hv, hv'⟩ := init_spec hreg pm pmwinEnable blockCount
  refine ⟨tiles, nodes, hL, fun r => ?_, ⟨fun l hl => absurd hl not_mem_nil,
    fun r b hb hf => ?_, .nil⟩, hv, hv'⟩
  · rcases hone r with hnil | ⟨b, hb, -⟩
    · rw [hnil]
      exact .nil
    · rw [hb]
      exact .singleton b
  · rcases hone r with hnil | ⟨b', hb', hf'⟩
    · rw [hnil] at hb
      cases hb
    · rw [hb'] at hb
      obtain rfl := mem_singleton.mp hb
      rw [hf] at hf'
      cases hf'

/-- The search starts with the size of the longest heap of the core. -/
theorem le_bestSize (hc : Heaps c) (hv : Vars c s.heap) (hv' : VarsAbove c s.heap)
    (hr : c.bounds.lo r < c.bounds.hi r) :
    c.bounds.hi r - c.bounds.lo r ≤ s.heap.bestSize c.chip r.core := by
  have hsize : ∀ r, heapSize (c.bounds.lo r * pcPerInstruction) (c.bounds.hi r * pcPerInstruction) =
      c.bounds.hi r - c.bounds.lo r := fun r =>
    heapSize_eq (hc.le r) (Nat.lt_of_le_of_lt (hc.hi_le r) c.chip.end_lt)
  cases r with
  | p0 =>
    change _ ≤ heapSize s.heap.heapPmStart s.heap.heapPmEnd
    rw [hv.heapPmStart, hv.heapPmEnd, hsize]
  | p1 =>
    unfold PmHeap.bestSize Region.core
    dsimp only
    rw [hv.heapPmP1Start, hv.heapPmP1End, hsize]
    split_ifs
    · exact Nat.le_max_left ..
    · exact Nat.le_refl _
  | above =>
    have hu := (above_eq hr).1
    unfold PmHeap.bestSize Region.core
    dsimp only
    rw [if_pos hu, hv'.addnlHeapPmP1Start, hv'.addnlHeapPmP1End, hsize .above]
    exact Nat.le_max_right ..

/-- A word of a block is found in the heap of its core, and in no other. -/
theorem coreOfPtr_eq (hc : Heaps c) (hv : Vars c s.heap) {w : ℕ} (hlt : c.bounds.lo r < w)
    (hle : w ≤ c.bounds.hi r) :
    s.heap.coreOfPtr c.chip (w * pcPerInstruction) = some r.core := by
  have hlt' : c.bounds.lo r < c.bounds.hi r := Nat.lt_of_lt_of_le hlt hle
  have hin0 : s.heap.IsInP0 (w * pcPerInstruction) ↔ c.bounds.lo .p0 ≤ w ∧
      w ≤ c.bounds.hi .p0 := by
    unfold PmHeap.IsInP0 pcPerInstruction
    rw [hv.heapPmStart, hv.heapPmEnd]
    unfold pcPerInstruction
    omega
  have hin1 : c.bounds.lo .p1 ≤ w ∧ w ≤ c.bounds.hi .p1 →
      s.heap.IsInP1 c.chip (w * pcPerInstruction) := by
    unfold PmHeap.IsInP1 pcPerInstruction
    rw [hv.heapPmP1Start, hv.heapPmP1End]
    unfold pcPerInstruction
    omega
  unfold PmHeap.coreOfPtr
  cases r with
  | p0 => exact if_pos (hin0.mpr (by omega))
  | p1 =>
    have hp0 := hc.p0_le_p1 hlt'
    rw [if_neg (mt hin0.mp (by omega)), if_pos (hin1 (by omega))]
    rfl
  | above =>
    have hp0 := hc.p0_le_above hlt'
    obtain ⟨hu, hstart, hend⟩ := above_eq hlt'
    have hin2 : s.heap.IsInP1 c.chip (w * pcPerInstruction) := by
      unfold pcPerInstruction at *
      exact .inr ⟨hu, by omega, by omega⟩
    rw [if_neg (mt hin0.mp (by omega)), if_pos hin2]
    rfl

theorem isIn_of_coreOfPtr {chip : Chip} {h : PmHeap} {addr : ℕ}
    (hcore : h.coreOfPtr chip addr = some core) : h.IsInP0 addr ∨ h.IsInP1 chip addr := by
  unfold PmHeap.coreOfPtr at hcore
  split_ifs at hcore with h1 h2
  · exact .inl h1
  · exact .inr h2

/-- The words that a size needs. -/
theorem roundUp_spec {size : ℕ} (hlt : size < 2 ^ 32) (h0 : roundUp size ≠ 0) :
    ∀ n, n < bytesIntoPm32 (roundUp size) ↔ n * pcPerInstruction < size := by
  intro n
  unfold bytesIntoPm32
  unfold roundUp pcPerInstruction at *
  split_ifs at h0 ⊢ with hm
  · omega
  · omega

/-- A new block has an owner, whose block it is alone. -/
theorem Ledger.alloc {h' : PmHeap} {size n p : ℕ} {l₁ l₂ pre : List Block} {b a : Block}
    (hB : c.bounds.Valid) (h : Ledger tiles s.live)
    (ha : Allocated c.bounds tiles core n p h' r l₁ l₂ b a pre)
    (hsize : size ≤ n * pcPerInstruction) :
    Ledger (update tiles r (l₁ ++ (pre ++ [a] ++ l₂))) (⟨p, size, core⟩ :: s.live) := by
  obtain ⟨nodes', hL'⟩ := ha.layout
  have hself : a ∈ update tiles r (l₁ ++ (pre ++ [a] ++ l₂)) r := by
    rw [update_self]
    simp
  have hpre : ∀ z ∈ pre, z.free = true := by
    intro z hz
    rcases ha.pre_eq with hnil | ⟨f, hf, hff⟩
    · rw [hnil] at hz
      cases hz
    · rw [hf] at hz
      obtain rfl := mem_singleton.mp hz
      exact hff
  -- the allocated blocks are those that were, and the new one
  have hold : ∀ r' z, z.free = false → z ∈ tiles r' →
      z ∈ update tiles r (l₁ ++ (pre ++ [a] ++ l₂)) r' := by
    intro r' z hzf hz
    by_cases he : r' = r
    · subst he
      rw [ha.tiles_eq] at hz
      rw [update_self]
      rcases mem_append.mp hz with hz | hz
      · exact mem_append_left _ hz
      · rcases mem_cons.mp hz with rfl | hz
        · have := ha.was_free
          rw [hzf] at this
          cases this
        · exact mem_append_right _ (mem_append_right _ hz)
    · rwa [update_of_ne he]
  have hnew : ∀ r' z, z.free = false →
      z ∈ update tiles r (l₁ ++ (pre ++ [a] ++ l₂)) r' → z = a ∨ z ∈ tiles r' := by
    intro r' z hzf hz
    by_cases he : r' = r
    · subst he
      rw [update_self] at hz
      rw [ha.tiles_eq]
      simp only [mem_append, mem_cons, not_mem_nil, or_false] at hz ⊢
      rcases hz with hz | (hz | hz) | hz
      · exact .inr (.inl hz)
      · rw [hpre z hz] at hzf
        cases hzf
      · exact .inl hz
      · exact .inr (.inr (.inr hz))
    · rw [update_of_ne he] at hz
      exact .inr hz
  -- the new one is none of those that were
  have hfresh : ∀ r' z, z.free = false → z ∈ tiles r' → z.start ≠ a.start := by
    intro r' z hzf hz heq
    obtain ⟨rfl, rfl⟩ := hL'.eq_of_start hB (hold r' z hzf hz) hself heq
    rw [ha.tiles_eq] at hz
    have hp := (hL'.tiled r').pairwise
    rw [update_self] at hp
    have hlt := z.start_lt_stop
    rw [pairwise_append, append_assoc, pairwise_append, singleton_append,
      pairwise_cons] at hp
    rcases mem_append.mp hz with hz | hz
    · have := hp.2.2 z hz z (by simp)
      omega
    · rcases mem_cons.mp hz with rfl | hz
      · have := ha.was_free
        rw [hzf] at this
        cases this
      · have := hp.2.1.2.1.1 z hz
        omega
  refine ⟨fun l hl => ?_, fun r' z hz hzf => ?_, pairwise_cons.mpr ⟨fun l hl => ?_, h.distinct⟩⟩
  · rcases mem_cons.mp hl with rfl | hl
    · exact ⟨r, ha.region, a, hself, ha.used, ha.ptr,
        Nat.le_trans hsize (Nat.mul_le_mul_right _ ha.long)⟩
    · obtain ⟨r', hr', z, hz, hzf, hrest⟩ := h.owned l hl
      exact ⟨r', hr', z, hold r' z hzf hz, hzf, hrest⟩
  · rcases hnew r' z hzf hz with rfl | hz
    · exact ⟨_, mem_cons_self, ha.ptr⟩
    · obtain ⟨l, hl, hlp⟩ := h.used r' z hz hzf
      exact ⟨l, mem_cons_of_mem _ hl, hlp⟩
  · obtain ⟨r', -, z, hz, hzf, hzp, -⟩ := h.owned l hl
    rw [hzp]
    change p ≠ _
    rw [ha.ptr]
    exact fun he => hfresh r' z hzf hz (Nat.add_right_cancel (addr_inj he)).symm

/-- Two adjacent blocks are still not both free. -/
theorem Allocated.chain {h' : PmHeap} {n p : ℕ} {l₁ l₂ pre : List Block} {b a : Block}
    (ha : Allocated c.bounds tiles core n p h' r l₁ l₂ b a pre)
    (h : ∀ r, (tiles r).IsChain NotBothFree) (r' : Region) :
    (update tiles r (l₁ ++ (pre ++ [a] ++ l₂)) r').IsChain NotBothFree := by
  by_cases he : r' = r
  · subst he
    rw [update_self]
    have hr := h r'
    rw [ha.tiles_eq, isChain_split] at hr
    have ha2 : (a :: l₂).IsChain NotBothFree := by
      rw [isChain_cons] at hr ⊢
      exact ⟨fun z _ => notBoth_of_left ha.used, hr.2.2⟩
    rcases ha.pre_eq with hnil | ⟨f, hf, hff⟩
    · rw [hnil, nil_append, singleton_append, isChain_split]
      refine ⟨?_, ha2⟩
      have hl1 := hr.1
      rw [isChain_append] at hl1 ⊢
      refine ⟨hl1.1, .singleton a, fun x _ y hy => ?_⟩
      obtain rfl : a = y := by simpa using hy
      exact notBoth_of_right ha.used
    · have hpre : l₁ ++ (pre ++ [a] ++ l₂) = l₁ ++ f :: a :: l₂ := by
        rw [hf]
        rfl
      rw [hpre, isChain_split, isChain_cons_cons]
      exact ⟨isChain_congr_last (ha.was_free.trans hff.symm) hr.1,
        notBoth_of_right ha.used, ha2⟩
  · rw [update_of_ne he]
    exact h r'

/-- What an allocation does. -/
theorem Inv.alloc (hc : Heaps c) (h : Inv c s tiles nodes) {sizeByte : BitVec 32} {core : ℕ}
    (hallowed : Allowed s (.heapAllocPm sizeByte core)) :
    Answers c s (.heapAllocPm sizeByte core) ∧
      ∃ s', step c s (.heapAllocPm sizeByte core) = some s' ∧ Same s.heap s'.heap ∧
        ∃ tiles' nodes', Inv c s' tiles' nodes' := by
  have hlinked := h.layout.linked (coreOf core)
  by_cases h0 : sizeByte = 0
  · have halloc : heapAllocPm c.chip c.fuel s.heap sizeByte.toNat core = some (0, s.heap) := by
      rw [h0]
      rfl
    refine ⟨⟨0, s.heap, _, halloc, hlinked, ?_⟩, s, ?_,
      ⟨rfl, rfl, rfl, rfl, rfl, rfl, rfl, rfl⟩, tiles, nodes, h⟩
    · rw [if_pos h0]
      exact ⟨rfl, rfl⟩
    · unfold step
      dsimp only
      rw [halloc]
      rfl
  · have hne : sizeByte.toNat ≠ 0 := fun he => h0 (BitVec.eq_of_toNat_eq he)
    obtain ⟨p, h', halloc, hout⟩ := alloc_spec (roundUp sizeByte.toNat)
      (s.heap.bestSize c.chip (coreOf core)) h.layout hc.boundsValid
      (h.layout.nodes_length hc.boundsValid (fuel_pos hc) hc.hi_le (coreOf core))
      fun r hr hlt => hr ▸ le_bestSize hc h.vars h.varsAbove hlt
    have halloc : heapAllocPm c.chip c.fuel s.heap sizeByte.toNat core = some (p, h') := by
      unfold heapAllocPm
      rw [if_neg hne]
      exact halloc
    have hround : ∀ q ∈ nodes (coreOf core), roundUp sizeByte.toNat ≠ 0 := by
      intro q hq
      rcases hallowed with he | hround | hempty
      · exact absurd he h0
      · exact hround
      · rw [hempty] at hlinked
        rw [hlinked.functional (show Linked _ 0 [] from rfl)] at hq
        cases hq
    refine ⟨⟨p, h', _, halloc, hlinked, ?_⟩,
      ⟨h', if p = 0 then s.live else ⟨p, sizeByte.toNat, coreOf core⟩ :: s.live⟩, ?_,
      hout.same, ?_⟩
    · rw [if_neg h0, hout.null_iff]
      exact forall₂_congr fun q hq => roundUp_spec sizeByte.isLt (hround q hq) _
    · unfold step
      dsimp only
      rw [halloc]
      rfl
    · by_cases hp : p = 0
      · obtain ⟨hpm, hfree⟩ := hout.failed hp
        rw [if_pos hp]
        exact ⟨tiles, nodes, h.layout.of_eq hpm hfree, h.chain, h.ledger,
          h.vars.of_same hout.same, h.varsAbove.of_same hout.same⟩
      · obtain ⟨r, l₁, l₂, b, a, pre, ha⟩ := hout.done hp
        rw [if_neg hp]
        obtain ⟨nodes', hL'⟩ := ha.layout
        have hfits : ∃ q ∈ nodes (coreOf core), ¬ lengthAt s.heap.pm q <
            bytesIntoPm32 (roundUp sizeByte.toNat) := by
          have := mt hout.null_iff.mpr hp
          push Not at this
          simpa using this
        obtain ⟨q, hq, -⟩ := hfits
        have hsize := mt (roundUp_spec sizeByte.isLt (hround q hq) _).mpr (Nat.lt_irrefl _)
        exact ⟨_, nodes', hL', ha.chain h.chain,
          h.ledger.alloc hc.boundsValid ha (Nat.not_lt.mp hsize),
          h.vars.of_same hout.same, h.varsAbove.of_same hout.same⟩

/-- What a release does. -/
theorem Inv.free (hc : Heaps c) (h : Inv c s tiles nodes) {ptr : ℕ}
    (hlegal : Legal s (.heapFreePm ptr)) (hallowed : Allowed s (.heapFreePm ptr)) :
    ∃ s', step c s (.heapFreePm ptr) = some s' ∧ Same s.heap s'.heap ∧
      ∃ tiles' nodes', Inv c s' tiles' nodes' := by
  obtain ⟨l, hl, rfl⟩ := hlegal.resolve_left hallowed
  obtain ⟨r, -, b, hb, hf, hp, -⟩ := h.ledger.owned l hl
  have hmem := (h.layout.tiled r).mem hb
  have hlt : c.bounds.lo r < b.start + nodeSize := by
    unfold nodeSize
    omega
  have hle : b.start + nodeSize ≤ b.stop := by
    unfold Block.stop
    omega
  have hcore := coreOfPtr_eq hc h.vars hlt (Nat.le_trans hle hmem.2.2)
  have hlast := isIn_of_coreOfPtr (coreOfPtr_eq hc h.vars (r := r) (w := b.stop - 1)
    (by unfold nodeSize at hle; omega) (by omega))
  obtain ⟨h', hfree, hs, tiles', nodes', hL, hchain, hused⟩ := free_spec h.layout hc.boundsValid
    (fuel_pos hc) hc.hi_le h.chain hb hf hcore hlast
  rw [← hp] at hfree
  have hstep : step c s (.heapFreePm l.ptr) =
      some ⟨h', s.live.filter (·.ptr ≠ l.ptr)⟩ := by
    change (heapFreePm c.chip c.fuel s.heap l.ptr).map _ = _
    rw [hfree]
    rfl
  refine ⟨_, hstep, hs, tiles', nodes', hL, hchain, ⟨fun l' hl' => ?_, fun r' z hz hzf => ?_, ?_⟩,
    h.vars.of_same hs, h.varsAbove.of_same hs⟩
  · obtain ⟨hl', hne⟩ := mem_filter.mp hl'
    obtain ⟨r', hr', z, hz, hzf, hzp, hzs⟩ := h.ledger.owned l' hl'
    refine ⟨r', hr', z, (hused r' z hzf).mpr ⟨hz, fun he => ?_⟩, hzf, hzp, hzs⟩
    rw [hzp, he, hp] at hne
    simp at hne
  · obtain ⟨hz, hne⟩ := (hused r' z hzf).mp hz
    obtain ⟨l', hl', hlp⟩ := h.ledger.used r' z hz hzf
    refine ⟨l', mem_filter.mpr ⟨hl', decide_eq_true fun he => hne ?_⟩, hlp⟩
    rw [hlp, hp] at he
    exact (h.layout.eq_of_start hc.boundsValid hz hb (Nat.add_right_cancel (addr_inj he))).2
  · exact h.ledger.distinct.sublist filter_sublist

/-- An owner writes to none of the headers. -/
theorem Inv.store (hc : Heaps c) (h : Inv c s tiles nodes) {word value : ℕ}
    (hlegal : Legal s (.store word value)) :
    ∃ s', step c s (.store word value) = some s' ∧ Same s.heap s'.heap ∧
      ∃ tiles' nodes', Inv c s' tiles' nodes' := by
  obtain ⟨l, hl, hge, hlt⟩ := hlegal
  obtain ⟨r, -, b, hb, hf, hp, hs⟩ := h.ledger.owned l hl
  have hfar : ∀ r', ∀ z ∈ tiles r', ∀ i, (i = z.start ∨ i = z.start + 1) →
      update s.heap.pm word value i = s.heap.pm i := by
    intro r' z hz i hi
    refine update_of_ne (fun he => ?_) ..
    have hapart := h.layout.apart hc.boundsValid hz hb
    rw [hp] at hge hlt
    unfold Block.stop Block.ptr nodeSize pcPerInstruction at *
    rcases hapart with ⟨-, rfl⟩ | hapart
    · omega
    · omega
  have hlink : ∀ c', ∀ p ∈ nodes c',
      nextOf (update s.heap.pm word value) p = nextOf s.heap.pm p := fun c' p hp =>
    h.layout.nextOf_eq hp fun r' _ z hz _ _ => hfar r' z hz _ (.inr rfl)
  refine ⟨_, rfl, ⟨rfl, rfl, rfl, rfl, rfl, rfl, rfl, rfl⟩, tiles, nodes, ⟨h.layout.tiled,
    fun r' z hz => (hfar r' z hz _ (.inl rfl)).trans (h.layout.length_eq r' z hz),
    fun r' z hz hzf => (hfar r' z hz _ (.inr rfl)).trans (h.layout.magic r' z hz hzf),
    fun c' => ?_, h.layout.nodup, h.layout.mem_nodes⟩, h.chain, h.ledger,
    ⟨h.vars.heapPmStart, h.vars.heapPmEnd, h.vars.heapPmP1Start, h.vars.heapPmP1End⟩,
    ⟨h.varsAbove.addnlHeapPmP1Start, h.varsAbove.addnlHeapPmP1End⟩⟩
  have hl := (h.layout.linked c').congr (hlink c')
  cases c' <;> exact hl

/-- **One step.** -/
theorem Inv.step (hc : Heaps c) (h : Inv c s tiles nodes) {call : Call} (hlegal : Legal s call)
    (hallowed : Allowed s call) :
    Right c s call ∧ ∀ s', MallocPm.step c s call = some s' →
      ∃ tiles' nodes', Inv c s' tiles' nodes' := by
  have hgo : Answers c s call ∧ ∃ s', MallocPm.step c s call = some s' ∧ Same s.heap s'.heap ∧
      ∃ tiles' nodes', Inv c s' tiles' nodes' := by
    cases call with
    | heapAllocPm sizeByte preferenceCore => exact h.alloc hc hallowed
    | heapFreePm ptr => exact ⟨trivial, h.free hc hlegal hallowed⟩
    | store word value => exact ⟨trivial, h.store hc hlegal⟩
  obtain ⟨hanswer, s₁, hstep, hs, hinv⟩ := hgo
  refine ⟨⟨hanswer, s₁, hstep, hs.blockCount, hs.pmwinEnable⟩, fun s' hs' => ?_⟩
  rw [hstep] at hs'
  cases hs'
  exact hinv

end Invariant

/-! ## Whole runs -/

/-- **The heap.** In every run of legal and allowed calls, the blocks tile the heaps in every state,
and every call is right. -/
theorem heap_sound {c : Config} (hreg : c.Regular) (pm : ℕ → ℕ) (pmwinEnable blockCount : ℕ)
    {calls : List Call}
    (hlegal : Meets (step c) Legal (initial c pm pmwinEnable blockCount) calls)
    (hallowed : Meets (step c) Allowed (initial c pm pmwinEnable blockCount) calls) :
    Throughout (step c) (Sound c) (initial c pm pmwinEnable blockCount) calls ∧
      Meets (step c) (Right c) (initial c pm pmwinEnable blockCount) calls := by
  have hc := hreg.heaps
  have hboth := hlegal.and hallowed
  have hinit := inv_initial hreg pm pmwinEnable blockCount
  have hkeep : ∀ s call, (∃ tiles nodes, Inv c s tiles nodes) → Legal s call ∧ Allowed s call →
      Right c s call ∧ ∀ s', step c s call = some s' → ∃ tiles nodes, Inv c s' tiles nodes :=
    fun s call ⟨_, _, hi⟩ hP => hi.step hc hP.1 hP.2
  constructor
  · intro ks t hks hrun
    obtain ⟨tiles, nodes, h⟩ := invariant_of_meets
      (fun s call s' hi hP hs => (hkeep s call hi hP).2 s' hs) hinit (hboth.of_prefix hks) hrun
    exact h.sound hc
  · exact meets_of_meets hkeep hinit hboth

/-- Each region of the core is taken by the allocated blocks, but for less than the size and two
headers in front of each of them and at the end. -/
def Exhausted (c : Config) (s : State) (size : ℕ) (core : Core) : Prop :=
  ∃ tiles nodes, Layout c.bounds s.heap.pm s.heap.freelist tiles nodes ∧ Ledger tiles s.live ∧
    ∀ r, r.core = core → c.bounds.hi r - c.bounds.lo r ≤
      ((tiles r).countP (!·.free) + 1) * ((size + 7) / 4) +
        (((tiles r).filter (!·.free)).map fun b => b.stop - b.start).sum

/-- **An allocation fails only when the heap of the core is exhausted**, in every run. -/
theorem exhausted_of_null {c : Config} (hreg : c.Regular) (pm : ℕ → ℕ) (pmwinEnable blockCount : ℕ)
    {calls : List Call} {s : State}
    (hlegal : Meets (step c) Legal (initial c pm pmwinEnable blockCount) calls)
    (hallowed : Meets (step c) Allowed (initial c pm pmwinEnable blockCount) calls)
    (hrun : run (step c) (initial c pm pmwinEnable blockCount) calls = some s)
    {sizeByte : BitVec 32} (h0 : sizeByte ≠ 0) (hround : roundUp sizeByte.toNat ≠ 0)
    {preferenceCore : ℕ} {h : PmHeap}
    (hnull : heapAllocPm c.chip c.fuel s.heap sizeByte.toNat preferenceCore = some (0, h)) :
    Exhausted c s sizeByte.toNat (coreOf preferenceCore) := by
  have hc := hreg.heaps
  have hkeep : ∀ s call s', (∃ tiles nodes, Inv c s tiles nodes) → Legal s call ∧ Allowed s call →
      step c s call = some s' → ∃ tiles nodes, Inv c s' tiles nodes :=
    fun _ _ _ ⟨_, _, hi⟩ hP hs => (hi.step hc hP.1 hP.2).2 _ hs
  obtain ⟨tiles, nodes, hinv⟩ := invariant_of_meets hkeep
    (inv_initial hreg pm pmwinEnable blockCount) (hlegal.and hallowed) hrun
  refine ⟨tiles, nodes, hinv.layout, hinv.ledger, fun r hr => ?_⟩
  obtain ⟨ptr, h', nodes', halloc, hlinked, hanswer⟩ := (hinv.alloc hc (.inr (.inl hround))).1
  rw [if_neg h0] at hanswer
  rw [hnull] at halloc
  obtain ⟨rfl, -⟩ := Prod.mk.inj (Option.some.inj halloc)
  have hshort : ∀ b ∈ tiles r, b.free = true → b.stop - b.start ≤ (sizeByte.toNat + 7) / 4 := by
    intro b hb hf
    have hmem := hinv.layout.addr_mem_nodes hb hf
    rw [hr, ← hlinked.functional (hinv.layout.linked _)] at hmem
    have hlt := hanswer.mp rfl _ hmem
    rw [lengthAt, hinv.layout.readNode hb] at hlt
    unfold Block.stop pcPerInstruction nodeSize at *
    dsimp only at hlt
    omega
  have hle := (hinv.layout.tiled r).le_of_notBoth (hinv.chain r) hshort
  rw [Nat.add_mul, Nat.one_mul]
  refine hle.trans ?_
  split <;> omega

/-- Two heaps of the chip that the sources are built for. -/
def sample : Config where
  chip := streplus
  heapStart := 0x04010000
  multipleCores := true
  p1PmHeapAllocation := some 2

/-- Blocks of both cores, written to and released in another order than they were allocated. -/
def sampleCalls : List Call :=
  [.heapAllocPm 100 0, .heapAllocPm 30 1, .heapAllocPm 7 0, .store 0x1005fe8 5,
    .heapFreePm 0x04017F9C, .heapAllocPm 0 0, .heapFreePm 0x04017F8C]

theorem heap_sound_sample :
    Throughout (step sample) (Sound sample) (initial sample (fun _ => 0) 0 0) sampleCalls ∧
      Meets (step sample) (Right sample) (initial sample (fun _ => 0) 0 0) sampleCalls :=
  heap_sound (by decide) _ _ _ (by decide +kernel) (by decide +kernel)

/-- A request that no heap of the chip is long enough for. -/
theorem exhausted_of_null_sample : ∃ s h,
    run (step sample) (initial sample (fun _ => 0) 0 0) [.heapAllocPm 100 0] = some s ∧
      heapAllocPm streplus sample.fuel s.heap (0x100000 : BitVec 32).toNat 0 = some (0, h) ∧
        Exhausted sample s (0x100000 : BitVec 32).toNat (coreOf 0) := by
  have hlegal : Meets (step sample) Legal (initial sample (fun _ => 0) 0 0)
    [.heapAllocPm 100 0] := by decide +kernel
  have hallowed : Meets (step sample) Allowed (initial sample (fun _ => 0) 0 0)
    [.heapAllocPm 100 0] := by decide +kernel
  exact ⟨_, _, rfl, rfl, exhausted_of_null (by decide) _ _ _ hlegal hallowed rfl
    (by decide) (by decide) rfl⟩

/-- The release of `NULL` is legal, and leaves interrupts blocked and the window enabled. -/
theorem not_right_release_null :
    Meets (step sample) Legal (initial sample (fun _ => 0) 0 0) [.heapFreePm 0] ∧
      ¬ Meets (step sample) (Right sample) (initial sample (fun _ => 0) 0 0) [.heapFreePm 0] := by
  refine ⟨by decide +kernel, fun h => ?_⟩
  obtain ⟨-, s', hs', hcount, -⟩ := h.1
  cases hs'
  cases hcount

end Mh40.MallocPm
