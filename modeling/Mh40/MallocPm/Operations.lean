import Mh40.MallocPm.Layout

/-!
# What the heap functions do to a layout

* `search_spec`: the search ends with a free block that is long enough, or there is none.
* `alloc_spec`: an allocation fails, or replaces a free block by one that ends with the new one.
* `free_spec`: a release makes the block free, joined with the free blocks around it.
-/

namespace Mh40.MallocPm

open Lib List Option Function

/-! ## The search -/

section Search

variable {pm : ℕ → ℕ} {size heapsize : ℕ}

/-- The length of the block at a node. -/
def lengthAt (pm : ℕ → ℕ) (p : ℕ) : ℕ := (readNodeFromPm pm p).length32

/-- What the search knows of the nodes that it has passed. -/
structure Searched (pm : ℕ → ℕ) (size heapsize : ℕ) (done : List ℕ) (s : Search) : Prop where
  prev : s.prevnode = done.getLast?.getD 0
  none_fits : s.bestnode = 0 → s.bestsize32 = heapsize ∧
    ∀ p ∈ done, ¬ (size ≤ lengthAt pm p ∧ lengthAt pm p < heapsize)
  fits : s.bestnode ≠ 0 → s.bestsize32 = lengthAt pm s.bestnode ∧
    size ≤ lengthAt pm s.bestnode ∧
    ∃ l₁ l₂, done = l₁ ++ s.bestnode :: l₂ ∧ s.bestnodePrev = l₁.getLast?.getD 0

theorem Searched.step {done : List ℕ} {s : Search} (h : Searched pm size heapsize done s) {p : ℕ}
    (hp : p ≠ 0) : Searched pm size heapsize (done ++ [p]) (searchStep pm size s p) := by
  have hstep : searchStep pm size s p = if size ≤ lengthAt pm p ∧ lengthAt pm p < s.bestsize32
      then ⟨p, s.prevnode, lengthAt pm p, p⟩ else { s with prevnode := p } := by
    unfold searchStep
    dsimp only
    split_ifs with h1 h2 h2
    · rfl
    · exact absurd h1 h2
    · exact absurd h2 h1
    · rfl
  rw [hstep]
  split_ifs with hfit
  · refine ⟨by simp, fun h0 => absurd h0 hp, fun _ => ⟨rfl, hfit.1, done, [], rfl, h.prev⟩⟩
  · refine ⟨by simp, fun h0 => ?_, fun hne => ?_⟩
    · obtain ⟨hbest, hnone⟩ := h.none_fits h0
      refine ⟨hbest, fun q hq => ?_⟩
      rcases mem_append.mp hq with hq | hq
      · exact hnone q hq
      · obtain rfl := mem_singleton.mp hq
        exact hbest ▸ hfit
    · obtain ⟨hbest, hle, l₁, l₂, hdone, hprev⟩ := h.fits hne
      exact ⟨hbest, hle, l₁, l₂ ++ [p], by rw [hdone]; simp, hprev⟩

variable (pm size heapsize) in
/-- **The search.** -/
theorem search_spec (nodes : List ℕ) (hne : ∀ p ∈ nodes, p ≠ 0) :
    Searched pm size heapsize nodes (nodes.foldl (searchStep pm size) ⟨0, 0, heapsize, 0⟩) := by
  have hgo : ∀ (rest done : List ℕ) (s : Search), (∀ p ∈ rest, p ≠ 0) →
      Searched pm size heapsize done s →
      Searched pm size heapsize (done ++ rest) (rest.foldl (searchStep pm size) s) := by
    intro rest
    induction rest with
    | nil => exact fun done s _ h => by simpa using h
    | cons p rest ih =>
      intro done s hne h
      have := ih (done ++ [p]) _ (fun q hq => hne q (mem_cons_of_mem p hq))
        (h.step (hne p mem_cons_self))
      simpa using this
  exact hgo nodes [] _ hne
    ⟨rfl, fun _ => ⟨rfl, fun p hp => absurd hp not_mem_nil⟩, fun h => absurd rfl h⟩

end Search

/-! ## Allocation -/

/-- The variables that say where the heaps are, and the registers. -/
structure Same (h h' : PmHeap) : Prop where
  pmwinEnable : h'.pmwinEnable = h.pmwinEnable
  blockCount : h'.blockCount = h.blockCount
  heapPmStart : h'.heapPmStart = h.heapPmStart
  heapPmEnd : h'.heapPmEnd = h.heapPmEnd
  heapPmP1Start : h'.heapPmP1Start = h.heapPmP1Start
  heapPmP1End : h'.heapPmP1End = h.heapPmP1End
  addnlHeapPmP1Start : h'.addnlHeapPmP1Start = h.addnlHeapPmP1Start
  addnlHeapPmP1End : h'.addnlHeapPmP1End = h.addnlHeapPmP1End

theorem freelist_setFreelist (h : PmHeap) (c : Core) (p : ℕ) :
    (h.setFreelist c p).freelist = Function.update h.freelist c p := by
  funext c'
  cases c <;> cases c' <;> rfl

/-- There is no node before exactly when the variable says so. -/
theorem getLast?_getD_eq_zero {ns : List ℕ} (h : ∀ q ∈ ns.getLast?, q ≠ 0) :
    ns = [] ↔ ns.getLast?.getD 0 = 0 := by
  cases hlast : ns.getLast? with
  | none => simpa using getLast?_eq_none_iff.mp hlast
  | some q =>
    rw [getD_some]
    refine iff_of_false (fun he => ?_) (h q hlast)
    rw [he] at hlast
    cases hlast

section Alloc

variable {B : Bounds} {h : PmHeap} {tiles : Region → List Block} {nodes : Core → List ℕ}
  {core : Core} {fuel sizeByte heapsize : ℕ}

/-- A block that ends with the new one, in place of a free one. -/
structure Allocated (B : Bounds) (tiles : Region → List Block) (core : Core) (size : ℕ) (p : ℕ)
    (h' : PmHeap) (r : Region) (l₁ l₂ : List Block) (b a : Block) (pre : List Block) : Prop where
  region : r.core = core
  tiles_eq : tiles r = l₁ ++ b :: l₂
  was_free : b.free = true
  pre_eq : pre = [] ∨ ∃ f : Block, pre = [f] ∧ f.free = true
  used : a.free = false
  long : size ≤ a.length
  ptr : p = a.ptr
  layout : ∃ nodes', Layout B h'.pm h'.freelist
    (Function.update tiles r (l₁ ++ (pre ++ [a] ++ l₂))) nodes'

/-- The link to a node replaced by its own, and a header written for an allocated block. -/
theorem take_pm {pm : ℕ → ℕ} {b : Block} {n1 : List ℕ} (next : ℕ) (hlen : pm b.start = b.length)
    (hprev : ∀ q ∈ n1.getLast?, q ≠ 0 ∧ ∃ z : Block, q = z.addr ∧ z.start ≠ b.start ∧
      z.start + 1 ≠ b.start) :
    ∀ i, writeNodeToPm (if n1.getLast?.getD 0 ≠ 0 then writeNodeToPm pm (n1.getLast?.getD 0)
        { readNodeFromPm pm (n1.getLast?.getD 0) with next := next } else pm)
        b.addr ⟨b.length, magicWord⟩ i =
      if i = b.start + 1 then magicWord else if lastLink n1 = some i then next else pm i := by
  intro i
  rw [Block.addr, writeNode_apply]
  dsimp only
  by_cases hi : i = b.start + 1
  · rw [if_pos hi, if_pos hi]
  · rw [if_neg hi, if_neg hi]
    cases hlast : n1.getLast? with
    | none =>
      have h0 : ¬ ((none : Option ℕ).getD 0 ≠ 0) := fun h => h rfl
      rw [if_neg h0, lastLink, hlast, map_none, if_neg (some_ne_none i).symm]
      split_ifs with hb
      · rw [hb, hlen]
      · rfl
    | some q =>
      obtain ⟨hq, z, rfl, hz, hz'⟩ := hprev q hlast
      rw [getD_some, if_pos hq, Block.addr, writeNode_apply, readNode_addr, lastLink, hlast,
        map_some, Block.addr, addr_div]
      dsimp only
      by_cases hb : i = b.start
      · rw [if_pos hb, if_neg (fun he => hz' ((some.inj he).trans hb)), hb, hlen]
      · rw [if_neg hb]
        by_cases hzi : i = z.start + 1
        · rw [if_pos hzi, if_pos (by rw [hzi])]
        · rw [if_neg hzi, if_neg fun he => hzi (some.inj he).symm]
          split_ifs with hzs
          · rw [hzs]
          · rfl

/-- The node before a node of the list is that of another free block. -/
theorem Layout.getLast?_block {pm : ℕ → ℕ} {freelist : Core → ℕ}
    (hL : Layout B pm freelist tiles nodes) (hB : B.Valid) {n1 n2 : List ℕ} {r : Region} {b : Block}
    (hb : b ∈ tiles r) (hn : nodes core = n1 ++ b.addr :: n2) :
    ∀ q ∈ n1.getLast?, q ≠ 0 ∧ ∃ z : Block, q = z.addr ∧ z.start ≠ b.start ∧
      z.start + 1 ≠ b.start := by
  intro q hq
  have hmem : q ∈ n1 := mem_of_getLast? hq
  have hnd := hL.nodup core
  rw [hn] at hnd
  obtain ⟨r', -, z, hz, -, rfl⟩ :=
    hL.free_of_mem_nodes (c := core) (p := q) (by rw [hn]; exact mem_append_left _ hmem)
  have hne : z.start ≠ b.start := fun he =>
    (nodup_middle.mp hnd).notMem (mem_append_left _ (by
      rw [Block.addr, ← he]
      exact hmem))
  exact ⟨hL.addr_ne_zero hB hz, z, rfl, hne, hL.link_ne_start hB hz hb⟩

/-- The outcome of an allocation. -/
structure AllocOutcome (B : Bounds) (h : PmHeap) (tiles : Region → List Block)
    (nodes : Core → List ℕ) (core : Core) (size p : ℕ) (h' : PmHeap) : Prop where
  same : Same h h'
  null_iff : p = 0 ↔ ∀ q ∈ nodes core, lengthAt h.pm q < size
  failed : p = 0 → h'.pm = h.pm ∧ h'.freelist = h.freelist
  done : p ≠ 0 → ∃ r l₁ l₂ b a pre, Allocated B tiles core size p h' r l₁ l₂ b a pre

theorem ptr_ne_zero (b : Block) : b.ptr ≠ 0 :=
  Nat.mul_ne_zero (Nat.succ_ne_zero _) (by decide)

variable (sizeByte heapsize) in
/-- **An allocation.** It fails, or the block found gives way to one that ends with the new one. -/
theorem alloc_spec (hL : Layout B h.pm h.freelist tiles nodes) (hB : B.Valid)
    (hfuel : (nodes core).length < fuel)
    (hbig : ∀ r, r.core = core → B.lo r < B.hi r → B.hi r - B.lo r ≤ heapsize) :
    ∃ p h', heapAllocInternalPm fuel h sizeByte heapsize core = some (p, h') ∧
      AllocOutcome B h tiles nodes core (bytesIntoPm32 sizeByte) p h' := by
  have hfree : h.enter.freelist = h.freelist := funext fun c => by cases c <;> rfl
  have hwalk : walk (nextOf h.enter.pm) fuel (h.enter.freelist core) = some (nodes core) := by
    rw [hfree]
    exact walk_eq (hL.linked core) hfuel
  have hs := search_spec h.pm (bytesIntoPm32 sizeByte) heapsize
    (nodes core) (hL.linked core).ne_zero
  unfold heapAllocInternalPm
  dsimp only [bind]
  rw [hwalk, bind_some]
  have hpm : h.enter.pm = h.pm := rfl
  rw [hpm]
  generalize hsdef : (nodes core).foldl (searchStep h.pm (bytesIntoPm32 sizeByte))
    ⟨0, 0, heapsize, 0⟩ = s at hs
  generalize hn : bytesIntoPm32 sizeByte = n at hs ⊢
  by_cases h0 : s.bestnode = 0
  · -- no block is long enough
    rw [if_neg (fun hne => hne h0)]
    refine ⟨_, _, rfl, ⟨rfl, rfl, rfl, rfl, rfl, rfl, rfl, rfl⟩, iff_of_true rfl fun q hq => ?_,
      fun _ => ⟨rfl, hfree⟩, fun hne => absurd rfl hne⟩
    have hno := (hs.none_fits h0).2 q hq
    obtain ⟨r, hr, b, hb, -, rfl⟩ := hL.free_of_mem_nodes hq
    have hmem := (hL.tiled r).mem hb
    have hlen : lengthAt h.pm b.addr = b.length := by rw [lengthAt, hL.readNode hb]
    have hle := hbig r hr (hL.lo_lt_hi hb)
    unfold Block.stop nodeSize at hmem
    omega
  · obtain ⟨hbest, hfit, n1, n2, hnodes, hprev⟩ := hs.fits h0
    rw [if_pos h0]
    have hmem : s.bestnode ∈ nodes core := by rw [hnodes]; simp
    obtain ⟨r, rfl, b, hb, hf, hbaddr⟩ := hL.free_of_mem_nodes hmem
    obtain ⟨l₁, l₂, hr⟩ := append_of_mem hb
    have hread := hL.readNode hb
    have hstop := hL.stop_lt hB hb
    have hlen : lengthAt h.pm b.addr = b.length := by rw [lengthAt, hread]
    have hnull : ¬ ∀ q ∈ nodes r.core, lengthAt h.pm q < n := fun hall =>
      Nat.not_le.mpr (hall s.bestnode hmem) hfit
    rw [hbest, hprev, hbaddr, hread, hlen]
    rw [hbaddr, hlen] at hfit
    rw [hbaddr] at hnodes
    unfold Block.stop nodeSize pcPerInstruction at hstop
    dsimp only
    by_cases hlong : n + nodeSize + minSpare32 ≤ b.length
    · -- the top of the block
      have hle : n + nodeSize ≤ b.length := Nat.le_trans (Nat.le_add_right _ _) hlong
      rw [if_pos hlong]
      unfold nodeSize at hle
      have hptr : ptrAdd b.addr (b.length - n) = (b.start + (b.length - n)) * pcPerInstruction :=
        ptrAdd_addr (by unfold pcPerInstruction; omega)
      have hptr' : ptrAdd ((b.start + (b.length - n)) * pcPerInstruction) nodeSize =
          Block.ptr ⟨b.start + (b.length - n), n, false⟩ :=
        ptrAdd_addr (by unfold pcPerInstruction nodeSize; omega)
      rw [hptr, hptr']
      refine ⟨_, _, rfl, ⟨rfl, rfl, rfl, rfl, rfl, rfl, rfl, rfl⟩,
        iff_of_false (ptr_ne_zero _) hnull, fun he => absurd he (ptr_ne_zero _), fun _ => ?_⟩
      refine ⟨r, l₁, l₂, b, ⟨b.start + (b.length - n), n, false⟩,
        [⟨b.start, b.length - (n + nodeSize), true⟩], rfl, hr, hf, .inr ⟨_, rfl, rfl⟩, rfl,
        Nat.le_refl n, rfl, nodes, ?_⟩
      have hsplit := hL.split hB hr hf (n := n) (by unfold nodeSize; omega)
      have hfl : (PmHeap.leave ((h.enter.write b.addr
          ⟨b.length - (n + nodeSize), h.pm (b.start + 1)⟩).write
          ((b.start + (b.length - n)) * pcPerInstruction) ⟨n, magicWord⟩)
          h.pmwinEnable).freelist = h.freelist := by
        funext c
        cases c <;> rfl
      rw [hfl]
      exact hsplit
    · -- the whole block
      rw [if_neg hlong]
      have hbytes : bytesIntoPm32 (b.length * pcPerInstruction) = b.length := addr_div _
      have hptr : ptrAdd b.addr nodeSize = Block.ptr { b with free := false } :=
        ptrAdd_addr (by unfold pcPerInstruction nodeSize; omega)
      rw [hbytes, hptr]
      refine ⟨_, _, rfl, ?_, iff_of_false (ptr_ne_zero _) hnull,
        fun he => absurd he (ptr_ne_zero _), fun _ => ?_⟩
      · split_ifs
        · exact ⟨rfl, rfl, rfl, rfl, rfl, rfl, rfl, rfl⟩
        · cases r <;> exact ⟨rfl, rfl, rfl, rfl, rfl, rfl, rfl, rfl⟩
      · refine ⟨r, l₁, l₂, b, { b with free := false }, [], rfl, hr, hf, .inl rfl, rfl, hfit, rfl,
          Function.update nodes r.core (n1 ++ n2), ?_⟩
        have hblocks := hL.getLast?_block hB hb hnodes
        have htake := hL.take hB hr hf hnodes
          (take_pm (h.pm (b.start + 1)) (hL.length_eq r b hb) hblocks)
        have hnil := getLast?_getD_eq_zero fun q hq => (hblocks q hq).1
        by_cases he : n1 = []
        · rw [if_pos he] at htake
          have h0' := hnil.mp he
          have h0'' : ¬ n1.getLast?.getD 0 ≠ 0 := fun hne => hne h0'
          rw [if_neg h0''] at htake ⊢
          exact htake.of_eq (by cases r <;> rfl) (by funext c; cases r <;> cases c <;> rfl)
        · rw [if_neg he] at htake
          have h0' : n1.getLast?.getD 0 ≠ 0 := fun h0 => he (hnil.mpr h0)
          rw [if_pos h0'] at htake ⊢
          refine htake.of_eq rfl ?_
          rw [update_eq_self]
          funext c
          cases c <;> rfl

end Alloc

/-! ## Release -/

/-- Not two free blocks. -/
def NotBothFree (x y : Block) : Prop := ¬ (x.free = true ∧ y.free = true)

section Free

variable {B : Bounds} {h h1 : PmHeap} {pm : ℕ → ℕ} {freelist : Core → ℕ}
  {tiles : Region → List Block} {nodes : Core → List ℕ} {core : Core} {r : Region} {b : Block}
  {l₁ l₂ : List Block}

/-- What the first join leaves: a free block in place of the released one, which may have taken the
free block before it. -/
structure JoinedBefore (B : Bounds) (h1 h2 : PmHeap) (tiles : Region → List Block) (r : Region)
    (l₁ l₂ : List Block) (cur : Block) (k₁ : List Block) : Prop where
  same : Same h1 h2
  free : cur.free = true
  layout : ∃ nodes', Layout B h2.pm h2.freelist (Function.update tiles r (k₁ ++ cur :: l₂)) nodes'
  chain : (k₁ ++ [cur]).IsChain NotBothFree
  used : ∀ z : Block, z.free = false → (z ∈ k₁ ↔ z ∈ l₁)

variable (h1) in
/-- **The first join.** -/
theorem joinBefore_spec (hL : Layout B pm h1.freelist tiles nodes) (hB : B.Valid)
    (hr : tiles r = l₁ ++ b :: l₂) (hf : b.free = false)
    (hco : (tiles r).IsChain NotBothFree) (hpm : ∀ i, i ≠ b.start + 1 → h1.pm i = pm i) :
    ∃ cur h2 k₁, joinBefore h1 (nodes r.core) r.core b.addr = (cur.addr, h2) ∧
      JoinedBefore B h1 h2 tiles r l₁ l₂ cur k₁ := by
  have hb : b ∈ tiles r := by rw [hr]; simp
  have hlen : h1.pm b.start = b.length := by
    rw [hpm _ (Nat.succ_ne_self _).symm, hL.length_eq r b hb]
  -- the headers of the other blocks are not where the magic word was
  have hread : ∀ r' x, x ∈ tiles r' → x.free = true →
      readNodeFromPm h1.pm x.addr = ⟨x.length, pm (x.start + 1)⟩ := by
    intro r' x hx hxf
    have hne : x ≠ b := fun he => by
      rw [he, hf] at hxf
      cases hxf
    have hsep := hL.sep hB hx hb fun _ => hne
    unfold Block.stop nodeSize at hsep
    rw [Block.addr, readNode_addr, hpm _ (by omega), hpm _ (by omega), hL.length_eq r' x hx]
  have hend : ∀ r' x, x ∈ tiles r' → x.free = true →
      ptrAdd x.addr ((readNodeFromPm h1.pm x.addr).length32 + nodeSize) =
        x.stop * pcPerInstruction := by
    intro r' x hx hxf
    rw [hread r' x hx hxf]
    have hstop := (hL.stop_lt hB hx).2
    unfold Block.stop at hstop ⊢
    rw [Nat.add_assoc] at hstop ⊢
    exact ptrAdd_addr hstop
  rw [hr, isChain_split] at hco
  cases hfind : findBefore h1.pm b.addr (nodes r.core) with
  | none =>
    have hno := find?_eq_none.mp hfind
    have hread' : readNodeFromPm h1.pm b.addr = ⟨b.length, h1.pm (b.start + 1)⟩ := by
      rw [Block.addr, readNode_addr, hlen]
    refine ⟨{ b with free := true },
      (h1.write b.addr ⟨b.length, h1.freelist r.core⟩).setFreelist r.core b.addr, l₁, ?_, ?_, rfl,
      ⟨_, Layout.of_eq (hL.push (writeNodeToPm h1.pm b.addr ⟨b.length, h1.freelist r.core⟩)
        hB hr hf fun i => ?_) ?_ ?_⟩, ?_, fun z _ => Iff.rfl⟩
    · unfold joinBefore
      dsimp only
      rw [hfind, hread']
      rfl
    · cases r <;> exact ⟨rfl, rfl, rfl, rfl, rfl, rfl, rfl, rfl⟩
    · rw [Block.addr, writeNode_apply]
      dsimp only
      split_ifs with h1' h2
      · rfl
      · rw [h2, hL.length_eq r b hb]
      · exact hpm i h1'
    · cases r <;> rfl
    · rw [freelist_setFreelist]
      congr 1
    · -- the block before is not free: the walk would have found it
      rw [isChain_append] at hco ⊢
      refine ⟨hco.1.1, .singleton _, fun x hx y hy hxy => ?_⟩
      have hxl : x ∈ l₁ := mem_of_getLast? hx
      have hxm : x ∈ tiles r := by rw [hr]; exact mem_append_left _ hxl
      have hstop : x.stop = b.start := by
        have ht := hL.tiled r
        rw [hr, tiles_cons_iff] at ht
        exact ht.1.stop_of_mem_getLast? hx
      refine hno x.addr (hL.addr_mem_nodes hxm hxy.1) ?_
      rw [hend r x hxm hxy.1, hstop]
      exact decide_eq_true rfl
  | some q =>
    have hq : q ∈ nodes r.core := mem_of_find?_eq_some hfind
    have hqend : ptrAdd q ((readNodeFromPm h1.pm q).length32 + nodeSize) = b.addr := by
      have := find?_some hfind
      exact of_decide_eq_true this
    obtain ⟨r', hr', x, hx, hxf, rfl⟩ := hL.free_of_mem_nodes hq
    rw [hend r' x hx hxf] at hqend
    have hadj := addr_inj hqend
    obtain rfl := hL.region_eq hB hx hb hr' hadj
    obtain ⟨k₁, rfl⟩ : ∃ k, l₁ = k ++ [x] :=
      Tiles.before (hr ▸ hL.tiled r') (hr ▸ hx) hadj
    rw [append_assoc, singleton_append] at hr
    refine ⟨⟨x.start, x.length + (b.length + nodeSize), true⟩,
      h1.write x.addr ⟨(x.length + (b.length + nodeSize)) % 2 ^ 32, pm (x.start + 1)⟩, k₁, ?_,
      ⟨rfl, rfl, rfl, rfl, rfl, rfl, rfl, rfl⟩, rfl,
      ⟨nodes, Layout.of_eq (hL.absorb (writeNodeToPm h1.pm x.addr
        ⟨(x.length + (b.length + nodeSize)) % 2 ^ 32, pm (x.start + 1)⟩) hB hr hxf hf fun i hi => ?_)
        rfl ?_⟩, isChain_congr_last hxf hco.1.left_of_append, fun z hz => ?_⟩
    · unfold joinBefore
      dsimp only
      rw [hfind]
      dsimp only
      have hreadb : (readNodeFromPm h1.pm b.addr).length32 = b.length := by
        rw [Block.addr, readNode_addr, hlen]
      rw [hread r' x hx hxf, hreadb]
      rfl
    · have hstop := (hL.stop_lt hB hb).2
      unfold Block.stop nodeSize at hstop hadj
      unfold pcPerInstruction at hstop
      rw [Block.addr, writeNode_apply]
      dsimp only
      rw [Nat.mod_eq_of_lt (by unfold nodeSize; omega)]
      split_ifs with h1' h2 h2
      · omega
      · rw [h1']
      · rfl
      · exact hpm i hi
    · funext c
      cases c <;> rfl
    · rw [mem_append, mem_singleton]
      refine ⟨.inl, fun hz' => hz'.resolve_right fun he => ?_⟩
      rw [he, hxf] at hz
      cases hz

theorem findNode_some {p prev prev' q : ℕ} {ns : List ℕ}
    (hf : findNode p prev ns = some (prev', q)) :
    q = p ∧ ∃ n1 n2, ns = n1 ++ p :: n2 ∧ prev' = n1.getLast?.getD prev := by
  induction ns generalizing prev with
  | nil => cases hf
  | cons a ns ih =>
    rw [findNode] at hf
    split_ifs at hf with ha
    · obtain ⟨rfl, rfl⟩ := Prod.mk.inj (some.inj hf)
      exact ⟨ha, [], ns, by rw [ha]; rfl, rfl⟩
    · obtain ⟨hq, n1, n2, rfl, hprev⟩ := ih hf
      refine ⟨hq, a :: n1, n2, rfl, ?_⟩
      rw [hprev]
      cases n1 with
      | nil => rfl
      | cons c n1 =>
        rw [getLast?_cons_cons]
        cases hlast : (c :: n1).getLast? with
        | none => exact absurd (getLast?_eq_none_iff.mp hlast) (cons_ne_nil _ _)
        | some d => rfl

theorem findNode_none {p prev : ℕ} {ns : List ℕ} (hf : findNode p prev ns = none) : p ∉ ns := by
  induction ns generalizing prev with
  | nil => exact not_mem_nil
  | cons a ns ih =>
    rw [findNode] at hf
    split_ifs at hf with ha
    exact fun hmem => (mem_cons.mp hmem).elim (fun he => ha he.symm) (ih hf)

/-- What the second join leaves: a free block that may have taken the free block after it. -/
structure JoinedAfter (B : Bounds) (h h' : PmHeap) (tiles : Region → List Block) (r : Region)
    (k₁ l₂ : List Block) (cur : Block) (l₃ : List Block) : Prop where
  same : Same h h'
  free : cur.free = true
  layout : ∃ nodes', Layout B h'.pm h'.freelist (Function.update tiles r (k₁ ++ cur :: l₃)) nodes'
  chain : (k₁ ++ cur :: l₃).IsChain NotBothFree
  used : ∀ z : Block, z.free = false → (z ∈ l₃ ↔ z ∈ l₂)

/-- The header of the joined block and the link to the block that it took. -/
theorem join_pm {x y : Block} {n1 : List ℕ} (next : ℕ) (hxy : x.stop = y.start)
    (hlt : y.stop * pcPerInstruction < 2 ^ 32)
    (hprev : ∀ q ∈ n1.getLast?, q ≠ 0 ∧ ∃ z : Block, q = z.addr ∧ z.start + 1 ≠ x.start) :
    ∀ i, (if n1.getLast?.getD 0 = 0 then
        writeNodeToPm pm x.addr ⟨(x.length + (y.length + nodeSize)) % 2 ^ 32, pm (x.start + 1)⟩
      else writeNodeToPm
        (writeNodeToPm pm x.addr ⟨(x.length + (y.length + nodeSize)) % 2 ^ 32, pm (x.start + 1)⟩)
        (n1.getLast?.getD 0)
        { readNodeFromPm (writeNodeToPm pm x.addr
            ⟨(x.length + (y.length + nodeSize)) % 2 ^ 32, pm (x.start + 1)⟩)
            (n1.getLast?.getD 0) with next := next }) i =
      if lastLink n1 = some i then next else
        if i = x.start then x.length + (y.length + nodeSize) else pm i := by
  intro i
  have hmod : (x.length + (y.length + nodeSize)) % 2 ^ 32 = x.length + (y.length + nodeSize) := by
    refine Nat.mod_eq_of_lt ?_
    unfold Block.stop nodeSize at *
    unfold pcPerInstruction at hlt
    omega
  rw [hmod]
  have hwrite : writeNodeToPm pm x.addr ⟨x.length + (y.length + nodeSize), pm (x.start + 1)⟩ =
      fun j => if j = x.start then x.length + (y.length + nodeSize) else pm j := by
    funext j
    rw [Block.addr, writeNode_apply]
    dsimp only
    split_ifs with h1 h2 h2
    · omega
    · rw [h1]
    · rfl
    · rfl
  rw [hwrite]
  cases hlast : n1.getLast? with
  | none =>
    rw [getD_none, if_pos rfl, lastLink, hlast, map_none,
      if_neg (some_ne_none i).symm]
  | some q =>
    obtain ⟨hq, z, rfl, hz⟩ := hprev q hlast
    rw [getD_some, if_neg hq, Block.addr, writeNode_apply, readNode_addr, lastLink, hlast,
      map_some, Block.addr, addr_div]
    dsimp only
    by_cases hzi : i = z.start + 1
    · rw [if_pos hzi, if_pos (by rw [hzi])]
    · rw [if_neg hzi, if_neg fun he => hzi (some.inj he).symm]
      by_cases hzs : i = z.start
      · rw [if_pos hzs, hzs]
      · rw [if_neg hzs]

/-- **The second join.** -/
theorem joinAfter_spec (hL : Layout B h.pm h.freelist tiles nodes) (hB : B.Valid) {cur : Block}
    {k₁ : List Block} (hr : tiles r = k₁ ++ cur :: l₂) (hf : cur.free = true)
    (hk : (k₁ ++ [cur]).IsChain NotBothFree) (hl : l₂.IsChain NotBothFree) :
    ∃ cur' l₃, JoinedAfter B h (joinAfter h (nodes r.core) r.core cur.addr) tiles r k₁ l₂ cur' l₃ := by
  have hcur : cur ∈ tiles r := by rw [hr]; simp
  have hread := hL.readNode hcur
  have hend : ptrAdd cur.addr (cur.length + nodeSize) = cur.stop * pcPerInstruction := by
    have hstop := (hL.stop_lt hB hcur).2
    unfold Block.stop at hstop ⊢
    rw [Nat.add_assoc] at hstop ⊢
    exact ptrAdd_addr hstop
  unfold joinAfter
  dsimp only
  rw [hread, hend]
  cases hfind : findNode (cur.stop * pcPerInstruction) 0 (nodes r.core) with
  | none =>
    refine ⟨cur, l₂, ⟨rfl, rfl, rfl, rfl, rfl, rfl, rfl, rfl⟩, hf, ⟨nodes, ?_⟩, ?_,
      fun z _ => Iff.rfl⟩
    · rw [← hr, update_eq_self]
      exact hL
    · -- the block after is not free: the walk would have found it
      rw [isChain_split]
      refine ⟨hk, isChain_cons.mpr ⟨fun y hy hxy => ?_, hl⟩⟩
      have hym : y ∈ tiles r := by
        rw [hr]
        exact mem_append_right _ (mem_cons_of_mem _ (mem_of_head? hy))
      have hstart : y.start = cur.stop := by
        have ht := hL.tiled r
        rw [hr, tiles_cons_iff] at ht
        exact ht.2.2.start_of_mem_head? hy
      refine findNode_none hfind ?_
      rw [← hstart]
      exact hL.addr_mem_nodes hym hxy.2
  | some found =>
    obtain ⟨prev, p⟩ := found
    obtain ⟨rfl, n1, n2, hnodes, rfl⟩ := findNode_some hfind
    have hmem : cur.stop * pcPerInstruction ∈ nodes r.core := by rw [hnodes]; simp
    obtain ⟨r', hr', y, hy, hyf, heq⟩ := hL.free_of_mem_nodes hmem
    have hadj : cur.stop = y.start := addr_inj heq
    obtain rfl := hL.region_eq hB hcur hy hr'.symm hadj
    obtain ⟨l₃, rfl⟩ : ∃ l, l₂ = y :: l := Tiles.after (hr ▸ hL.tiled r) (hr ▸ hy) hadj
    rw [heq] at hnodes ⊢
    have hready := hL.readNode hy
    have hblocks : ∀ q ∈ n1.getLast?, q ≠ 0 ∧ ∃ z : Block, q = z.addr ∧ z.start + 1 ≠ cur.start := by
      intro q hq
      obtain ⟨r'', -, z, hz, -, rfl⟩ := hL.free_of_mem_nodes (c := r.core) (p := q)
        (by rw [hnodes]; exact mem_append_left _ (mem_of_getLast? hq))
      exact ⟨hL.addr_ne_zero hB hz, z, rfl, hL.link_ne_start hB hz hcur⟩
    have hjoin := hL.join hB hr hf hyf hnodes
      (join_pm (h.pm (y.start + 1)) hadj (hL.stop_lt hB hy).2 hblocks)
    dsimp only
    rw [hready]
    have hnil := getLast?_getD_eq_zero fun q hq => (hblocks q hq).1
    have hchain : (k₁ ++ (⟨cur.start, cur.length + (y.length + nodeSize), true⟩ : Block) ::
        l₃).IsChain NotBothFree := by
      rw [isChain_split]
      have hkind : cur.free = Block.free ⟨cur.start, cur.length + (y.length + nodeSize), true⟩ := hf
      refine ⟨isChain_congr_last hkind hk, ?_⟩
      rw [isChain_cons] at hl ⊢
      exact ⟨fun z hz hxz => hl.1 z hz ⟨hyf, hxz.2⟩, hl.2⟩
    refine ⟨⟨cur.start, cur.length + (y.length + nodeSize), true⟩, l₃, ?_, rfl, ?_, hchain,
      fun z hz => ?_⟩
    · split_ifs
      · cases r <;> exact ⟨rfl, rfl, rfl, rfl, rfl, rfl, rfl, rfl⟩
      · exact ⟨rfl, rfl, rfl, rfl, rfl, rfl, rfl, rfl⟩
    · by_cases h0 : n1.getLast?.getD 0 = 0
      · rw [if_pos (hnil.mpr h0), if_pos h0] at hjoin
        rw [if_pos h0]
        exact ⟨_, hjoin.of_eq (by cases r <;> rfl) (by funext c; cases r <;> cases c <;> rfl)⟩
      · rw [if_neg (mt hnil.mp h0), if_neg h0, update_eq_self] at hjoin
        rw [if_neg h0]
        exact ⟨_, hjoin.of_eq rfl (by funext c; cases c <;> rfl)⟩
    · rw [mem_cons]
      refine ⟨.inr, fun hz' => hz'.resolve_left fun he => ?_⟩
      rw [he, hyf] at hz
      cases hz

/-- **A release.** The block of the address is free afterwards, no two adjacent blocks are, and the
other allocated blocks stay. -/
theorem free_spec {chip : Chip} {fuel : ℕ} (hL : Layout B h.pm h.freelist tiles nodes)
    (hB : B.Valid) (hpos : 0 < fuel) (hfuel : ∀ r, B.hi r * pcPerInstruction ≤ fuel)
    (hco : ∀ r, (tiles r).IsChain NotBothFree) (hb : b ∈ tiles r) (hf : b.free = false)
    (hcore : h.coreOfPtr chip b.ptr = some r.core)
    (hlast : h.IsInP0 ((b.stop - 1) * pcPerInstruction) ∨
      h.IsInP1 chip ((b.stop - 1) * pcPerInstruction)) :
    ∃ h', heapFreePm chip fuel h b.ptr = some h' ∧ Same h h' ∧ ∃ tiles' nodes',
      Layout B h'.pm h'.freelist tiles' nodes' ∧ (∀ r', (tiles' r').IsChain NotBothFree) ∧
      ∀ r' z, z.free = false → (z ∈ tiles' r' ↔ z ∈ tiles r' ∧ z ≠ b) := by
  obtain ⟨l₁, l₂, hr⟩ := append_of_mem hb
  have hstop := hL.stop_lt hB hb
  have hp : (b.ptr + 2 ^ 32 - nodeSize * pcPerInstruction) % 2 ^ 32 = b.addr := by
    unfold Block.ptr Block.addr Block.stop nodeSize pcPerInstruction at *
    omega
  have hend : ptrAdd b.ptr (b.length + 2 ^ 32 - 1) = (b.stop - 1) * pcPerInstruction := by
    unfold ptrAdd Block.ptr Block.stop nodeSize pcPerInstruction at *
    omega
  have hread := hL.readNode hb
  rw [hL.magic r b hb hf] at hread
  have h1pm : ∀ i, i ≠ b.start + 1 → (h.enter.write b.addr ⟨b.length, 0⟩).pm i = h.pm i := by
    intro i hi
    refine writeNode_apply.trans ?_
    rw [if_neg hi]
    split_ifs with hib
    · rw [hib, hL.length_eq r b hb]
    · rfl
  have h1free : (h.enter.write b.addr ⟨b.length, 0⟩).freelist = h.freelist := by
    funext c
    cases c <;> rfl
  have hwalk1 : walk (nextOf (h.enter.write b.addr ⟨b.length, 0⟩).pm) fuel
      ((h.enter.write b.addr ⟨b.length, 0⟩).freelist r.core) = some (nodes r.core) := by
    rw [h1free]
    refine walk_eq ((hL.linked r.core).congr fun p hpn => ?_) (hL.nodes_length hB hpos hfuel _)
    refine hL.nextOf_eq hpn fun r' _ z hz hzf _ => h1pm _ fun he => ?_
    obtain ⟨-, rfl⟩ := hL.eq_of_start hB hz hb (Nat.succ.inj he)
    rw [hf] at hzf
    cases hzf
  obtain ⟨cur, h2, k₁, hjoin1, hbefore⟩ :=
    joinBefore_spec (h.enter.write b.addr ⟨b.length, 0⟩) (by rw [h1free]; exact hL) hB hr hf
      (hco r) h1pm
  obtain ⟨nodes2, hL2⟩ := hbefore.layout
  have hwalk2 : walk (nextOf h2.pm) fuel (h2.freelist r.core) = some (nodes2 r.core) :=
    walk_eq (hL2.linked r.core) (hL2.nodes_length hB hpos hfuel _)
  have hco' := hco r
  rw [hr, isChain_split, isChain_cons] at hco'
  obtain ⟨cur', l₃, hafter⟩ := joinAfter_spec hL2 hB (update_self ..) hbefore.free
    hbefore.chain hco'.2.2
  obtain ⟨nodes3, hL3⟩ := hafter.layout
  refine ⟨(joinAfter h2 (nodes2 r.core) r.core cur.addr).leave h.pmwinEnable, ?_, ?_, _, nodes3,
    hL3.of_eq rfl (by funext c; cases c <;> rfl), fun r' => ?_, fun r' z hz => ?_⟩
  · unfold heapFreePm
    dsimp only [bind]
    have h0 : b.ptr ≠ 0 := ptr_ne_zero b
    have hcore' : h.enter.coreOfPtr chip b.ptr = some r.core := hcore
    have hpm : h.enter.pm = h.pm := rfl
    rw [if_neg h0, hcore', bind_some, hp, hpm, hread]
    dsimp only
    have hlast' : h.enter.IsInP0 ((b.stop - 1) * pcPerInstruction) ∨
      h.enter.IsInP1 chip ((b.stop - 1) * pcPerInstruction) := hlast
    rw [hend, if_neg (not_or.mpr ⟨fun hm => hm rfl, fun hl => hl hlast'⟩), hwalk1,
      bind_some, hjoin1]
    dsimp only
    rw [hwalk2, bind_some]
  · have hs1 := hbefore.same
    have hs2 := hafter.same
    refine ⟨rfl, ?_, hs2.heapPmStart.trans hs1.heapPmStart, hs2.heapPmEnd.trans hs1.heapPmEnd,
      hs2.heapPmP1Start.trans hs1.heapPmP1Start, hs2.heapPmP1End.trans hs1.heapPmP1End,
      hs2.addnlHeapPmP1Start.trans hs1.addnlHeapPmP1Start,
      hs2.addnlHeapPmP1End.trans hs1.addnlHeapPmP1End⟩
    change (joinAfter h2 _ _ _).blockCount - 1 = _
    rw [hs2.blockCount, hs1.blockCount]
    rfl
  · rw [update_idem]
    by_cases he : r' = r
    · rw [he, update_self]
      exact hafter.chain
    · rw [update_of_ne he]
      exact hco r'
  · rw [update_idem]
    by_cases he : r' = r
    · subst he
      have hnot : b ∉ l₁ ∧ b ∉ l₂ := by
        have hp := (hL.tiled r').pairwise
        rw [hr, pairwise_append, pairwise_cons] at hp
        have hself := b.start_lt_stop
        refine ⟨fun hm => ?_, fun hm => ?_⟩
        · have := hp.2.2 b hm b mem_cons_self
          omega
        · have := hp.2.1.1 b hm
          omega
      rw [update_self, hr, mem_append, mem_append, mem_cons, mem_cons,
        hbefore.used z hz, hafter.used z hz]
      have hcz : z ≠ cur' := fun he => by
        rw [he, hafter.free] at hz
        cases hz
      constructor
      · rintro (hm | hm | hm)
        · exact ⟨.inl hm, fun hzb => hnot.1 (hzb ▸ hm)⟩
        · exact absurd hm hcz
        · exact ⟨.inr (.inr hm), fun hzb => hnot.2 (hzb ▸ hm)⟩
      · rintro ⟨hm | hm | hm, hne⟩
        · exact .inl hm
        · exact absurd hm hne
        · exact .inr (.inr hm)
    · rw [update_of_ne he]
      refine ⟨fun hm => ⟨hm, fun hzb => he ?_⟩, fun hm => hm.1⟩
      exact (hL.eq_of_start hB (hzb ▸ hm) hb rfl).1

end Free

end Mh40.MallocPm
