import Mh40.PlMalloc.Allocation

/-!
# The block that an allocation chooses

`heap_alloc_internal` wants the shortest free block that is long enough, from one half of the heap
when there is one in it. A block of the other half counts as one byte shorter than the heap, but
its own length is what the search keeps as the best size once it has taken it.

* `chosen`: the block that the search ends with. `heapAllocInternal_eq`: it is the one taken.
* `Ranked`: what the search knows of it. It is the first block that is long enough, or a shorter
  one of the half; and no block of the half is shorter.
* `bestFit_iff`: the choice is right exactly when a block of the other half does not come first in
  the list with a length that no block of the half is below.
* `allocated_inside`: an allocation fails only when no free block is long enough.
-/

namespace Mh40.PlMalloc

open Lib List Option

/-- The half of the heap that a request prefers. -/
def MemoryMap.Prefers (c : MemoryMap) (name : HeapName) (topDown : Bool) (node : ℕ) : Prop :=
  if topDown then c.heapMidpoint name ≤ node else node < c.heapMidpoint name

instance (c : MemoryMap) (name : HeapName) (topDown : Bool) :
    DecidablePred (c.Prefers name topDown) := fun _ => by
  unfold MemoryMap.Prefers
  infer_instance

/-- `pbest` after the loop of `heap_alloc_internal`, with what it points to. -/
def chosen (c : MemoryMap) (h : HydraHeap) (size : ℕ) (name : HeapName) (topDown : Bool) :
    Option (Option Link) := do
  let nodes ← walk (nextOf h.mem) (c.fuel name) (h.freelist name)
  let s := nodes.foldl (searchStep c h.mem (c.needed size) name topDown)
    ⟨none, c.heapSize name, .freelist⟩
  some s.pbest

/-- The block chosen is the one that is taken. -/
theorem heapAllocInternal_eq (c : MemoryMap) (h : HydraHeap) (size : ℕ) (name : HeapName)
    (topDown : Bool) (owner : ℕ) :
    heapAllocInternal c h size name topDown owner = (chosen c h size name topDown).map fun
      | none => (0, h)
      | some pbest => takeBlock c h name topDown pbest (c.needed size) owner := by
  unfold heapAllocInternal chosen
  dsimp only [bind]
  cases walk (nextOf h.mem) (c.fuel name) (h.freelist name) with
  | none => rfl
  | some nodes =>
    rw [bind_some, bind_some, map_some]
    generalize nodes.foldl (searchStep c h.mem (c.needed size) name topDown)
      ⟨none, c.heapSize name, .freelist⟩ = s
    cases s.pbest <;> rfl

/-! ## The rank of a block -/

section Rank

variable {c : MemoryMap} {mem : ℕ → ℕ} {size : ℕ} {name : HeapName} {topDown : Bool}
  {done : List ℕ} {s : Search} {p q : ℕ}

/-- The first block that is long enough. -/
def firstFit (mem : ℕ → ℕ) (size : ℕ) (nodes : List ℕ) : Option ℕ :=
  nodes.find? fun p => size ≤ mem p

/-- A block among those that the search has passed, and the others. -/
structure Ranked (c : MemoryMap) (mem : ℕ → ℕ) (size : ℕ) (name : HeapName) (topDown : Bool)
    (done : List ℕ) (q : ℕ) : Prop where
  fits : size ≤ mem q
  first : ∃ first, firstFit mem size done = some first ∧
    (q = first ∨ c.Prefers name topDown q ∧ mem q < mem first)
  shortest : ∀ p ∈ done, size ≤ mem p → c.Prefers name topDown p → mem q ≤ mem p

theorem firstFit_concat (done : List ℕ) (p : ℕ) : firstFit mem size (done ++ [p]) =
    (firstFit mem size done).or (if size ≤ mem p then some p else none) := by
  unfold firstFit
  rw [find?_append, find?_singleton]
  simp only [decide_eq_true_eq]

theorem firstFit_eq_none_iff {nodes : List ℕ} :
    firstFit mem size nodes = none ↔ ∀ p ∈ nodes, mem p < size := by
  unfold firstFit
  rw [find?_eq_none]
  simp only [decide_eq_true_eq, Nat.not_le]

/-- The first block that is long enough is taken, whichever half it is in. -/
theorem ranked_first (hnone : ∀ p ∈ done, mem p < size) (hp : size ≤ mem p) :
    Ranked c mem size name topDown (done ++ [p]) p where
  fits := hp
  first := by
    refine ⟨p, ?_, .inl rfl⟩
    rw [firstFit_concat, firstFit_eq_none_iff.mpr hnone, if_pos hp]
    rfl
  shortest x hx hfit _ := by
    rcases mem_append.mp hx with hx | hx
    · exact absurd hfit (Nat.not_le.mpr (hnone x hx))
    · rw [mem_singleton.mp hx]

/-- A block that is not better changes nothing. -/
theorem Ranked.keep (h : Ranked c mem size name topDown done q)
    (hp : size ≤ mem p → c.Prefers name topDown p → mem q ≤ mem p) :
    Ranked c mem size name topDown (done ++ [p]) q where
  fits := h.fits
  first := by
    obtain ⟨first, hfirst, hq⟩ := h.first
    refine ⟨first, ?_, hq⟩
    rw [firstFit_concat, hfirst]
    rfl
  shortest x hx hfit hpref := by
    rcases mem_append.mp hx with hx | hx
    · exact h.shortest x hx hfit hpref
    · obtain rfl := mem_singleton.mp hx
      exact hp hfit hpref

/-- A shorter block of the half takes its place. -/
theorem Ranked.better (h : Ranked c mem size name topDown done q) (hp : size ≤ mem p)
    (hpref : c.Prefers name topDown p) (hlt : mem p < mem q) :
    Ranked c mem size name topDown (done ++ [p]) p where
  fits := hp
  first := by
    obtain ⟨first, hfirst, hq⟩ := h.first
    refine ⟨first, ?_, .inr ⟨hpref, ?_⟩⟩
    · rw [firstFit_concat, hfirst]
      rfl
    · rcases hq with rfl | ⟨-, hq⟩
      · exact hlt
      · exact Nat.lt_trans hlt hq
  shortest x hx hfit hxpref := by
    rcases mem_append.mp hx with hx | hx
    · exact Nat.le_trans (Nat.le_of_lt hlt) (h.shortest x hx hfit hxpref)
    · rw [mem_singleton.mp hx]

end Rank

/-! ## The search -/

section Search

variable {c : MemoryMap} {mem : ℕ → ℕ} {size : ℕ} {name : HeapName} {topDown : Bool}
  {done : List ℕ} {s : Search}

theorem searchStep_eq (s : Search) (p : ℕ) : searchStep c mem size name topDown s p =
    if size ≤ mem p ∧
        (if c.Prefers name topDown p then mem p else c.heapSize name - 1) < s.bestsize
      then ⟨some s.pnode, mem p, .next p⟩ else { s with pnode := .next p } := by
  have hsize : (if c.Prefers name topDown p then mem p else c.heapSize name - 1) =
      if topDown then if p < c.heapMidpoint name then c.heapSize name - 1 else mem p
      else if c.heapMidpoint name ≤ p then c.heapSize name - 1 else mem p := by
    unfold MemoryMap.Prefers
    cases topDown with
    | true =>
      simp only [if_true]
      split_ifs <;> first | rfl | omega
    | false =>
      simp only [Bool.false_eq_true, if_false]
      split_ifs <;> first | rfl | omega
  rw [hsize]
  unfold searchStep
  dsimp only
  split_ifs <;> rfl

/-- What the search knows of the block that it has chosen. -/
structure Ranking (c : MemoryMap) (mem : ℕ → ℕ) (size : ℕ) (name : HeapName) (topDown : Bool)
    (done : List ℕ) (s : Search) : Prop where
  pnode : s.pnode = cell done
  none_fits : s.pbest = none → s.bestsize = c.heapSize name ∧ ∀ p ∈ done, mem p < size
  ranked : ∀ link, s.pbest = some link → ∃ n₁ q n₂, done = n₁ ++ q :: n₂ ∧ link = cell n₁ ∧
    s.bestsize = mem q ∧ mem q < c.heapSize name ∧ Ranked c mem size name topDown done q

theorem Ranking.step (h : Ranking c mem size name topDown done s) {p : ℕ}
    (hp : mem p < c.heapSize name) :
    Ranking c mem size name topDown (done ++ [p])
      (searchStep c mem size name topDown s p) := by
  rw [searchStep_eq]
  have hlast : Ranked c mem size name topDown (done ++ [p]) p →
      ∃ n₁ q n₂, done ++ [p] = n₁ ++ q :: n₂ ∧ s.pnode = cell n₁ ∧ mem p = mem q ∧
        mem q < c.heapSize name ∧ Ranked c mem size name topDown (done ++ [p]) q :=
    fun hr => ⟨done, p, [], rfl, h.pnode, rfl, hp, hr⟩
  cases hbest : s.pbest with
  | none =>
    obtain ⟨hsize, hnone⟩ := h.none_fits hbest
    by_cases hfit : size ≤ mem p
    · -- the first block that is long enough: both of its sizes are below that of the heap
      have hlt : (if c.Prefers name topDown p then mem p else c.heapSize name - 1) <
          s.bestsize := by
        rw [hsize]
        split_ifs <;> omega
      rw [if_pos ⟨hfit, hlt⟩]
      refine ⟨(cell_concat done p).symm, fun h0 => absurd h0 (some_ne_none _), ?_⟩
      rintro link hlink
      obtain rfl := some.inj hlink
      exact hlast (ranked_first hnone hfit)
    · rw [if_neg fun hand => hfit hand.1]
      refine ⟨(cell_concat done p).symm, fun _ => ⟨hsize, fun x hx => ?_⟩, fun link hlink => ?_⟩
      · rcases mem_append.mp hx with hx | hx
        · exact hnone x hx
        · rw [mem_singleton.mp hx]
          exact Nat.not_le.mp hfit
      · cases hlink
  | some link =>
    obtain ⟨n₁, q, n₂, hdone, hlink, hsize, hq, hrank⟩ := h.ranked link hbest
    by_cases hgood : size ≤ mem p ∧ c.Prefers name topDown p ∧ mem p < mem q
    · obtain ⟨hfit, hpref, hlt⟩ := hgood
      rw [if_pos ⟨hfit, by rw [if_pos hpref, hsize]; exact hlt⟩]
      refine ⟨(cell_concat done p).symm, fun h0 => absurd h0 (some_ne_none _), ?_⟩
      rintro link' hlink'
      obtain rfl := some.inj hlink'
      exact hlast (hrank.better hfit hpref hlt)
    · -- a block of the other half counts as at least as long as any
      have hno : ¬ (size ≤ mem p ∧
          (if c.Prefers name topDown p then mem p else c.heapSize name - 1) < s.bestsize) := by
        rintro ⟨hfit, hlt⟩
        rw [hsize] at hlt
        split_ifs at hlt with hpref
        · exact hgood ⟨hfit, hpref, hlt⟩
        · omega
      rw [if_neg hno]
      refine ⟨(cell_concat done p).symm, fun h0 => ?_, fun link' hlink' => ?_⟩
      · cases h0
      · obtain rfl := some.inj hlink'
        refine ⟨n₁, q, n₂ ++ [p], by rw [hdone]; simp, hlink, hsize, hq, hrank.keep ?_⟩
        intro hfit hpref
        exact Nat.not_lt.mp fun hlt => hgood ⟨hfit, hpref, hlt⟩

variable (size topDown) in
/-- **The search.** -/
theorem ranking_search (nodes : List ℕ) (hlt : ∀ p ∈ nodes, mem p < c.heapSize name) :
    Ranking c mem size name topDown nodes
      (nodes.foldl (searchStep c mem size name topDown) ⟨none, c.heapSize name, .freelist⟩) := by
  induction nodes using List.reverseRecOn with
  | nil =>
    refine ⟨rfl, fun _ => ⟨rfl, fun p hp => absurd hp not_mem_nil⟩, fun link hlink => ?_⟩
    cases hlink
  | append_singleton done p ih =>
    rw [foldl_concat]
    exact (ih fun x hx => hlt x (mem_append_left _ hx)).step
      (hlt p (mem_append_right _ mem_cons_self))

end Search

/-! ## The best fit -/

section BestFit

variable {c : MemoryMap} {h : HydraHeap} {name : HeapName} {tiles : List Block} {nodes : List ℕ}

/-- A free block of the half that the request prefers, long enough for it. -/
structure Candidate (c : MemoryMap) (h : HydraHeap) (size : ℕ) (name : HeapName)
    (topDown : Bool) (nodes : List ℕ) (p : ℕ) : Prop where
  mem : p ∈ nodes
  fits : c.needed size ≤ h.mem p
  prefers : c.Prefers name topDown p

/-- A shortest block of the half is chosen, and one of the other half only when there is none. -/
structure BestFit (c : MemoryMap) (h : HydraHeap) (size : ℕ) (name : HeapName) (topDown : Bool)
    (nodes : List ℕ) : Prop where
  shortest : ∀ p, Candidate c h size name topDown nodes p →
    ∃ link, chosen c h size name topDown = some (some link) ∧
      Candidate c h size name topDown nodes (h.deref name link) ∧
      h.mem (h.deref name link) ≤ h.mem p
  otherHalf : ∀ link, chosen c h size name topDown = some (some link) →
    ¬ c.Prefers name topDown (h.deref name link) →
    ∀ p, ¬ Candidate c h size name topDown nodes p

/-- The first block of the list that is long enough is in the half, or longer than one that is. -/
def FirstGivesWay (c : MemoryMap) (h : HydraHeap) (size : ℕ) (name : HeapName) (topDown : Bool)
    (nodes : List ℕ) : Prop :=
  ∀ first, firstFit h.mem (c.needed size) nodes = some first →
    c.Prefers name topDown first ∨
      ∃ p, Candidate c h size name topDown nodes p ∧ h.mem p < h.mem first

/-- The block chosen, with its rank. -/
theorem chosen_spec (hh : Heap c h name tiles nodes) (size : ℕ) (topDown : Bool) :
    (chosen c h size name topDown = some none ∧ ∀ p ∈ nodes, h.mem p < c.needed size) ∨
      ∃ link, chosen c h size name topDown = some (some link) ∧ h.deref name link ∈ nodes ∧
        Ranked c h.mem (c.needed size) name topDown nodes (h.deref name link) := by
  have hlt : ∀ p ∈ nodes, h.mem p < c.heapSize name := by
    intro p hp
    obtain ⟨z, hz, hf, rfl⟩ := hh.layout.free_of_mem_nodes hp
    rw [hh.layout.length_free hz hf]
    exact hh.length_lt hz
  have hs := ranking_search (c.needed size) topDown nodes hlt
  unfold chosen
  dsimp only [bind]
  rw [walk_nodes hh, bind_some]
  generalize nodes.foldl (searchStep c h.mem (c.needed size) name topDown)
    ⟨none, c.heapSize name, .freelist⟩ = s at hs ⊢
  cases hp : s.pbest with
  | none => exact .inl ⟨rfl, (hs.none_fits hp).2⟩
  | some link =>
    obtain ⟨n₁, q, n₂, hnodes, rfl, -, -, hrank⟩ := hs.ranked link hp
    have hderef : h.deref name (cell n₁) = q := deref_cell (hnodes ▸ hh.layout.linked)
    refine .inr ⟨cell n₁, rfl, ?_, ?_⟩
    · rw [hderef, hnodes]
      exact mem_append_right _ mem_cons_self
    · rw [hderef]
      exact hrank

/-- What is taken of a block lies behind its header, and inside of it. -/
theorem takeBlock_inside {link : Link} {z : Block} {size : ℕ} (hderef : h.deref name link = z.start)
    (hlength : h.mem z.start = z.length) (hfits : size ≤ z.length) (topDown : Bool) (owner : ℕ) :
    z.start + c.build.nodeSize ≤ (takeBlock c h name topDown link size owner).1 ∧
      (takeBlock c h name topDown link size owner).1 + size ≤ z.stop c.build := by
  unfold takeBlock finishAlloc Block.stop
  dsimp only
  rw [hderef, hlength]
  split_ifs <;> dsimp only <;> omega

/-- A request that does not wrap around is only made longer. -/
theorem le_needed {size : ℕ} (h : size + 3 + c.build.guardSize < 2 ^ 32) :
    size + c.build.guardSize ≤ c.needed size := by
  have hround : size ≤ roundUpToWholeWords size ∧ roundUpToWholeWords size ≤ size + 3 := by
    unfold roundUpToWholeWords addrPerWord
    omega
  rw [MemoryMap.needed, Nat.mod_eq_of_lt (by omega)]
  exact Nat.add_le_add_right hround.1 _

/-- **An allocation** fails exactly when no free block is long enough, and then leaves the heap as it
was; else what it returns lies in a free block, with all the bytes asked for and the guard, if their
number does not wrap around. -/
theorem allocated_inside (hh : Heap c h name tiles nodes) (size : ℕ) (topDown : Bool) (owner : ℕ) :
    ∃ p h', heapAllocInternal c h size name topDown owner = some (p, h') ∧
      (p = 0 ↔ ∀ z ∈ tiles, z.free = true → z.length < c.needed size) ∧ (p = 0 → h' = h) ∧
      (p ≠ 0 → ∃ z ∈ tiles, z.free = true ∧ z.start + c.build.nodeSize ≤ p ∧
        p + c.needed size ≤ z.stop c.build ∧
        (size + 3 + c.build.guardSize < 2 ^ 32 → p + size + c.build.guardSize ≤ z.stop c.build)) := by
  rw [heapAllocInternal_eq]
  rcases chosen_spec hh size topDown with ⟨hnone, hshort⟩ | ⟨link, hsome, hmem, hrank⟩
  · rw [hnone]
    refine ⟨0, h, rfl, iff_of_true rfl fun z hz hf => ?_, fun _ => rfl, fun h0 => absurd rfl h0⟩
    rw [← hh.layout.length_free hz hf]
    exact hshort _ ((hh.layout.mem_nodes _).mpr ⟨z, hz, hf, rfl⟩)
  · obtain ⟨z, hz, hf, hstart⟩ := hh.layout.free_of_mem_nodes hmem
    have hlength := hh.layout.length_free hz hf
    have hfits := hrank.fits
    rw [hstart, hlength] at hfits
    have hinside := takeBlock_inside hstart hlength hfits topDown owner (c := c)
    have hne : (takeBlock c h name topDown link (c.needed size) owner).1 ≠ 0 := by
      have := eight_le_nodeSize c.build
      omega
    have hbytes (hsize : size + 3 + c.build.guardSize < 2 ^ 32) :
        (takeBlock c h name topDown link (c.needed size) owner).1 + size + c.build.guardSize ≤
          z.stop c.build := by
      have := le_needed hsize
      omega
    rw [hsome]
    exact ⟨_, _, rfl, iff_of_false hne fun hall => Nat.not_le.mpr (hall z hz hf) hfits,
      fun h0 => absurd h0 hne, fun _ => ⟨z, hz, hf, hinside.1, hinside.2, hbytes⟩⟩

/-- **The best fit.** Of a heap with its free blocks in any order, a shortest block of the preferred
half is chosen exactly when there is none, or the first block of the list that is long enough does
not keep its place. -/
theorem bestFit_iff (hh : Heap c h name tiles nodes) (size : ℕ) (topDown : Bool) :
    BestFit c h size name topDown nodes ↔
      (∀ p, ¬ Candidate c h size name topDown nodes p) ∨
        FirstGivesWay c h size name topDown nodes := by
  rcases chosen_spec hh size topDown with ⟨hnone, hshort⟩ | ⟨link, hsome, hmem, hrank⟩
  · have hno : ∀ p, ¬ Candidate c h size name topDown nodes p := fun p hp =>
      absurd hp.fits (Nat.not_le.mpr (hshort p hp.mem))
    exact ⟨fun _ => .inl hno,
      fun _ => ⟨fun p hp => absurd hp (hno p), fun _ _ _ => hno⟩⟩
  · obtain ⟨first, hfirst, hq⟩ := hrank.first
    constructor
    · intro hbest
      by_cases hany : ∃ p, Candidate c h size name topDown nodes p
      · obtain ⟨p, hp⟩ := hany
        right
        intro first' hfirst'
        obtain rfl := Option.some.inj (hfirst.symm.trans hfirst')
        obtain ⟨link', hlink', hcand, -⟩ := hbest.shortest p hp
        obtain rfl := Option.some.inj (Option.some.inj (hsome.symm.trans hlink'))
        rcases hq with hq | ⟨-, hlt⟩
        · exact .inl (hq ▸ hcand.prefers)
        · exact .inr ⟨_, hcand, hlt⟩
      · exact .inl fun p hp => hany ⟨p, hp⟩
    · intro hcond
      have hhalf : ∀ p, Candidate c h size name topDown nodes p →
          c.Prefers name topDown (h.deref name link) := by
        intro p hp
        rcases hq with hq | ⟨hpref, -⟩
        · rcases hcond with hno | hway
          · exact absurd hp (hno p)
          · rcases hway first hfirst with hpref | ⟨p', hp', hlt⟩
            · exact hq ▸ hpref
            · have hle := hrank.shortest p' hp'.mem hp'.fits hp'.prefers
              rw [hq] at hle
              exact absurd hlt (Nat.not_lt.mpr hle)
        · exact hpref
      refine ⟨fun p hp => ⟨link, hsome, ⟨hmem, hrank.fits, hhalf p hp⟩,
        hrank.shortest p hp.mem hp.fits hp.prefers⟩, fun link' hlink' hnot p hp => ?_⟩
      obtain rfl := Option.some.inj (Option.some.inj (hsome.symm.trans hlink'))
      exact hnot (hhalf p hp)

/-- A heap of 72 bytes and nothing else. -/
def smallMap : MemoryMap where
  build := ⟨false, false, false⟩
  heapStart
    | .main => 4096
    | _ => 0
  heapSize
    | .main => 72
    | _ => 0
  sramEnabled := false
  aligned name := by cases name <;> decide
  apart name name' hne hpos hpos' := by
    cases name <;> cases name' <;> first | exact absurd rfl hne | exact absurd hpos (by decide) |
      exact absurd hpos' (by decide)
  dm_le name _ := by cases name <;> decide
  ext_le := by decide

/-- Two free blocks of 8 bytes, at its ends, and a used one between them. -/
def smallHeap : HydraHeap where
  mem i :=
    if i = 4096 then 8 else if i = 4100 then 4152
    else if i = 4112 then 32 else if i = 4116 then magicWordWithOwner 0
    else if i = 4152 then 8 else 0
  freelist
    | .main => 4096
    | _ => 0
  heapFree
    | .main => 16
    | _ => 0

theorem smallHeap_formed : Heap smallMap smallHeap .main
    [⟨4096, 8, true⟩, ⟨4112, 32, false⟩, ⟨4152, 8, true⟩] [4096, 4152] where
  layout := {
    tiled := ⟨rfl, by decide, rfl, by decide, rfl, by decide, rfl⟩
    formed := by
      intro z hz
      simp only [mem_cons, not_mem_nil, or_false] at hz
      rcases hz with rfl | rfl | rfl <;> exact ⟨by decide, by decide, by decide, by decide⟩
    headed := by
      intro z hz
      simp only [mem_cons, not_mem_nil, or_false] at hz
      rcases hz with rfl | rfl | rfl <;> exact ⟨by decide, by decide⟩
    linked := ⟨rfl, by decide, rfl, by decide, rfl⟩
    nodup := by decide
    mem_nodes := by
      intro p
      simp only [mem_cons, not_mem_nil, or_false]
      constructor
      · rintro (rfl | rfl)
        · exact ⟨_, .inl rfl, rfl, rfl⟩
        · exact ⟨_, .inr (.inr rfl), rfl, rfl⟩
      · rintro ⟨z, rfl | rfl | rfl, hf, rfl⟩
        · exact .inl rfl
        · cases hf
        · exact .inr rfl }
  heapFree := by decide

/-- A request that prefers the upper half, which is given the block of the lower half: it comes
first in the list, and the other one is not shorter. -/
theorem not_bestFit : ∃ tiles nodes, Heap smallMap smallHeap .main tiles nodes ∧
    ¬ BestFit smallMap smallHeap 8 .main true nodes := by
  refine ⟨_, _, smallHeap_formed, fun hbest => ?_⟩
  have hchosen : chosen smallMap smallHeap 8 .main true = some (some .freelist) := by decide
  refine hbest.otherHalf _ hchosen (by decide) 4152 ⟨by decide, by decide, by decide⟩

/-- A request for the lower half of that heap is given a block of it. -/
theorem bestFit_iff_smallHeap : BestFit smallMap smallHeap 8 .main false [4096, 4152] ↔
    (∀ p, ¬ Candidate smallMap smallHeap 8 .main false [4096, 4152] p) ∨
      FirstGivesWay smallMap smallHeap 8 .main false [4096, 4152] :=
  bestFit_iff smallHeap_formed 8 false

theorem allocated_inside_smallHeap : ∃ p h',
    heapAllocInternal smallMap smallHeap 7 .main true 3 = some (p, h') ∧ p ≠ 0 ∧
      ∃ z ∈ [(⟨4096, 8, true⟩ : Block), ⟨4112, 32, false⟩, ⟨4152, 8, true⟩], z.free = true ∧
        z.start + 8 ≤ p ∧ p + 7 ≤ z.stop smallMap.build := by
  obtain ⟨p, h', halloc, hnull, -, hinside⟩ := allocated_inside smallHeap_formed 7 true 3
  have hne : p ≠ 0 := fun h0 => absurd (hnull.mp h0 ⟨4096, 8, true⟩ (by decide) rfl) (by decide)
  obtain ⟨z, hz, hf, hstart, -, hstop⟩ := hinside hne
  exact ⟨p, h', halloc, hne, z, hz, hf, hstart, hstop (by decide)⟩

end BestFit

end Mh40.PlMalloc
