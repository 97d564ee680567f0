import Mh40.MallocPm.Operations

/-!
# The heaps as they are set up

* `Config.bounds`: the words of the heaps of a configuration.
* `Config.Regular`: heaps that start at a word and are not a single word.
* `init_spec`: after the initialisation every heap that is not empty is one free block.
-/

namespace Mh40.MallocPm

open Lib List Function

/-! ## The heaps of a configuration -/

/-- The words of each heap; a heap that the configuration does not have is empty. -/
def Config.bounds (c : Config) : Bounds where
  lo
    | .p0 => c.heapStart / pcPerInstruction
    | .p1 => if c.multipleCores then c.p1HeapStart / pcPerInstruction else 0
    | .above =>
      if c.multipleCores ∧ c.chip.usableAboveP1Cache ∧ c.chip.usableStart < c.chip.pmRamEndAddress
      then c.chip.usableStart / pcPerInstruction else 0
  hi
    | .p0 =>
      (if c.multipleCores then c.p1HeapStart else c.chip.pmRamEndAddress) / pcPerInstruction
    | .p1 => if c.multipleCores then c.chip.pmRamP1CacheStartAddress / pcPerInstruction else 0
    | .above =>
      if c.multipleCores ∧ c.chip.usableAboveP1Cache ∧ c.chip.usableStart < c.chip.pmRamEndAddress
      then c.chip.pmRamEndAddress / pcPerInstruction else 0

/-- The heap of the first core starts at a word. It has room for a header, or with two cores may be
empty; it starts no later than the bank of the cache, and not one word before the other heap. -/
def Config.Regular (c : Config) : Prop :=
  0 < c.heapStart ∧ c.heapStart % 4 = 0 ∧
    if c.multipleCores then
      c.heapStart ≤ c.chip.pmRamP1CacheStartAddress / c.chip.pmBankSize * c.chip.pmBankSize ∧
        c.heapStart + 4 ≠ c.p1HeapStart
    else c.heapStart + 8 ≤ c.chip.pmRamEndAddress

instance (c : Config) : Decidable c.Regular := inferInstanceAs (Decidable (_ ∧ _ ∧ ite _ _ _))

section Config

variable {c : Config}

theorem numP1Banks_le (c : Config) : c.numP1Banks ≤ c.chip.numberPmBanks := by
  have h1 := c.chip.one_bank
  unfold Config.numP1Banks
  split
  · split_ifs with h
    · exact h1
    · exact Nat.not_lt.mp h
  · exact h1

theorem bankSize_pos (chip : Chip) : 0 < chip.pmBankSize := Nat.two_pow_pos _

/-- A bank boundary below the one of `x` is at least a bank below it. -/
theorem up_le {bank u x : ℕ} (h : u < x / bank * bank) :
    u / bank * bank + bank ≤ x / bank * bank := by
  have hlt : u / bank < x / bank := Nat.div_lt_of_lt_mul (by rwa [Nat.mul_comm])
  calc u / bank * bank + bank = (u / bank + 1) * bank := (Nat.succ_mul ..).symm
    _ ≤ x / bank * bank := Nat.mul_le_mul_right bank hlt

/-- The heap of the second core starts at a bank, between the start of the other heap and the
cache. -/
theorem p1HeapStart_spec (hc : c.heapStart ≤
    c.chip.pmRamP1CacheStartAddress / c.chip.pmBankSize * c.chip.pmBankSize) :
    c.heapStart ≤ c.p1HeapStart ∧ c.p1HeapStart % c.chip.pmBankSize = 0 ∧
      c.p1HeapStart ≤ c.chip.pmRamP1CacheStartAddress / c.chip.pmBankSize * c.chip.pmBankSize := by
  have hpos := bankSize_pos c.chip
  have hbanks : c.chip.pmBankSize * c.numP1Banks ≤ c.chip.pmRamP1CacheStartAddress :=
    Nat.le_trans (Nat.mul_le_mul_left _ (numP1Banks_le c)) c.chip.banks_le_cache
  unfold Config.p1HeapStart
  dsimp only
  generalize c.chip.pmBankSize = bank at *
  generalize c.chip.pmRamP1CacheStartAddress = cache at *
  generalize c.heapStart = hs at *
  have hcache := Nat.div_add_mod cache bank
  rw [Nat.mul_comm] at hcache
  by_cases hn : c.numP1Banks = 0
  · have hn' : ¬ c.numP1Banks ≠ 0 := fun h => h hn
    simp only [if_neg hn', Nat.add_zero]
    split_ifs with hm
    · exact ⟨hc, Nat.mul_mod_left .., Nat.le_refl _⟩
    · have hm : cache % bank = 0 := Decidable.not_not.mp hm
      exact ⟨by omega, hm, by omega⟩
  · simp only [if_pos hn]
    have hle : bank ≤ bank * c.numP1Banks := Nat.le_mul_of_pos_right _ (Nat.pos_of_ne_zero hn)
    -- the start before it is rounded up
    have hstart : ∃ u, (if cache - bank * c.numP1Banks < hs then hs
        else cache - bank * c.numP1Banks) = u ∧ hs ≤ u ∧ u ≤ cache / bank * bank := by
      split_ifs with hlt
      · exact ⟨hs, rfl, Nat.le_refl _, hc⟩
      · refine ⟨_, rfl, Nat.not_lt.mp hlt, ?_⟩
        have := Nat.mod_lt cache hpos
        omega
    obtain ⟨u, hu, hsu, hut⟩ := hstart
    rw [hu]
    have hdiv := Nat.div_add_mod u bank
    rw [Nat.mul_comm] at hdiv
    split_ifs with hm
    · have hlt := Nat.mod_lt u hpos
      have hne : u ≠ cache / bank * bank := fun he => hm (by rw [he, Nat.mul_mod_left])
      refine ⟨by omega, ?_, up_le (by omega)⟩
      rw [Nat.add_mod_right, Nat.mul_mod_left]
    · exact ⟨hsu, Decidable.not_not.mp hm, hut⟩

/-- Where the heaps are, with two cores. -/
structure TwoHeaps (c : Config) : Prop where
  start_pos : 0 < c.heapStart
  start_aligned : c.heapStart % 4 = 0
  start_le : c.heapStart ≤ c.p1HeapStart
  not_word : c.heapStart + 4 ≠ c.p1HeapStart
  p1_aligned : c.p1HeapStart % 4 = 0
  p1_le : c.p1HeapStart ≤ c.chip.pmRamP1CacheStartAddress
  not_word' : c.p1HeapStart + 4 ≠ c.chip.pmRamP1CacheStartAddress

theorem Config.Regular.twoHeaps (h : c.Regular) (hm : c.multipleCores = true) : TwoHeaps c := by
  obtain ⟨hpos, hal, h⟩ := h
  rw [if_pos hm] at h
  obtain ⟨hle, hbank, hle'⟩ := p1HeapStart_spec h.1
  have hbits := c.chip.bank_bits
  have h8 : c.chip.pmBankSize = 8 * 2 ^ (c.chip.pmBankBits - 3) := by
    unfold Chip.pmBankSize
    rw [show (8 : ℕ) = 2 ^ 3 from rfl, ← Nat.pow_add]
    congr 1
    omega
  have hp1 : c.p1HeapStart % 4 = 0 := by
    have hdvd : c.chip.pmBankSize ∣ c.p1HeapStart := Nat.dvd_of_mod_eq_zero hbank
    refine Nat.mod_eq_zero_of_dvd (Nat.dvd_trans ?_ hdvd)
    rw [h8]
    exact ⟨2 * 2 ^ (c.chip.pmBankBits - 3), by omega⟩
  have hT := Nat.div_mul_le_self c.chip.pmRamP1CacheStartAddress c.chip.pmBankSize
  refine ⟨hpos, hal, hle, h.2, hp1, Nat.le_trans hle' hT, fun he => ?_⟩
  have hbefore := c.chip.before_cache
  have hbig : 8 ≤ c.chip.pmBankSize := by
    have := Nat.two_pow_pos (c.chip.pmBankBits - 3)
    omega
  refine hbefore ?_
  change _ % c.chip.pmBankSize = 4
  rw [← he, Nat.add_mod, hbank, Nat.zero_add, Nat.mod_mod, Nat.mod_eq_of_lt (by omega)]

theorem usableStart_aligned (chip : Chip) : chip.usableStart % 4 = 0 := by
  have h₁ := chip.cache_aligned
  have h2 := chip.cache_bank_aligned
  unfold Chip.usableStart
  omega

/-- The facts about the heaps in words. -/
structure Heaps (c : Config) : Prop where
  start : c.heapStart = c.bounds.lo .p0 * pcPerInstruction
  pos : 0 < c.bounds.lo .p0
  le : ∀ r, c.bounds.lo r ≤ c.bounds.hi r
  /-- A heap is empty or has room for a header. -/
  long : ∀ r, c.bounds.lo r = c.bounds.hi r ∨ c.bounds.lo r + nodeSize ≤ c.bounds.hi r
  hi_le : ∀ r, c.bounds.hi r * pcPerInstruction ≤ c.chip.pmRamEndAddress
  p0_le_p1 : c.bounds.lo .p1 < c.bounds.hi .p1 → c.bounds.hi .p0 ≤ c.bounds.lo .p1
  p0_le_above : c.bounds.lo .above < c.bounds.hi .above → c.bounds.hi .p0 ≤ c.bounds.lo .above
  p1_lt_above : c.bounds.lo .above < c.bounds.hi .above → c.bounds.hi .p1 < c.bounds.lo .above

theorem bounds_of_one (hm : c.multipleCores = false) :
    c.bounds.lo .p0 = c.heapStart / 4 ∧ c.bounds.hi .p0 = c.chip.pmRamEndAddress / 4 ∧
      c.bounds.lo .p1 = 0 ∧ c.bounds.hi .p1 = 0 ∧ c.bounds.lo .above = 0 ∧
      c.bounds.hi .above = 0 := by
  simp [Config.bounds, hm, pcPerInstruction]

theorem bounds_of_two (hm : c.multipleCores = true) :
    c.bounds.lo .p0 = c.heapStart / 4 ∧ c.bounds.hi .p0 = c.p1HeapStart / 4 ∧
      c.bounds.lo .p1 = c.p1HeapStart / 4 ∧
      c.bounds.hi .p1 = c.chip.pmRamP1CacheStartAddress / 4 := by
  simp [Config.bounds, hm, pcPerInstruction]

/-- What lies above the cache is a heap, or none. -/
theorem bounds_above (hm : c.multipleCores = true) :
    (c.chip.usableAboveP1Cache = true ∧ c.chip.usableStart < c.chip.pmRamEndAddress) ∧
        c.bounds.lo .above = c.chip.usableStart / 4 ∧
        c.bounds.hi .above = c.chip.pmRamEndAddress / 4 ∨
      ¬ (c.chip.usableAboveP1Cache = true ∧ c.chip.usableStart < c.chip.pmRamEndAddress) ∧
        c.bounds.lo .above = 0 ∧ c.bounds.hi .above = 0 := by
  by_cases hu : c.chip.usableAboveP1Cache = true ∧ c.chip.usableStart < c.chip.pmRamEndAddress <;>
    simp [Config.bounds, hm, hu, pcPerInstruction]

theorem Config.Regular.heaps (h : c.Regular) : Heaps c := by
  have h₁ := c.chip.cache_le_end
  have h2 := c.chip.cache_aligned
  have h3 := c.chip.end_aligned
  have h4 := usableStart_aligned c.chip
  have h5 := c.chip.after_cache
  have h6 := c.chip.cache_bank_pos
  have husable : c.chip.usableStart = c.chip.pmRamP1CacheStartAddress + c.chip.pmRamCacheBankSize :=
    rfl
  cases hm : c.multipleCores with
  | false =>
    have hreg := h
    obtain ⟨hpos, hal, h⟩ := hreg
    rw [if_neg (by rw [hm]; exact Bool.false_ne_true)] at h
    obtain ⟨hb1, hb2, hb3, hb4, hb5, hb6⟩ := bounds_of_one hm
    refine ⟨?_, ?_, fun r => ?_, fun r => ?_, fun r => ?_, ?_, ?_, ?_⟩
    all_goals
      (try cases r) <;> simp only [hb1, hb2, hb3, hb4, hb5, hb6, pcPerInstruction, nodeSize,
        true_or] <;> omega
  | true =>
    obtain ⟨hpos, hal, hle, hw, hal', hle', hw'⟩ := h.twoHeaps hm
    obtain ⟨hb1, hb2, hb3, hb4⟩ := bounds_of_two hm
    rcases bounds_above hm with ⟨hu, hb5, hb6⟩ | ⟨-, hb5, hb6⟩ <;>
      refine ⟨?_, ?_, fun r => ?_, fun r => ?_, fun r => ?_, ?_, ?_, ?_⟩
    all_goals
      (try cases r) <;> simp only [hb1, hb2, hb3, hb4, hb5, hb6, pcPerInstruction, nodeSize,
        true_or] <;> omega

/-- What lies above the cache, when it is a heap. -/
theorem above_eq (h : c.bounds.lo .above < c.bounds.hi .above) :
    c.chip.usableAboveP1Cache = true ∧
      c.chip.usableStart = c.bounds.lo .above * pcPerInstruction ∧
      c.chip.pmRamEndAddress = c.bounds.hi .above * pcPerInstruction := by
  have hstart := usableStart_aligned c.chip
  have hend := c.chip.end_aligned
  cases hm : c.multipleCores with
  | false =>
    obtain ⟨-, -, -, -, hlo, hhi⟩ := bounds_of_one hm
    omega
  | true =>
    rcases bounds_above hm with ⟨hu, hlo, hhi⟩ | ⟨-, hlo, hhi⟩
    · rw [hlo, hhi]
      unfold pcPerInstruction
      exact ⟨hu.1, by omega, by omega⟩
    · omega

/-- Heaps of which some may be left out. -/
theorem Heaps.valid (h : Heaps c) {hi : Region → ℕ}
    (hhi : ∀ r, hi r = c.bounds.hi r ∨ hi r = c.bounds.lo r) :
    Bounds.Valid ⟨c.bounds.lo, hi⟩ := by
  have hle : ∀ r, hi r ≤ c.bounds.hi r := fun r => by
    have := h.le r
    rcases hhi r with he | he <;> omega
  have hstart := h.pos
  have h₁ := h.p0_le_p1
  have h2 := h.p0_le_above
  have h3 := h.p1_lt_above
  have hle0 := hle .p0
  have hle1 := hle .p1
  have hle2 := hle .above
  have hlo := h.le .p0
  refine ⟨fun r hr => ?_, fun r => ?_, fun r r' hne hr hr' => ?_, fun r r' hne hc hr hr' => ?_⟩
  · have hr : c.bounds.lo r < c.bounds.hi r := Nat.lt_of_lt_of_le hr (hle r)
    change 0 < c.bounds.lo r
    cases r with
    | p0 => exact hstart
    | p1 =>
      have := h₁ hr
      omega
    | above =>
      have := h2 hr
      omega
  · exact Nat.lt_of_le_of_lt (Nat.le_trans (Nat.mul_le_mul_right _ (hle r)) (h.hi_le r))
      c.chip.end_lt
  · have hr1 : c.bounds.lo r < c.bounds.hi r := Nat.lt_of_lt_of_le hr (hle r)
    have hr2 : c.bounds.lo r' < c.bounds.hi r' := Nat.lt_of_lt_of_le hr' (hle r')
    dsimp only
    cases r <;> cases r' <;> first | exact absurd rfl hne | omega
  · have hr1 : c.bounds.lo r < c.bounds.hi r := Nat.lt_of_lt_of_le hr (hle r)
    have hr2 : c.bounds.lo r' < c.bounds.hi r' := Nat.lt_of_lt_of_le hr' (hle r')
    dsimp only at hr hr' ⊢
    cases r <;> cases r' <;> first | exact absurd rfl hne | omega | cases hc

end Config

/-! ## Initialisation -/

section Init

variable {c : Config} {h : PmHeap} {hi : Region → ℕ} {h' : PmHeap}

/-- The heaps up to `hi` are set up, each as one free block. -/
def Opened (c : Config) (h : PmHeap) (hi : Region → ℕ) : Prop :=
  ∃ tiles nodes, Layout ⟨c.bounds.lo, hi⟩ h.pm h.freelist tiles nodes ∧
    ∀ r, tiles r = [] ∨ ∃ b : Block, tiles r = [b] ∧ b.free = true

/-- One more heap. -/
theorem Opened.open (ho : Opened c h hi) (hc : Heaps c)
    (hhi : ∀ r, hi r = c.bounds.hi r ∨ hi r = c.bounds.lo r) {r : Region}
    (hr : hi r = c.bounds.lo r) (hlong : c.bounds.lo r + nodeSize ≤ c.bounds.hi r)
    (hpm : h'.pm = writeNodeToPm h.pm (c.bounds.lo r * pcPerInstruction)
      ⟨c.bounds.hi r - c.bounds.lo r - nodeSize, h.freelist r.core⟩)
    (hfree : h'.freelist = update h.freelist r.core (c.bounds.lo r * pcPerInstruction)) :
    Opened c h' (update hi r (c.bounds.hi r)) := by
  obtain ⟨tiles, nodes, hL, hone⟩ := ho
  have hB := hc.valid hhi
  have hB' : Bounds.Valid ⟨c.bounds.lo, update hi r (c.bounds.hi r)⟩ :=
    hc.valid fun r' => by
      by_cases he : r' = r
      · rw [he, update_self]
        exact .inl rfl
      · rw [update_of_ne he]
        exact hhi r'
  have hnil : tiles r = [] := by
    rcases hone r with hnil | ⟨b, hb, -⟩
    · exact hnil
    · have := hL.lo_lt_hi (r := r) (b := b) (by rw [hb]; exact mem_singleton_self b)
      dsimp only at this
      omega
  unfold nodeSize at hlong
  -- the new block is apart from those of the other heaps
  have hsep : ∀ r', ∀ b ∈ tiles r',
      b.stop ≤ c.bounds.lo r ∨ c.bounds.lo r + 2 ≤ b.start := by
    intro r' b hb
    have hne : r' ≠ r := fun he => by
      rw [he, hnil] at hb
      cases hb
    have hmem := (hL.tiled r').mem hb
    dsimp only at hmem
    have := hB'.apart r' r hne
    dsimp only at this
    rw [update_of_ne hne, update_self] at this
    have hlt := b.start_lt_stop
    have := this (by omega) (by omega)
    omega
  have hfar : ∀ r', ∀ b ∈ tiles r', ∀ i, (i = b.start ∨ i = b.start + 1) → h'.pm i = h.pm i := by
    intro r' b hb i hib
    have := hsep r' b hb
    unfold Block.stop nodeSize at this
    rw [hpm, writeNode_apply, if_neg (by omega), if_neg (by omega)]
  have hlink : ∀ c', ∀ p ∈ nodes c', nextOf h'.pm p = nextOf h.pm p := fun c' p hp =>
    hL.nextOf_eq hp fun r' _ b hb _ _ => hfar r' b hb _ (.inr rfl)
  have hlo : 0 < c.bounds.lo r := hB'.pos r (by
    dsimp only
    rw [update_self]
    omega)
  refine ⟨update tiles r
      ([] ++ ([⟨c.bounds.lo r, c.bounds.hi r - c.bounds.lo r - nodeSize, true⟩] ++ [])),
    update nodes r.core (c.bounds.lo r * pcPerInstruction :: nodes r.core),
    hL.change [] hB hnil (fun r' he => ⟨rfl, update_of_ne he ..⟩) ?_ (fun b hb => ?_)
      (fun b hb hf => ?_)
      (fun r' b hb _ => ⟨hfar r' b hb _ (.inl rfl), fun _ => hfar r' b hb _ (.inr rfl)⟩)
      (fun c' hc' => ⟨?_, hlink c'⟩) ?_ ?_ (fun p => ?_), fun r' => ?_⟩
  · refine ⟨rfl, Block.start_lt_stop _, ?_⟩
    change Block.stop _ = update hi r _ r
    rw [update_self]
    unfold Block.stop nodeSize
    dsimp only
    omega
  · obtain rfl := mem_singleton.mp hb
    rw [hpm, writeNode_apply, if_neg (Nat.succ_ne_self _).symm, if_pos rfl]
  · obtain rfl := mem_singleton.mp hb
    cases hf
  · rw [hfree, update_of_ne hc']
  · rw [hfree, update_self]
    refine ⟨rfl, Nat.mul_ne_zero hlo.ne' (by decide), ?_⟩
    rw [nextOf_addr, hpm, writeNode_apply, if_pos rfl, ← hpm]
    exact (hL.linked _).congr (hlink _)
  · refine nodup_cons.mpr ⟨fun hmem => ?_, hL.nodup _⟩
    obtain ⟨r', -, b, hb, -, heq⟩ := hL.free_of_mem_nodes hmem
    have := hsep r' b hb
    have := addr_inj heq
    have := b.start_lt_stop
    omega
  · simp [Block.addr, or_comm]
  · by_cases he : r' = r
    · subst he
      rw [update_self]
      exact .inr ⟨_, rfl, rfl⟩
    · rw [update_of_ne he]
      exact hone r'

theorem heapSize_eq {lo hi : ℕ} (hle : lo ≤ hi) (hlt : hi * pcPerInstruction < 2 ^ 32) :
    heapSize (lo * pcPerInstruction) (hi * pcPerInstruction) = hi - lo := by
  unfold heapSize pcPerInstruction at *
  omega

variable (h) in
theorem initAndAdjustPmHeap_eq {lo hi : ℕ} (next : ℕ) (hle : lo + nodeSize ≤ hi)
    (hlt : hi * pcPerInstruction < 2 ^ 32) :
    initAndAdjustPmHeap h (heapSize (lo * pcPerInstruction) (hi * pcPerInstruction))
        (lo * pcPerInstruction) next =
      (lo * pcPerInstruction,
        h.write (lo * pcPerInstruction) ⟨hi - lo - nodeSize, next⟩) := by
  have hadjust : lo * pcPerInstruction / 2 * 2 = lo * pcPerInstruction := by
    unfold pcPerInstruction
    omega
  have hlength : (hi - lo + 2 ^ 32 - nodeSize) % 2 ^ 32 = hi - lo - nodeSize := by
    unfold pcPerInstruction nodeSize at *
    omega
  unfold initAndAdjustPmHeap
  dsimp only
  rw [heapSize_eq (Nat.le_trans (Nat.le_add_right _ _) hle) hlt, hadjust, hlength]
  rfl

/-- The variables that say where the heaps are. -/
structure Vars (c : Config) (h : PmHeap) : Prop where
  heapPmStart : h.heapPmStart = c.bounds.lo .p0 * pcPerInstruction
  heapPmEnd : h.heapPmEnd = c.bounds.hi .p0 * pcPerInstruction
  heapPmP1Start : h.heapPmP1Start = c.bounds.lo .p1 * pcPerInstruction
  heapPmP1End : h.heapPmP1End = c.bounds.hi .p1 * pcPerInstruction

/-- The variables for what lies above the cache. -/
structure VarsAbove (c : Config) (h : PmHeap) : Prop where
  addnlHeapPmP1Start : h.addnlHeapPmP1Start = c.bounds.lo .above * pcPerInstruction
  addnlHeapPmP1End : h.addnlHeapPmP1End = c.bounds.hi .above * pcPerInstruction

theorem Vars.of_same (hv : Vars c h) (hs : Same h h') : Vars c h' :=
  ⟨hs.heapPmStart.trans hv.heapPmStart, hs.heapPmEnd.trans hv.heapPmEnd,
    hs.heapPmP1Start.trans hv.heapPmP1Start, hs.heapPmP1End.trans hv.heapPmP1End⟩

theorem VarsAbove.of_same (hv : VarsAbove c h) (hs : Same h h') : VarsAbove c h' :=
  ⟨hs.addnlHeapPmP1Start.trans hv.addnlHeapPmP1Start,
    hs.addnlHeapPmP1End.trans hv.addnlHeapPmP1End⟩

/-- Nothing is set up. -/
theorem opened_none (hp0 : h.freelistPm = 0) (hp1 : h.freelistPmP1 = 0) :
    Opened c h c.bounds.lo := by
  refine ⟨fun _ => [], fun _ => [], ⟨fun _ => rfl, fun _ _ hb => absurd hb not_mem_nil,
    fun _ _ hb => absurd hb not_mem_nil, fun c' => ?_, fun _ => nodup_nil,
    fun _ _ => ?_⟩, fun _ => .inl rfl⟩
  · cases c' with
    | p0 => exact hp0
    | p1 => exact hp1
  · refine iff_of_false not_mem_nil ?_
    rintro ⟨-, -, b, hb, -⟩
    cases hb

section

variable (ho : Opened c h hi) (hc : Heaps c)
  (hhi : ∀ r, hi r = c.bounds.hi r ∨ hi r = c.bounds.lo r)
include ho hc hhi

/-- The heap of the first core. -/
theorem Opened.initP0 (hr : hi .p0 = c.bounds.lo .p0)
    (hlong : c.bounds.lo .p0 + nodeSize ≤ c.bounds.hi .p0) (hv : Vars c h)
    (hf : h.freelistPm = 0) :
    Opened c (initP0 h) (update hi .p0 (c.bounds.hi .p0)) ∧
      Same h (MallocPm.initP0 h) ∧ (MallocPm.initP0 h).freelistPmP1 = h.freelistPmP1 := by
  have hlt := Nat.lt_of_le_of_lt (hc.hi_le .p0) c.chip.end_lt
  have hinit := initAndAdjustPmHeap_eq h 0 hlong hlt
  rw [← hv.heapPmStart, ← hv.heapPmEnd] at hinit
  unfold MallocPm.initP0
  rw [hinit]
  refine ⟨ho.open hc hhi (r := .p0) hr hlong ?_ ?_, ⟨rfl, rfl, rfl, rfl, rfl, rfl, rfl, rfl⟩, rfl⟩
  · rw [hv.heapPmStart]
    change _ = writeNodeToPm h.pm _ ⟨_, h.freelistPm⟩
    rw [hf]
    rfl
  · rw [hv.heapPmStart]
    funext c'
    cases c' <;> rfl

/-- The heap of the second core. -/
theorem Opened.initP1 (hr : hi .p1 = c.bounds.lo .p1)
    (hlong : c.bounds.lo .p1 + nodeSize ≤ c.bounds.hi .p1) (hv : Vars c h)
    (hf : h.freelistPmP1 = 0) :
    Opened c (initP1 h) (update hi .p1 (c.bounds.hi .p1)) ∧
      Same h (MallocPm.initP1 h) := by
  have hlt := Nat.lt_of_le_of_lt (hc.hi_le .p1) c.chip.end_lt
  have hinit := initAndAdjustPmHeap_eq h 0 hlong hlt
  rw [← hv.heapPmP1Start, ← hv.heapPmP1End] at hinit
  unfold MallocPm.initP1
  rw [hinit]
  refine ⟨ho.open hc hhi (r := .p1) hr hlong ?_ ?_, ⟨rfl, rfl, rfl, rfl, rfl, rfl, rfl, rfl⟩⟩
  · rw [hv.heapPmP1Start]
    change _ = writeNodeToPm h.pm _ ⟨_, h.freelistPmP1⟩
    rw [hf]
    rfl
  · rw [hv.heapPmP1Start]
    funext c'
    cases c' <;> rfl

/-- What lies above the cache. -/
theorem Opened.initAddnlP1 (hr : hi .above = c.bounds.lo .above)
    (hlong : c.bounds.lo .above + nodeSize ≤ c.bounds.hi .above)
    (hs : c.chip.usableStart = c.bounds.lo .above * pcPerInstruction)
    (he : c.chip.pmRamEndAddress = c.bounds.hi .above * pcPerInstruction) :
    Opened c (initAddnlP1 c.chip h) (update hi .above (c.bounds.hi .above)) ∧
      Same { h with
        addnlHeapPmP1Start := c.chip.usableStart, addnlHeapPmP1End := c.chip.pmRamEndAddress }
        (MallocPm.initAddnlP1 c.chip h) := by
  have hlt := Nat.lt_of_le_of_lt (hc.hi_le .above) c.chip.end_lt
  have hinit := initAndAdjustPmHeap_eq { h with
    addnlHeapPmP1Start := c.chip.usableStart, addnlHeapPmP1End := c.chip.pmRamEndAddress }
    h.freelistPmP1 hlong hlt
  rw [← hs, ← he] at hinit
  unfold MallocPm.initAddnlP1
  dsimp only
  rw [hinit]
  refine ⟨ho.open hc hhi (r := .above) hr hlong ?_ ?_, ⟨rfl, rfl, rfl, rfl, rfl, rfl, rfl, rfl⟩⟩
  · rw [hs]
    rfl
  · rw [hs]
    funext c'
    cases c' <;> rfl

end

/-- The heaps of two cores set up one after the other. -/
theorem initMultiCore_spec (hc : Heaps c) (hm : c.multipleCores = true) (hv : Vars c h)
    (ho : Opened c h c.bounds.lo) (hf0 : h.freelistPm = 0) (hf1 : h.freelistPmP1 = 0)
    (ha0 : h.addnlHeapPmP1Start = 0) (ha1 : h.addnlHeapPmP1End = 0) :
    Opened c (initMultiCore c.chip h) c.bounds.hi ∧ Vars c (initMultiCore c.chip h) ∧
      VarsAbove c (initMultiCore c.chip h) := by
  have hlt : ∀ r, c.bounds.hi r * pcPerInstruction < 2 ^ 32 := fun r =>
    Nat.lt_of_le_of_lt (hc.hi_le r) c.chip.end_lt
  obtain ⟨h₁, heq1, ho1, hs1, hf1'⟩ : ∃ h₁,
      (if heapSize h.heapPmStart h.heapPmEnd ≠ 0 then initP0 h else h) = h₁ ∧
      Opened c h₁ (update c.bounds.lo .p0 (c.bounds.hi .p0)) ∧ Same h h₁ ∧
      h₁.freelistPmP1 = 0 := by
    rw [hv.heapPmStart, hv.heapPmEnd, heapSize_eq (hc.le .p0) (hlt .p0)]
    rcases hc.long .p0 with hempty | hlong
    · refine ⟨h, if_neg (by omega), ?_, ⟨rfl, rfl, rfl, rfl, rfl, rfl, rfl, rfl⟩, hf1⟩
      rw [← hempty, update_eq_self]
      exact ho
    · obtain ⟨ho', hs, hf⟩ := ho.initP0 hc (fun _ => .inr rfl) rfl hlong hv hf0
      unfold nodeSize at hlong
      exact ⟨_, if_pos (by omega), ho', hs, hf.trans hf1⟩
  have hhi1 : ∀ r, update c.bounds.lo .p0 (c.bounds.hi .p0) r = c.bounds.hi r ∨
      update c.bounds.lo .p0 (c.bounds.hi .p0) r = c.bounds.lo r := fun r => by
    cases r <;> first | exact .inl rfl | exact .inr rfl
  have hv1 := hv.of_same hs1
  obtain ⟨h2, heq2, ho2, hs2⟩ : ∃ h2,
      (if heapSize h₁.heapPmP1Start h₁.heapPmP1End ≠ 0 then initP1 h₁ else h₁) = h2 ∧
      Opened c h2 (update (update c.bounds.lo .p0 (c.bounds.hi .p0)) .p1
        (c.bounds.hi .p1)) ∧ Same h₁ h2 := by
    rw [hv1.heapPmP1Start, hv1.heapPmP1End, heapSize_eq (hc.le .p1) (hlt .p1)]
    rcases hc.long .p1 with hempty | hlong
    · refine ⟨h₁, if_neg (by omega), ?_, ⟨rfl, rfl, rfl, rfl, rfl, rfl, rfl, rfl⟩⟩
      have hsame : update (update c.bounds.lo .p0 (c.bounds.hi .p0)) .p1
          (c.bounds.lo .p1) = update c.bounds.lo .p0 (c.bounds.hi .p0) := by
        funext r
        cases r <;> rfl
      rw [← hempty, hsame]
      exact ho1
    · obtain ⟨ho', hs⟩ := ho1.initP1 hc hhi1 rfl hlong hv1 hf1'
      unfold nodeSize at hlong
      exact ⟨_, if_pos (by omega), ho', hs⟩
  have hhi2 : ∀ r, update (update c.bounds.lo .p0 (c.bounds.hi .p0)) .p1
      (c.bounds.hi .p1) r = c.bounds.hi r ∨ update (update c.bounds.lo .p0
        (c.bounds.hi .p0)) .p1 (c.bounds.hi .p1) r = c.bounds.lo r := fun r => by
    cases r <;> first | exact .inl rfl | exact .inr rfl
  have hall : ∀ k, k = c.bounds.hi .above → update (update (update
      c.bounds.lo .p0 (c.bounds.hi .p0)) .p1 (c.bounds.hi .p1)) .above k = c.bounds.hi := by
    rintro k rfl
    funext r
    cases r <;> rfl
  have hv2 := hv1.of_same hs2
  unfold initMultiCore
  dsimp only
  rw [heq1, heq2]
  rcases bounds_above hm with ⟨hu, hb⟩ | ⟨hu, hb⟩
  · have hlt : c.bounds.lo .above < c.bounds.hi .above := by
      have h₁ := usableStart_aligned c.chip
      have h2 := c.chip.end_aligned
      rw [hb.1, hb.2]
      omega
    obtain ⟨-, hstart, hend⟩ := above_eq hlt
    have hlong := (hc.long .above).resolve_left hlt.ne
    obtain ⟨ho3, hs3⟩ := ho2.initAddnlP1 hc hhi2 rfl hlong hstart hend
    rw [if_pos hu]
    rw [hall _ rfl] at ho3
    have hv3 : Vars c { h2 with
        addnlHeapPmP1Start := c.chip.usableStart, addnlHeapPmP1End := c.chip.pmRamEndAddress } :=
      ⟨hv2.heapPmStart, hv2.heapPmEnd, hv2.heapPmP1Start, hv2.heapPmP1End⟩
    exact ⟨ho3, hv3.of_same hs3, VarsAbove.of_same ⟨hstart, hend⟩ hs3⟩
  · rw [if_neg hu]
    refine ⟨?_, hv2, ?_⟩
    · have hsame : update (update c.bounds.lo .p0 (c.bounds.hi .p0)) .p1
          (c.bounds.hi .p1) = c.bounds.hi := by
        rw [← hall (c.bounds.lo .above) (hb.1.trans hb.2.symm)]
        funext r
        cases r <;> rfl
      rw [← hsame]
      exact ho2
    · refine VarsAbove.of_same (VarsAbove.of_same (h := h) ⟨?_, ?_⟩ hs1) hs2
      · rw [hb.1, ha0]
        rfl
      · rw [hb.2, ha1]
        rfl

/-- **The initial layout.** One free block in every heap that is not empty. -/
theorem init_spec (hreg : c.Regular) (pm : ℕ → ℕ) (pmwinEnable blockCount : ℕ) :
    Opened c (initHeapPm c pm pmwinEnable blockCount) c.bounds.hi ∧
      Vars c (initHeapPm c pm pmwinEnable blockCount) ∧
      VarsAbove c (initHeapPm c pm pmwinEnable blockCount) := by
  have hc := hreg.heaps
  unfold initHeapPm
  dsimp only
  cases hm : c.multipleCores with
  | false =>
    rw [if_neg Bool.false_ne_true]
    have hend := c.chip.end_aligned
    obtain ⟨-, hb2, hb3, hb4, hb5, hb6⟩ := bounds_of_one hm
    have hv : Vars c ⟨pm, pmwinEnable, blockCount, 0, 0, c.heapStart, c.chip.pmRamEndAddress, 0, 0,
        0, 0⟩ := by
      refine ⟨hc.start, ?_, ?_, ?_⟩
      · rw [hb2]
        unfold pcPerInstruction
        dsimp only
        omega
      · rw [hb3, Nat.zero_mul]
      · rw [hb4, Nat.zero_mul]
    have hv' : VarsAbove c ⟨pm, pmwinEnable, blockCount, 0, 0, c.heapStart,
        c.chip.pmRamEndAddress, 0, 0, 0, 0⟩ := by
      constructor
      · rw [hb5, Nat.zero_mul]
      · rw [hb6, Nat.zero_mul]
    have hlong : c.bounds.lo .p0 + nodeSize ≤ c.bounds.hi .p0 := by
      have h' := hreg.2.2
      rw [if_neg (by rw [hm]; exact Bool.false_ne_true)] at h'
      have hstart := hc.start
      unfold pcPerInstruction at hstart
      unfold nodeSize
      omega
    obtain ⟨ho, hs, -⟩ := (opened_none rfl rfl).initP0 hc (fun _ => .inr rfl) rfl hlong hv rfl
    refine ⟨?_, hv.of_same hs, hv'.of_same hs⟩
    have heq : update c.bounds.lo .p0 (c.bounds.hi .p0) = c.bounds.hi := by
      funext r
      cases r with
      | p0 => exact update_self ..
      | p1 => exact hb3.trans hb4.symm
      | above => exact hb5.trans hb6.symm
    rw [← heq]
    exact ho
  | true =>
    rw [if_pos rfl]
    have htwo := hreg.twoHeaps hm
    have hcache := c.chip.cache_aligned
    obtain ⟨-, hb2, hb3, hb4⟩ := bounds_of_two hm
    have hp1 : c.p1HeapStart = c.p1HeapStart / 4 * pcPerInstruction := by
      have := htwo.p1_aligned
      unfold pcPerInstruction
      omega
    have hv : Vars c ⟨pm, pmwinEnable, blockCount, 0, 0, c.heapStart, c.p1HeapStart, c.p1HeapStart,
        c.chip.pmRamP1CacheStartAddress, 0, 0⟩ := by
      refine ⟨hc.start, ?_, ?_, ?_⟩
      · rw [hb2]
        exact hp1
      · rw [hb3]
        exact hp1
      · rw [hb4]
        unfold pcPerInstruction
        dsimp only
        omega
    exact initMultiCore_spec hc hm hv (opened_none rfl rfl) rfl rfl rfl rfl

end Init

end Mh40.MallocPm
