import Mathlib.Algebra.Order.BigOperators.Group.List
import Mh40.Rafs.Space

/-!
# The file space is what a new file can store

The longest free extent is the first one of the sorted list, and marking it as used leaves the rest
of the list. So a file gets the extents that `Rafs_DoStatfs` adds up, one after the other. The code
falls short of that where a free run cannot be written as an inode, and where there is none: then
`Rafs_DoStatfs` reads the first entry of an empty array.

* `SectorMap.without` — a map with the blocks of a run in use;
* `sortInodes_cons_erase` — the longest extent and the sorted list;
* `offers_sorted` — a file gets the extents of the sorted list;
* `SpaceRight`, `Scannable` — what the scan must do, and when it does;
* `spaceRight_iff` — the two agree on every map.
-/

namespace Mh40.Rafs

open Lib List Option

/-! ## Blocks that are taken and given back -/

namespace SectorMap

/-- The map with the blocks of a run in use. -/
def without (m : SectorMap) (r : ℕ × ℕ) : SectorMap :=
  { m with free := fun i => if r.1 ≤ i ∧ i < r.1 + r.2 then false else m.free i }

/-- The map with the blocks of a run free. -/
def withFree (m : SectorMap) (r : ℕ × ℕ) : SectorMap :=
  { m with free := fun i => if r.1 ≤ i ∧ i < r.1 + r.2 then true else m.free i }

variable {m : SectorMap}

theorem withFree_without {r : ℕ × ℕ} (h : ∀ i, r.1 ≤ i → i < r.1 + r.2 → m.free i = true) :
    (m.without r).withFree r = m := by
  have hfree : ((m.without r).withFree r).free = m.free := by
    funext i
    simp only [withFree, without]
    by_cases hi : r.1 ≤ i ∧ i < r.1 + r.2
    · rw [if_pos hi, h i hi.1 hi.2]
    · rw [if_neg hi, if_neg hi]
  calc (m.without r).withFree r = ⟨m.numBlocks, ((m.without r).withFree r).free⟩ := rfl
    _ = m := by rw [hfree]

/-- A loop that marks one block after the other. -/
theorem marked_of_step {loop : ℕ → ℕ → SectorMap → Option (Bool × SectorMap)} {b : Bool}
    (hzero : ∀ page m, loop 0 page m = some (true, m))
    (hsucc : ∀ count page m, m.InMap page → m.free page = !b → loop (count + 1) page m =
      loop count (page + 1) { m with free := Function.update m.free page b })
    {count page : ℕ} (h : ∀ i, page ≤ i → i < page + count → i < m.numBits ∧ m.free i = !b) :
    loop count page m = some (true,
      { m with free := fun i => if page ≤ i ∧ i < page + count then b else m.free i }) := by
  induction count generalizing page m with
  | zero =>
    have hfree : (fun i => if page ≤ i ∧ i < page + 0 then b else m.free i) = m.free :=
      funext fun i => if_neg (by omega)
    rw [hzero, hfree]
  | succ count ih =>
    obtain ⟨hin, hfree⟩ := h page le_rfl (by omega)
    have hmap : m.InMap page := by
      unfold numBits at hin
      unfold InMap
      omega
    rw [hsucc count page m hmap hfree, ih fun i h1 h2 => ?_]
    · congr 3
      funext i
      dsimp only
      by_cases hi : i = page
      · subst hi
        rw [if_neg (by omega), if_pos (by omega), Function.update_self]
      · rw [Function.update_of_ne hi]
        by_cases hrange : page + 1 ≤ i ∧ i < page + 1 + count
        · rw [if_pos hrange, if_pos (by omega)]
        · rw [if_neg hrange, if_neg (by omega)]
    · obtain ⟨hi, hf⟩ := h i (by omega) (by omega)
      exact ⟨hi, by dsimp only; rwa [Function.update_of_ne (by omega)]⟩

theorem addBlocks_eq {count page : ℕ} (h : ∀ i, page ≤ i → i < page + count → m.FreeBit i) :
    addBlocks count page m = some (true, m.without (page, count)) := by
  refine marked_of_step (fun _ _ => rfl) (fun count page m hmap hfree => ?_) h
  rw [addBlocks, isBlockInUse, if_pos hmap, hfree, markUsedBlock, if_pos hmap]
  rfl

theorem removeBlocks_eq {count page : ℕ}
    (h : ∀ i, page ≤ i → i < page + count → i < m.numBits ∧ m.free i = false) :
    removeBlocks count page m = some (true, m.withFree (page, count)) := by
  refine marked_of_step (fun _ _ => rfl) (fun count page m hmap htaken => ?_) h
  rw [removeBlocks, isBlockInUse, if_pos hmap, htaken, markFreeBlock, if_pos hmap]
  rfl

/-- The blocks of a free run are taken, and given back. -/
theorem addExtents_of_isRun {e : Inode} (h : IsRun m.FreeBit e.range) (hvalid : e ≠ .unused) :
    m.addExtents [e] = some (true, m.without e.range) ∧
      (m.without e.range).removeExtents [e] = some (true, m) := by
  have hlen : e.length ≠ 0 := fun h0 => by
    have := h.pos
    simp [Inode.range, h0] at this
  have hok : isValidInode e = true := by
    have h1 : isUnusedInode e = false := by
      rw [isUnusedInode, Bool.or_eq_false_iff, beq_eq_false_iff_ne, beq_eq_false_iff_ne]
      exact ⟨hvalid, hlen⟩
    have h2 : isDeletedInode e = false := by
      rw [isDeletedInode, Bool.and_eq_false_iff, beq_eq_false_iff_ne, beq_eq_false_iff_ne]
      exact .inr hlen
    rw [isValidInode, h1, h2]
    rfl
  have hadd : addBlocks e.range.2 e.range.1 m = some (true, m.without e.range) :=
    addBlocks_eq fun i h1 h2 => h.all i h1 h2
  have hremove : removeBlocks e.range.2 e.range.1 (m.without e.range) = some (true, m) := by
    have hused : ∀ i, e.range.1 ≤ i → i < e.range.1 + e.range.2 →
        i < (m.without e.range).numBits ∧ (m.without e.range).free i = false :=
      fun i h1 h2 => ⟨(h.all i h1 h2).1, if_pos ⟨h1, h2⟩⟩
    rw [removeBlocks_eq hused]
    exact congrArg (fun m => some (true, m)) (withFree_without fun i h1 h2 => (h.all i h1 h2).2)
  constructor
  · rw [addExtents, if_pos hok]
    simp only [Inode.range] at hadd ⊢
    simp only [hadd, bind_eq_bind, bind_some, if_true, addExtents]
  · rw [removeExtents, if_pos hok]
    simp only [Inode.range] at hremove ⊢
    simp only [hremove, bind_eq_bind, bind_some, if_true, removeExtents]

end SectorMap

/-! ## The longest extent and the sorted list -/

/-- The place of an extent in the sort: the longer first, the lower offset first among equals. -/
def sortKey (e : Inode) : ℕ := (65535 - e.length.toNat) * 65536 + e.offset.toNat

section Sorting

variable {a b e : Inode} {es : List Inode}

theorem sortKey_inj (h : sortKey a = sortKey b) : a = b := by
  have ha := a.length.isLt
  have hb := b.length.isLt
  have ha' := a.offset.isLt
  have hb' := b.offset.isLt
  unfold sortKey at h
  exact Inode.ext (BitVec.eq_of_toNat_eq (by omega)) (BitVec.eq_of_toNat_eq (by omega))

theorem sort_le_iff : sortInodeLengthDescending a b ≠ .gt ↔ sortKey a ≤ sortKey b := by
  have ha := a.length.isLt
  have hb := b.length.isLt
  have ha' := a.offset.isLt
  have hb' := b.offset.isLt
  simp only [sortInodeLengthDescending, gt_iff_lt, BitVec.lt_def, sortKey]
  split_ifs <;> simp <;> omega

theorem sortInodes_pairwise (es : List Inode) :
    (sortInodes es).Pairwise fun a b => sortKey a ≤ sortKey b := by
  have htotal : Std.Total fun a b => sortInodeLengthDescending a b ≠ .gt :=
    ⟨fun a b => by rw [sort_le_iff, sort_le_iff]; exact le_total _ _⟩
  have htrans : IsTrans Inode fun a b => sortInodeLengthDescending a b ≠ .gt :=
    ⟨fun a b c hab hbc => by rw [sort_le_iff] at *; exact hab.trans hbc⟩
  exact (pairwise_insertionSort _ es).imp fun h => sort_le_iff.mp h

theorem sortInodes_perm (es : List Inode) : (sortInodes es).Perm es := perm_insertionSort _ es

/-- The first of the sorted list, and the rest of it. -/
theorem sortInodes_cons_erase (he : e ∈ es) (hmin : ∀ x ∈ es, sortKey e ≤ sortKey x) :
    sortInodes es = e :: sortInodes (es.erase e) := by
  refine Perm.eq_of_pairwise (fun a b _ _ hab hba => sortKey_inj (le_antisymm hab hba))
    (sortInodes_pairwise es) ?_ ?_
  · refine pairwise_cons.mpr ⟨fun x hx => hmin x ?_, sortInodes_pairwise _⟩
    exact mem_of_mem_erase ((sortInodes_perm _).mem_iff.mp hx)
  · exact (sortInodes_perm es).trans ((perm_cons_erase he).trans
      ((sortInodes_perm _).symm.cons e))

/-- Among extents in ascending order the first of the longest is found. -/
theorem foldl_longer_spec (h : (e :: es).Pairwise fun a b => a.offset < b.offset) :
    es.foldl longer e ∈ e :: es ∧ ∀ x ∈ e :: es, sortKey (es.foldl longer e) ≤ sortKey x := by
  induction es generalizing e with
  | nil => exact ⟨mem_singleton_self _, fun x hx => by rw [mem_singleton.mp hx]; rfl⟩
  | cons y es ih =>
    obtain ⟨hey, hes⟩ := pairwise_cons.mp h
    have hlt := hey y mem_cons_self
    rw [BitVec.lt_def] at hlt
    have hkey : sortKey (longer e y) ≤ sortKey e ∧ sortKey (longer e y) ≤ sortKey y := by
      have he := e.length.isLt
      have hy := y.length.isLt
      have hy' := y.offset.isLt
      rw [longer]
      unfold sortKey
      split_ifs with hlong <;> rw [gt_iff_lt, BitVec.lt_def] at hlong <;> omega
    have hnext : (longer e y :: es).Pairwise fun a b => a.offset < b.offset := by
      rw [longer]
      split_ifs
      · exact hes
      · exact pairwise_cons.mpr ⟨fun x hx => hey x (mem_cons_of_mem _ hx),
          (pairwise_cons.mp hes).2⟩
    obtain ⟨hmem, hmin⟩ := ih hnext
    rw [foldl_cons]
    refine ⟨?_, fun x hx => ?_⟩
    · rcases mem_cons.mp hmem with hmem | hmem
      · rw [hmem, longer]
        split_ifs
        · exact mem_cons_of_mem _ mem_cons_self
        · exact mem_cons_self
      · exact mem_cons_of_mem _ (mem_cons_of_mem _ hmem)
    · have hfirst := hmin _ mem_cons_self
      rcases mem_cons.mp hx with rfl | hx
      · exact hfirst.trans hkey.1
      · rcases mem_cons.mp hx with rfl | hx
        · exact hfirst.trans hkey.2
        · exact hmin x (mem_cons_of_mem _ hx)

end Sorting

/-! ## Maps whose runs are inodes -/

/-- The fields of an inode hold every free run of the map. -/
structure Held (m : SectorMap) : Prop where
  words : m.mapLength ≠ 0
  start : ∀ r ∈ m.runs, r.1 < 2 ^ 16
  length : ∀ r ∈ m.runs, r.2 < 2 ^ 16

section Holding

variable {m : SectorMap} {e : Inode} {es : List Inode}

theorem range_inodeOf {r : ℕ × ℕ} (h1 : r.1 < 2 ^ 16) (h2 : r.2 < 2 ^ 16) :
    (inodeOf r).range = r := by
  rw [Inode.range, inodeOf, BitVec.toNat_ofNat, BitVec.toNat_ofNat, Nat.mod_eq_of_lt h1,
    Nat.mod_eq_of_lt h2]

section

variable (h : Held m)
include h

theorem Held.range_map : m.extents.map Inode.range = m.runs := by
  rw [SectorMap.extents, List.map_map]
  conv_rhs => rw [← List.map_id m.runs]
  exact map_congr_left fun r hr => range_inodeOf (h.start r hr) (h.length r hr)

theorem Held.isRun (he : e ∈ m.extents) : IsRun m.FreeBit e.range := by
  refine ((runs_spec m).mem_iff _).mp ?_
  rw [← h.range_map]
  exact List.mem_map_of_mem he

theorem Held.length_pos (he : e ∈ m.extents) : e.length ≠ 0 := fun h0 => by
  have := (h.isRun he).pos
  simp [Inode.range, h0] at this

theorem Held.ascending : m.extents.Pairwise fun a b => a.offset < b.offset := by
  have := (runs_spec m).ascending
  rw [← h.range_map, pairwise_map] at this
  exact this.imp fun hlt => BitVec.lt_def.mpr hlt

/-- There are few enough extents to count them. -/
theorem Held.count_lt : m.runs.length < 2 ^ 16 := by
  by_contra hle
  have hk : 2 ^ 16 - 1 < m.runs.length := by omega
  have h1 := (runs_spec m).two_mul_le hk
  have h2 := h.start _ (getElem_mem hk)
  omega

/-- The longest free extent is the first one of the sorted list. -/
theorem Held.findLongest (he : e ∈ m.extents) :
    ∃ b, findLongestFreeExtent m = some b ∧ b ∈ m.extents ∧
      sortInodes m.extents = b :: sortInodes (m.extents.erase b) := by
  have hasc := h.ascending
  cases hes : m.extents with
  | nil =>
    rw [hes] at he
    exact absurd he not_mem_nil
  | cons x xs =>
    rw [hes] at hasc
    obtain ⟨hmem, hmin⟩ := foldl_longer_spec hasc
    have hx : x.length ≠ 0 := h.length_pos (hes ▸ mem_cons_self)
    have hfirst : longer ⟨0, 0⟩ x = x := if_pos (by
      rw [gt_iff_lt, BitVec.lt_def]
      exact Nat.pos_of_ne_zero fun h0 => hx (BitVec.eq_of_toNat_eq h0))
    refine ⟨xs.foldl longer x, ?_, hmem, sortInodes_cons_erase hmem hmin⟩
    rw [findLongest_eq h.words, hes, foldl_cons, hfirst]

end

theorem findLongest_none (hwords : m.mapLength ≠ 0) (h : m.extents = []) :
    findLongestFreeExtent m = some ⟨0, 0⟩ := by
  rw [findLongest_eq hwords, h]
  rfl

theorem range_injective : Function.Injective Inode.range := fun _ _ h =>
  Inode.ext (BitVec.eq_of_toNat_eq (congrArg Prod.fst h))
    (BitVec.eq_of_toNat_eq (congrArg Prod.snd h))

theorem freeBit_without (r : ℕ × ℕ) (i : ℕ) :
    (m.without r).FreeBit i ↔ m.FreeBit i ∧ ¬InRun r i := by
  rw [SectorMap.FreeBit, SectorMap.FreeBit, SectorMap.without, InRun, and_assoc]
  refine and_congr Iff.rfl ?_
  dsimp only
  split_ifs with hi
  · simp [hi]
  · simp [hi]

/-- Taking an extent leaves the others. -/
theorem Held.without (h : Held m) (he : e ∈ m.extents) :
    Held (m.without e.range) ∧ (m.without e.range).extents = m.extents.erase e := by
  have hmem : e.range ∈ m.runs := by
    rw [← h.range_map]
    exact List.mem_map_of_mem he
  have hruns : (m.without e.range).runs = m.runs.erase e.range :=
    (runs_spec _).unique ((Runs.congr (freeBit_without e.range)).mpr ((runs_spec m).erase hmem))
  have hsub : ∀ r ∈ (m.without e.range).runs, r ∈ m.runs := fun r hr =>
    mem_of_mem_erase (hruns ▸ hr)
  have hheld : Held (m.without e.range) :=
    ⟨h.words, fun r hr => h.start r (hsub r hr), fun r hr => h.length r (hsub r hr)⟩
  refine ⟨hheld, map_injective_iff.mpr range_injective ?_⟩
  rw [hheld.range_map, hruns, ← h.range_map, map_erase range_injective]

/-- A file that writes to the first extent of the sorted list gets the next ones. -/
theorem offers_sorted {k : ℕ} (h : Held m) (hvalid : ∀ x ∈ m.extents, x ≠ .unused)
    (hsort : sortInodes m.extents = e :: es) : Offers e k m (es.take k) := by
  induction k generalizing m e es with
  | zero => rw [take_zero]; rfl
  | succ k ih =>
    have he : e ∈ m.extents := (sortInodes_perm _).mem_iff.mp (hsort ▸ mem_cons_self)
    obtain ⟨b, -, hb, hsort'⟩ := h.findLongest he
    obtain ⟨rfl, hes⟩ := cons.inj (hsort.symm.trans hsort')
    obtain ⟨hheld, hextents⟩ := h.without hb
    obtain ⟨hadd, hremove⟩ := SectorMap.addExtents_of_isRun (h.isRun hb) (hvalid e hb)
    refine ⟨_, _, hadd, ?_⟩
    rw [← hextents] at hes
    cases es with
    | nil =>
      have hnil : (m.without e.range).extents = [] :=
        Perm.eq_nil (hes ▸ (sortInodes_perm _).symm)
      exact ⟨findLongest_none hheld.words hnil, _, hremove⟩
    | cons x es =>
      have hx : x ∈ (m.without e.range).extents :=
        (sortInodes_perm _).mem_iff.mp (hes ▸ mem_cons_self)
      obtain ⟨y, hy, -, hsorty⟩ := hheld.findLongest hx
      obtain ⟨rfl, -⟩ := cons.inj (hes.trans hsorty)
      refine ⟨hy, hheld.length_pos hx, ih hheld (fun z hz => hvalid z ?_) hes.symm⟩
      exact mem_of_mem_erase (hextents ▸ hz)

end Holding

/-! ## The figures of the space -/

/-- The block is in the partition, and free. -/
def SectorMap.FreeBlock (m : SectorMap) (i : ℕ) : Prop := i < m.numBlocks ∧ m.free i = true

/-- A new file stores `space` bytes, in writes of any lengths: those that add up to no more all
succeed, and the first that goes beyond stores the rest of the space and reports it. -/
structure Stores (info : PartitionInfo) (m : SectorMap) (space : ℕ) : Prop where
  within : ∀ ns, total ns ≤ space → ∃ file,
    writeNew info m ns = some (List.replicate ns.length .ok, file) ∧
      file.filePosition.toNat = total ns
  beyond : ∀ ns n, total ns ≤ space → space < total ns + n.toNat → ∃ result file,
    writeNew info m (ns ++ [n]) = some (List.replicate ns.length .ok ++ [result], file) ∧
      result ≠ .ok ∧ file.filePosition.toNat = space

section Figures

variable {info : PartitionInfo} {m : SectorMap} {fat : ℕ → Dirent} {freeDirSlot : ℕ}

theorem numBlocks_le (m : SectorMap) : m.numBlocks ≤ m.numBits := by
  unfold SectorMap.numBits SectorMap.mapLength
  omega

/-- The blocks of the partition are in the map. -/
theorem countFreeSectors_isSome (m : SectorMap) : (countFreeSectors m).isSome := by
  have hall : ∀ (l : List ℕ) (acc : BitVec 16), (∀ b ∈ l, b < m.numBlocks) →
      (l.foldlM (fun result block => (m.isBlockInUse block).map fun inUse =>
        if inUse then result else result + 1) acc).isSome := by
    intro l
    induction l with
    | nil => exact fun _ _ => rfl
    | cons b l ih =>
      intro acc hb
      have hin : m.InMap b := by
        have h1 := hb b mem_cons_self
        have h2 := numBlocks_le m
        unfold SectorMap.numBits at h2
        unfold SectorMap.InMap
        omega
      rw [foldlM_cons, SectorMap.isBlockInUse, if_pos hin]
      exact ih _ fun x hx => hb x (mem_cons_of_mem _ hx)
  exact hall _ _ fun b hb => mem_range.mp hb

/-- The sizes of the extents add up. -/
theorem toNat_foldl_bytes (es : List Inode) (acc : BitVec 32)
    (h : acc.toNat + (es.map info.size).sum < 2 ^ 32) :
    (es.foldl (fun space inode => space + info.bytes inode) acc).toNat =
      acc.toNat + (es.map info.size).sum := by
  induction es generalizing acc with
  | nil => rfl
  | cons e es ih =>
    rw [map_cons, sum_cons] at h ⊢
    have hadd : (acc + info.bytes e).toNat = acc.toNat + info.size e := by
      rw [BitVec.toNat_add, toNat_bytes (by omega), Nat.mod_eq_of_lt (by omega)]
    rw [foldl_cons, ih _ (by omega), hadd]
    omega

/-- The figures, where the runs are held and there is one. -/
theorem doStatfs_eq (info : PartitionInfo) (fat : ℕ → Dirent) (freeDirSlot : ℕ) (h : Held m)
    (hne : m.extents ≠ []) :
    ∃ st, doStatfs info m fat freeDirSlot = some st ∧ st.fileSpace =
      ((sortInodes m.extents).take maxInodes).foldl (fun space inode => space + info.bytes inode)
        0 := by
  obtain ⟨sectors, hsectors⟩ := isSome_iff_exists.mp (countFreeSectors_isSome m)
  have hlen : sortInodes m.extents ≠ [] := fun h0 => hne (Perm.eq_nil (h0 ▸
    (sortInodes_perm m.extents).symm))
  obtain ⟨e, es, hsort⟩ := exists_cons_of_ne_nil hlen
  have hget := getFree_eq h.words h.length h.count_lt
  rw [hsort] at hget ⊢
  rw [doStatfs, hsectors, countFree_eq h.words]
  simp only [bind_eq_bind, bind_some, hget, if_true, getElem?_cons_zero]
  exact ⟨_, rfl, rfl⟩

/-- Without an extent the first one is read all the same. -/
theorem doStatfs_none (h : m.runs = []) (hwords : m.mapLength ≠ 0) :
    doStatfs info m fat freeDirSlot = none := by
  obtain ⟨sectors, hsectors⟩ := isSome_iff_exists.mp (countFreeSectors_isSome m)
  have hget := getFree_eq hwords (fun r hr => by rw [h] at hr; cases hr) (by rw [h]; decide)
  rw [SectorMap.extents, h] at hget
  rw [doStatfs, hsectors, countFree_eq hwords, h]
  simp only [bind_eq_bind, bind_some, hget]
  rfl

/-- The blocks of the partition do not overflow a word. -/
theorem numBlocks_mul_lt (info : PartitionInfo) :
    info.numBlocks * info.blockSize.toNat < 2 ^ 32 :=
  lt_of_le_of_lt (Nat.div_mul_le_self _ _) info.partitionSize.isLt

theorem sum_size_eq (es : List Inode) :
    (es.map info.size).sum = (es.map fun e => e.length.toNat).sum * info.blockSize.toNat := by
  induction es with
  | nil => simp
  | cons e es ih =>
    rw [map_cons, sum_cons, map_cons, sum_cons, ih, Nat.add_mul]
    rfl

end Figures

/-! ## When the scan is right -/

/-- What the scan of the map must do: the traversal reports the maximal runs of free blocks, each
once and in ascending order, and they are counted right; the longest extent is one of greatest
length, `{0, 0}` when there is none; the file space is what a new file can store, and zero when no
block is free. -/
structure SpaceRight (info : PartitionInfo) (m : SectorMap) (fat : ℕ → Dirent)
    (freeDirSlot : ℕ) : Prop where
  extents : ∃ rs count, reportedExtents m = some rs ∧ countFreeExtents m = some count ∧
    Runs m.FreeBlock (rs.map fun r => (r.1.toNat, r.2)) ∧ count.toNat = rs.length
  longest : ∃ e, findLongestFreeExtent m = some e ∧
    ((∀ i, ¬m.FreeBlock i) ∧ e = ⟨0, 0⟩ ∨
      IsRun m.FreeBlock e.range ∧ ∀ r, IsRun m.FreeBlock r → r.2 ≤ e.length.toNat)
  space : ∃ st, doStatfs info m fat freeDirSlot = some st ∧
    ((∃ i, m.FreeBlock i) → Stores info m st.fileSpace.toNat) ∧
    ((∀ i, ¬m.FreeBlock i) → st.fileSpace = 0)

/-- A block is free, no bit behind the last block is marked as free, and every maximal run of free
blocks can be written as an inode: it starts below 65536, is shorter than 65536 blocks, and is not
the pair of 65535 that stands for an inode that is not used. -/
structure Scannable (m : SectorMap) : Prop where
  some_free : ∃ i, m.FreeBlock i
  inside : ∀ i, m.FreeBit i → i < m.numBlocks
  held : ∀ r, IsRun m.FreeBlock r → r.1 < 2 ^ 16 ∧ r.2 < 2 ^ 16 ∧ r ≠ (0xFFFF, 0xFFFF)

section Exact

variable {info : PartitionInfo} {m : SectorMap} {fat : ℕ → Dirent} {freeDirSlot : ℕ}

theorem freeBit_iff (h : ∀ i, m.FreeBit i → i < m.numBlocks) (i : ℕ) :
    m.FreeBit i ↔ m.FreeBlock i :=
  ⟨fun hi => ⟨h i hi, hi.2⟩, fun hi => ⟨lt_of_lt_of_le hi.1 (numBlocks_le m), hi.2⟩⟩

theorem mapLength_ne_zero {i : ℕ} (h : m.FreeBlock i) : m.mapLength ≠ 0 := by
  have := h.1
  unfold SectorMap.mapLength
  omega

theorem Scannable.isRun_iff (h : Scannable m) (r : ℕ × ℕ) :
    IsRun m.FreeBit r ↔ IsRun m.FreeBlock r := IsRun.congr (freeBit_iff h.inside)

theorem Scannable.mem_runs (h : Scannable m) {r : ℕ × ℕ} (hr : r ∈ m.runs) :
    IsRun m.FreeBlock r := (h.isRun_iff r).mp (((runs_spec m).mem_iff r).mp hr)

theorem Scannable.runs_ne_nil (h : Scannable m) : m.runs ≠ [] := by
  obtain ⟨i, hi⟩ := h.some_free
  intro hnil
  exact ((runs_spec m).eq_nil_iff fun j hj => hj.1).mp hnil i ((freeBit_iff h.inside i).mpr hi)

theorem Scannable.toHeld (h : Scannable m) : Held m := by
  obtain ⟨i, hi⟩ := h.some_free
  exact ⟨mapLength_ne_zero hi, fun r hr => (h.held r (h.mem_runs hr)).1,
    fun r hr => (h.held r (h.mem_runs hr)).2.1⟩

theorem extents_ne_nil (h : m.runs ≠ []) : m.extents ≠ [] := fun hnil =>
  h (map_eq_nil_iff.mp hnil)

/-- The sizes of the first extents fit a word. -/
theorem sum_take_lt (h : Held m) (hm : m.numBlocks = info.numBlocks)
    (hin : ∀ i, m.FreeBit i → i < m.numBlocks) (k : ℕ) :
    (((sortInodes m.extents).take k).map info.size).sum < 2 ^ 32 := by
  have hall : (m.extents.map fun e => e.length.toNat).sum ≤ info.numBlocks := by
    have hsum := (runs_spec m).sum_le hin
    rw [← h.range_map, List.map_map, hm] at hsum
    exact hsum
  have htake : (((sortInodes m.extents).take k).map fun e => e.length.toNat).sum ≤
      (m.extents.map fun e => e.length.toNat).sum := by
    calc (((sortInodes m.extents).take k).map fun e => e.length.toNat).sum
        ≤ ((sortInodes m.extents).map fun e => e.length.toNat).sum :=
          ((take_sublist k _).map _).sum_le_sum fun _ _ => Nat.zero_le _
      _ = _ := ((sortInodes_perm _).map _).sum_eq
  rw [sum_size_eq]
  exact lt_of_le_of_lt (Nat.mul_le_mul_right _ (htake.trans hall)) (numBlocks_mul_lt info)

/-- A new file has the room of the first three extents. -/
theorem writable_new {e : Inode} {es : List Inode} (h : Held m) (hm : m.numBlocks = info.numBlocks)
    (hin : ∀ i, m.FreeBit i → i < m.numBlocks) (hvalid : ∀ x ∈ m.extents, x ≠ .unused)
    (hsort : sortInodes m.extents = e :: es) :
    Writable info m (newOpenFile e)
      (((sortInodes m.extents).take maxInodes).map info.size).sum := by
  have hlt := sum_take_lt h hm hin maxInodes
  rw [hsort] at hlt ⊢
  rw [show maxInodes = 2 + 1 from rfl, take_succ_cons, map_cons, sum_cons] at hlt ⊢
  refine ⟨2, es.take 2, rfl, offers_sorted h hvalid hsort, fun x hx => ?_, Nat.zero_le _, rfl⟩
  rcases mem_cons.mp hx with rfl | hx
  · exact lt_of_le_of_lt (Nat.le_add_right _ _) hlt
  · have := le_sum_of_mem (List.mem_map_of_mem (f := info.size) hx)
    omega

/-- What a new file stores, from the room that it has. -/
theorem stores_of_writable {e : Inode} {room : ℕ} (hfind : findLongestFreeExtent m = some e)
    (hlen : e.length ≠ 0) (h : Writable info m (newOpenFile e) room) (hroom : room < 2 ^ 32) :
    Stores info m room := by
  have hnew : ∀ ns, writeNew info m ns = writes info ns (newOpenFile e) m := fun ns => by
    rw [writeNew, hfind]
    exact if_neg fun h0 => hlen h0.2
  have hposition : ∀ k : ℕ, k ≤ room →
      ((newOpenFile e).filePosition + BitVec.ofNat 32 k).toNat = k := fun k hk => by
    rw [show (newOpenFile e).filePosition = 0#32 from rfl, BitVec.zero_add, BitVec.toNat_ofNat,
      Nat.mod_eq_of_lt (by omega)]
  refine ⟨fun ns hns => ?_, fun ns n hns hn => ?_⟩
  · obtain ⟨file, hw, hpos⟩ := writes_within h hns
    exact ⟨file, (hnew ns).trans hw, by rw [hpos, hposition _ hns]⟩
  · obtain ⟨result, file, hne, hw, hpos⟩ := writes_beyond h hns hn
    exact ⟨result, file, (hnew _).trans hw, hne, by rw [hpos, hposition _ le_rfl]⟩

/-- On a map that can be scanned everything is right. -/
theorem spaceRight_of_scannable (hm : m.numBlocks = info.numBlocks) (h : Scannable m) :
    SpaceRight info m fat freeDirSlot := by
  have hheld := h.toHeld
  have hne := extents_ne_nil h.runs_ne_nil
  have hruns : Runs m.FreeBlock m.runs := (Runs.congr (freeBit_iff h.inside)).mp (runs_spec m)
  obtain ⟨x, xs, hcons⟩ := exists_cons_of_ne_nil hne
  obtain ⟨e, hfind, he, hsort⟩ := hheld.findLongest (hcons ▸ mem_cons_self : x ∈ m.extents)
  have hsorted := sortInodes_pairwise m.extents
  refine ⟨⟨_, _, reported_eq hheld.words, countFree_eq hheld.words, ?_, ?_⟩, ⟨e, hfind, .inr ⟨?_, ?_⟩⟩,
    ?_⟩
  · rw [List.map_map]
    have : m.runs.map ((fun r : BitVec 16 × ℕ => (r.1.toNat, r.2)) ∘ fun r : ℕ × ℕ =>
        (BitVec.ofNat 16 r.1, r.2)) = m.runs := by
      conv_rhs => rw [← List.map_id m.runs]
      refine map_congr_left fun r hr => ?_
      rw [Function.comp_apply, BitVec.toNat_ofNat, Nat.mod_eq_of_lt (hheld.start r hr)]
      rfl
    rwa [this]
  · rw [BitVec.toNat_ofNat, Nat.mod_eq_of_lt hheld.count_lt, length_map]
  · exact (h.isRun_iff _).mp (hheld.isRun he)
  · intro r hr
    have hmem : r ∈ m.runs := (hruns.mem_iff r).mpr hr
    rw [← hheld.range_map] at hmem
    obtain ⟨y, hy, rfl⟩ := List.mem_map.mp hmem
    -- the longest is the first one of the sorted list
    rw [hsort] at hsorted
    have hy' : y ∈ e :: sortInodes (m.extents.erase e) := hsort ▸ (sortInodes_perm _).mem_iff.mpr hy
    have hkey : sortKey e ≤ sortKey y := by
      rcases mem_cons.mp hy' with rfl | hy'
      · exact le_rfl
      · exact (pairwise_cons.mp hsorted).1 y hy'
    have h1 := e.offset.isLt
    have h2 := y.offset.isLt
    have h3 := y.length.isLt
    unfold sortKey at hkey
    change y.length.toNat ≤ e.length.toNat
    omega
  · obtain ⟨st, hst, hspace⟩ := doStatfs_eq info fat freeDirSlot hheld hne
    refine ⟨st, hst, fun _ => ?_, fun hnone => ?_⟩
    · have hlt := sum_take_lt hheld hm h.inside maxInodes
      have hvalid : ∀ y ∈ m.extents, y ≠ .unused := by
        rintro y hy rfl
        refine (h.held Inode.unused.range ((h.isRun_iff _).mp (hheld.isRun hy))).2.2 rfl
      have hroom := writable_new hheld hm h.inside hvalid hsort
      rw [hspace, toNat_foldl_bytes _ _ (by simpa using hlt),
        show (0 : BitVec 32).toNat = 0 from rfl, Nat.zero_add]
      exact stores_of_writable hfind (hheld.length_pos he) hroom hlt
    · obtain ⟨i, hi⟩ := h.some_free
      exact absurd hi (hnone i)

/-- What the traversal reports are the runs, the starts modulo the size of a sector number. -/
theorem runs_of_reported {rs : List (BitVec 16 × ℕ)} (hrs : reportedExtents m = some rs)
    (h : Runs m.FreeBlock (rs.map fun r => (r.1.toNat, r.2))) :
    m.mapLength ≠ 0 ∧ Runs m.FreeBlock (m.runs.map fun r => (r.1 % 2 ^ 16, r.2)) := by
  have hwords : m.mapLength ≠ 0 := fun h0 => by
    rw [reportedExtents, traverseExtents, if_pos h0] at hrs
    cases hrs
  refine ⟨hwords, ?_⟩
  rw [reported_eq hwords] at hrs
  obtain rfl := some.inj hrs
  rw [List.map_map] at h
  exact h

/-- Where the reported runs are right, no bit behind the last block is free. -/
theorem inside_of_reported (h : Runs m.FreeBlock (m.runs.map fun r => (r.1 % 2 ^ 16, r.2)))
    (i : ℕ) (hi : m.FreeBit i) : i < m.numBlocks := by
  by_contra hout
  have hblock : ∀ j, m.FreeBit j → j < m.numBlocks → m.FreeBlock j := fun j hj hlt => ⟨hlt, hj.2⟩
  have hbit : ∀ j, m.FreeBlock j → m.FreeBit j := fun j hj =>
    ⟨lt_of_lt_of_le hj.1 (numBlocks_le m), hj.2⟩
  obtain ⟨r, hr, hri⟩ := exists_isRun (fun j hj => hj.1) hi
  obtain ⟨hri1, hri2⟩ := hri
  have hrmem := ((runs_spec m).mem_iff r).mpr hr
  have hx : IsRun m.FreeBlock (r.1 % 2 ^ 16, r.2) :=
    (h.mem_iff _).mp (List.mem_map_of_mem (f := fun r : ℕ × ℕ => (r.1 % 2 ^ 16, r.2)) hrmem)
  have hxpos := hx.pos
  have hxend := (hx.all (r.1 % 2 ^ 16 + r.2 - 1) (by dsimp only at hxpos ⊢; omega)
    (by dsimp only at hxpos ⊢; omega)).1
  by_cases hstart : r.1 < m.numBlocks
  · -- the run crosses the end: its front is a run of the partition, with the same start
    have hy : IsRun m.FreeBlock (r.1, m.numBlocks - r.1) := by
      refine ⟨by dsimp only; omega, fun j h1 h2 => ?_, fun j hj hfree => ?_, fun hfree => ?_⟩
      · dsimp only at h1 h2
        exact hblock j (hr.all j h1 (by omega)) (by omega)
      · exact hr.before j hj (hbit j hfree)
      · have := hfree.1
        dsimp only at this
        omega
    obtain ⟨z, -, hz⟩ := List.mem_map.mp ((h.mem_iff _).mpr hy)
    have hz1 : z.1 % 2 ^ 16 = r.1 := congrArg Prod.fst hz
    omega
  · -- the run lies behind the end: the one that its start stands for is reported twice
    have hfree : m.FreeBlock (r.1 % 2 ^ 16) := hx.all _ le_rfl (by dsimp only at hxpos ⊢; omega)
    obtain ⟨t, ht, htin⟩ := exists_isRun (fun j hj => hj.1) (hbit _ hfree)
    have htstart : t.1 = r.1 % 2 ^ 16 := by
      obtain ⟨h1, h2⟩ := htin
      by_contra hne
      have hprev := ht.all (r.1 % 2 ^ 16 - 1) (by omega) (by omega)
      exact hx.before (r.1 % 2 ^ 16 - 1) (by dsimp only; omega)
        (hblock _ hprev (by have := hfree.1; omega))
    have htmem := ((runs_spec m).mem_iff t).mpr ht
    have hs : IsRun m.FreeBlock (t.1 % 2 ^ 16, t.2) :=
      (h.mem_iff _).mp (List.mem_map_of_mem (f := fun r : ℕ × ℕ => (r.1 % 2 ^ 16, r.2)) htmem)
    have hsame : (t.1 % 2 ^ 16, t.2) = (r.1 % 2 ^ 16, r.2) := by
      refine hs.unique hx (i := r.1 % 2 ^ 16) ?_ hx.inRun
      have := hs.inRun
      rw [htstart, Nat.mod_mod] at this ⊢
      exact this
    have htr := inj_on_of_nodup_map h.nodup htmem hrmem hsame
    rw [htr] at htstart
    have := Nat.mod_lt r.1 (show 0 < 2 ^ 16 by decide)
    have := hfree.1
    omega

/-- Among the extents only the one that looks like an inode not in use is that long. -/
theorem eq_unused_of_length (h : Held m) {x : Inode} (hx : x ∈ m.extents)
    (hmem : Inode.unused ∈ m.extents) (hlen : x.length.toNat = 65535) : x = .unused := by
  have hrx := h.isRun hx
  have hru := h.isRun hmem
  have hxlt := x.offset.isLt
  refine range_injective ?_
  by_contra hne
  have hlt : x.range.1 < Inode.unused.range.1 := by
    refine lt_of_le_of_ne ?_ fun he => hne (Prod.ext he hlen)
    change x.offset.toNat ≤ 65535
    omega
  have hgap := hrx.gap hru hlt
  change x.offset.toNat + x.length.toNat < 65535 at hgap
  omega

/-- An inode that counts as not in use is never marked in the map, and is found again. -/
theorem offers_unused (hfind : findLongestFreeExtent m = some .unused) (k : ℕ) :
    Offers .unused k m (List.replicate k .unused) := by
  induction k with
  | zero => rfl
  | succ k ih => exact ⟨true, m, rfl, hfind, by decide, ih⟩

/-- Then a new file stores the extent three times over, more than the file space. -/
theorem not_stores_unused (hheld : Held m) (hm : m.numBlocks = info.numBlocks)
    (hin : ∀ i, m.FreeBit i → i < m.numBlocks) (hmem : Inode.unused ∈ m.extents) {st : Statfs}
    (hst : doStatfs info m fat freeDirSlot = some st) : ¬Stores info m st.fileSpace.toNat := by
  obtain ⟨b, hfind, hb, hsort⟩ := hheld.findLongest hmem
  have hkey : ∀ x ∈ sortInodes (m.extents.erase b), sortKey b ≤ sortKey x := by
    have := sortInodes_pairwise m.extents
    rw [hsort] at this
    exact (pairwise_cons.mp this).1
  -- the longest extent is the one that looks like an inode not in use
  obtain rfl : b = .unused := by
    by_contra hne
    have hunused := hkey .unused ((sortInodes_perm _).mem_iff.mpr
      ((mem_erase_of_ne (Ne.symm hne)).mpr hmem))
    have h1 := b.offset.isLt
    have h2 := b.length.isLt
    change (65535 - b.length.toNat) * 65536 + b.offset.toNat ≤ 65535 at hunused
    exact hne (eq_unused_of_length hheld hb hmem (by omega))
  have hlt := sum_take_lt hheld hm hin maxInodes
  rw [hsort, show maxInodes = 2 + 1 from rfl, take_succ_cons, map_cons,
    sum_cons] at hlt
  set rest := (sortInodes (m.extents.erase Inode.unused)).take 2 with hrest
  have hsize : info.size .unused = 65535 * info.blockSize.toNat := rfl
  have hrestle : (rest.map info.size).sum ≤ 2 * (65534 * info.blockSize.toNat) := by
    have hnodup : m.extents.Nodup := hheld.ascending.imp fun hlt he => by
      rw [he] at hlt
      exact absurd hlt (BitVec.lt_irrefl _)
    have hle : ∀ k ∈ rest.map info.size, k ≤ 65534 * info.blockSize.toNat := by
      intro k hk
      obtain ⟨x, hx, rfl⟩ := List.mem_map.mp hk
      have hx' := (sortInodes_perm _).mem_iff.mp (mem_of_mem_take hx)
      obtain ⟨hne, hxmem⟩ := hnodup.mem_erase_iff.mp hx'
      refine Nat.mul_le_mul_right _ ?_
      have := x.length.isLt
      by_contra hlong
      exact hne (eq_unused_of_length hheld hxmem hmem (by omega))
    have hsum := sum_le_card_nsmul _ _ hle
    rw [length_map, nsmul_eq_mul, Nat.cast_id] at hsum
    exact hsum.trans (Nat.mul_le_mul_right _ (length_take_le _ _))
  have hpos : 0 < info.blockSize.toNat := by
    have := hin _ ((hheld.isRun hmem).all _ le_rfl (by decide))
    rw [hm, PartitionInfo.numBlocks] at this
    by_contra h0
    rw [Nat.eq_zero_of_not_pos h0, Nat.div_zero] at this
    exact absurd this (Nat.not_lt_zero _)
  obtain ⟨st', hst', hspace⟩ := doStatfs_eq info fat freeDirSlot hheld
    (ne_nil_of_mem hmem)
  rw [hst] at hst'
  obtain rfl := some.inj hst'
  have hspaceNat : st.fileSpace.toNat = info.size .unused + (rest.map info.size).sum := by
    have htake : (sortInodes m.extents).take maxInodes = .unused :: rest := by rw [hsort]; rfl
    rw [hspace, htake, toNat_foldl_bytes (.unused :: rest) 0 (by simpa using hlt)]
    exact Nat.zero_add _
  have hwritable : Writable info m (newOpenFile .unused) (3 * info.size .unused) := by
    refine ⟨2, [.unused, .unused], rfl, offers_unused hfind 2, fun x hx => ?_, Nat.zero_le _, ?_⟩
    · have hx : x ∈ [Inode.unused, .unused, .unused] := hx
      obtain rfl : x = .unused := by simpa using hx
      omega
    · change 3 * info.size .unused = info.size .unused - 0 +
        (info.size .unused + (info.size .unused + 0))
      omega
  intro hstores
  obtain ⟨result, file, hw, hresult, -⟩ := hstores.beyond [st.fileSpace] 1
    (by simp [total]) (by simp [total])
  have hfits : total [st.fileSpace, 1] ≤ 3 * info.size .unused := by
    change st.fileSpace.toNat + (1 + 0) ≤ _
    rw [hspaceNat]
    omega
  obtain ⟨file', hw', -⟩ := writes_within hwritable hfits
  have hnew : writeNew info m [st.fileSpace, 1] = writes info [st.fileSpace, 1]
      (newOpenFile .unused) m := by
    rw [writeNew, hfind]
    rfl
  have hsame := Prod.mk.inj (some.inj (hw.symm.trans (hnew.trans hw')))
  have hlast := congrArg List.getLast? hsame.1
  exact hresult (by simpa using hlast)

/-- Where the scan is right a block is free. -/
theorem some_free_of_spaceRight (h : SpaceRight info m fat freeDirSlot) : ∃ i, m.FreeBlock i := by
  by_contra hnone
  push Not at hnone
  obtain ⟨rs, count, hrs, -, hruns, -⟩ := h.extents
  obtain ⟨hwords, hruns⟩ := runs_of_reported hrs hruns
  obtain ⟨st, hst, -⟩ := h.space
  have hnil : m.runs = [] := map_eq_nil_iff.mp ((hruns.eq_nil_iff fun i hi => hi.1).mpr hnone)
  rw [doStatfs_none hnil hwords] at hst
  cases hst

theorem scannable_of_spaceRight (hm : m.numBlocks = info.numBlocks)
    (h : SpaceRight info m fat freeDirSlot) : Scannable m := by
  obtain ⟨i, hi⟩ := some_free_of_spaceRight h
  obtain ⟨rs, count, hrs, -, hruns, -⟩ := h.extents
  obtain ⟨hwords, hruns⟩ := runs_of_reported hrs hruns
  have hin := inside_of_reported hruns
  have hstart : ∀ r, IsRun m.FreeBlock r → r.1 < 2 ^ 16 := fun r hr => by
    obtain ⟨x, -, rfl⟩ := List.mem_map.mp ((hruns.mem_iff r).mpr hr)
    exact Nat.mod_lt _ (by decide)
  have hlength : ∀ r, IsRun m.FreeBlock r → r.2 < 2 ^ 16 := fun r hr => by
    obtain ⟨e, -, ⟨hnone, -⟩ | ⟨-, hlongest⟩⟩ := h.longest
    · exact absurd hi (hnone i)
    · exact lt_of_le_of_lt (hlongest r hr) e.length.isLt
  have hisRun : ∀ r ∈ m.runs, IsRun m.FreeBlock r := fun r hr =>
    (IsRun.congr (freeBit_iff hin)).mp (((runs_spec m).mem_iff r).mp hr)
  have hheld : Held m := ⟨hwords, fun r hr => hstart r (hisRun r hr),
    fun r hr => hlength r (hisRun r hr)⟩
  refine ⟨⟨i, hi⟩, hin, fun r hr => ⟨hstart r hr, hlength r hr, ?_⟩⟩
  rintro rfl
  obtain ⟨st, hst, hstores, -⟩ := h.space
  refine not_stores_unused hheld hm hin ?_ hst (hstores ⟨i, hi⟩)
  have hmem : (0xFFFF, 0xFFFF) ∈ m.runs :=
    ((runs_spec m).mem_iff _).mpr ((IsRun.congr (freeBit_iff hin)).mpr hr)
  rw [← hheld.range_map] at hmem
  obtain ⟨x, hx, he⟩ := List.mem_map.mp hmem
  rwa [show x = .unused from range_injective he] at hx

end Exact

/-- **When the scan of the map is right.** On every partition and every sector map, the traversal
reports the maximal runs of free blocks, the longest and the number of them are right and the file
space is what a new file can store, if and only if a block is free, none behind the last block is
marked as free and every run can be written as an inode. -/
theorem spaceRight_iff (info : PartitionInfo) (free : ℕ → Bool) (fat : ℕ → Dirent)
    (freeDirSlot : ℕ) :
    SpaceRight info (info.map free) fat freeDirSlot ↔ Scannable (info.map free) :=
  ⟨scannable_of_spaceRight rfl, spaceRight_of_scannable rfl⟩

/-- A partition of 64 blocks of 4096 bytes. -/
def samplePartition : PartitionInfo := ⟨0x40000, 0x1000, 0x100⟩

/-- With every block in use the figures read the first entry of an array that has none. -/
theorem not_spaceRight_full : ¬SpaceRight samplePartition (samplePartition.map fun _ => false)
    (fun _ => ⊤) 1 := by
  intro h
  obtain ⟨st, hst, -⟩ := h.space
  have hnone : (doStatfs samplePartition (samplePartition.map fun _ => false) (fun _ => ⊤) 1).isNone := by
    decide +kernel
  rw [hst] at hnone
  cases hnone

end Mh40.Rafs
