import Mathlib.Data.List.GetD
import Mh40.Lib.Runs
import Mh40.Rafs.SectorMap

/-!
# The extents of the sector map

`rafs_extent.c`. `Rafs_TraverseExtents` goes through the map bit by bit with a flag that says
whether the bit before was free, and calls one of four functions for each; the longest free extent,
the number of free extents and the list of them are three sets of such functions.

* `traverseExtents` — the traversal, for any functions;
* `findLongestFreeExtent`, `countFreeExtents`, `getFreeExtents` — the three uses;
* `traverse_eq` — functions that follow the scan of the runs find what the scan finds;
* `findLongest_eq`, `countFree_eq`, `getFree_eq` — the three uses in terms of the runs.
-/

namespace Mh40.Rafs

open Lib List BitVec Function Option

/-! ## The traversal -/

/-- `extentfns_t`: a null pointer is `none`. -/
structure ExtentFns (σ : Type) where
  firstFree : Option (BitVec 16 → σ → σ) := none
  nextFree : Option (BitVec 16 → σ → σ) := none
  firstUse : Option (BitVec 16 → σ → σ) := none
  nextUse : Option (BitVec 16 → σ → σ) := none

/-- `if( fn ) fn(sector, ctx)`. -/
def callFn {σ : Type} (fn : Option (BitVec 16 → σ → σ)) (sector : BitVec 16) (ctx : σ) : σ :=
  match fn with
  | some fn => fn sector ctx
  | none => ctx

namespace SectorMap

/-- The bits of the words of the map. -/
def numBits (m : SectorMap) : ℕ := m.mapLength * 32

end SectorMap

/-- The body of the loops of `Rafs_TraverseExtents`, with the flag `free_run`. -/
def traverseBit {σ : Type} (fns : ExtentFns σ) (m : SectorMap) (st : Bool × σ) (bit : ℕ) :
    Bool × σ :=
  let sector := BitVec.ofNat 16 bit
  if m.free bit then
    if !st.1 then (true, callFn fns.firstFree sector st.2)
    else (st.1, callFn fns.nextFree sector st.2)
  else
    if st.1 then (false, callFn fns.firstUse sector st.2)
    else (st.1, callFn fns.nextUse sector st.2)

/-- `Rafs_TraverseExtents`. The flag starts from the first word, which a map of no words does not
have. -/
def traverseExtents {σ : Type} (fns : ExtentFns σ) (m : SectorMap) (ctx : σ) : Option σ :=
  if m.mapLength = 0 then none
  else some ((List.range m.numBits).foldl (traverseBit fns m) (!m.free 0, ctx)).2

/-! ## The longest extent -/

/-- `find_longest`. -/
structure FindLongest where
  current : Inode
  result : Inode

/-- `find_longest_fns`. -/
def findLongestFns : ExtentFns FindLongest where
  firstFree := some fun sector p => { p with current := ⟨sector, 1⟩ }
  nextFree := some fun _ p => { p with current := ⟨p.current.offset, p.current.length + 1⟩ }
  firstUse := some fun _ p =>
    { result := if p.current.length > p.result.length then p.current else p.result
      current := ⟨0, 0⟩ }

/-- `Rafs_FindLongestFreeExtent`. -/
def findLongestFreeExtent (m : SectorMap) : Option Inode :=
  (traverseExtents findLongestFns m ⟨⟨0, 0⟩, ⟨0, 0⟩⟩).map fun data =>
    if data.current.length > data.result.length then data.current else data.result

/-! ## The number of extents -/

/-- `count_extents_fns`. -/
def countExtentsFns : ExtentFns (BitVec 16) where
  firstFree := some fun _ count => count + 1

/-- `Rafs_CountFreeExtents`. -/
def countFreeExtents (m : SectorMap) : Option (BitVec 16) := traverseExtents countExtentsFns m 0

/-! ## The list of extents -/

/-- `get_extents`, with the memory that `list` points to. -/
structure GetExtents where
  list : ℕ → Inode
  listlen : BitVec 16
  count : BitVec 16
  current : Inode

/-- `if( count < listlen ) list[count] = current` and `count++`. -/
def GetExtents.put (p : GetExtents) : GetExtents :=
  { p with
    list := if p.count < p.listlen then Function.update p.list p.count.toNat p.current else p.list
    count := p.count + 1 }

/-- `get_extents_fns`. -/
def getExtentsFns : ExtentFns GetExtents where
  firstFree := some fun sector p => { p with current := ⟨sector, 1⟩ }
  nextFree := some fun _ p => { p with current := ⟨p.current.offset, p.current.length + 1⟩ }
  firstUse := some fun _ p =>
    { (if p.current.length > 0 then p.put else p) with current := ⟨0, 0⟩ }

/-- `Rafs_SortInodeLengthDescending`. -/
def sortInodeLengthDescending (a b : Inode) : Ordering :=
  if a.length > b.length then .lt
  else if a.length < b.length then .gt
  else if a.offset < b.offset then .lt
  else if a.offset > b.offset then .gt
  else .eq

/-- The order of the sort is total, so that every `qsort` gives the same list. -/
def sortInodes (inodes : List Inode) : List Inode :=
  inodes.insertionSort fun a b => sortInodeLengthDescending a b ≠ .gt

/-- `Rafs_GetFreeExtents`: the sorted list and the number of the extents. -/
def getFreeExtents (m : SectorMap) (num : BitVec 16) : Option (List Inode × BitVec 16) :=
  (traverseExtents getExtentsFns m ⟨fun _ => ⟨0, 0⟩, num, 0, ⟨0, 0⟩⟩).map fun data =>
    let data := if data.current.length > 0 then data.put else data
    let n := min data.count.toNat data.listlen.toNat
    (sortInodes ((List.range n).map data.list), data.count)

/-! ## The scan of the runs -/

section Traversal

variable {σ : Type} {fns : ExtentFns σ} {m : SectorMap} {repr : List (ℕ × ℕ) × ℕ × ℕ → σ}

/-- A set of functions that follows the scan of the runs: `repr` is the context that stands for a
state of the scan. -/
structure Follows (fns : ExtentFns σ) (m : SectorMap) (repr : List (ℕ × ℕ) × ℕ × ℕ → σ) : Prop where
  firstFree : ∀ n < m.numBits, m.free n = true → (scanRuns m.free n).2.2 = 0 →
    callFn fns.firstFree (BitVec.ofNat 16 n) (repr (scanRuns m.free n)) =
      repr (scanRuns m.free (n + 1))
  nextFree : ∀ n < m.numBits, m.free n = true → (scanRuns m.free n).2.2 ≠ 0 →
    callFn fns.nextFree (BitVec.ofNat 16 n) (repr (scanRuns m.free n)) =
      repr (scanRuns m.free (n + 1))
  firstUse : ∀ n < m.numBits, m.free n = false → (scanRuns m.free n).2.2 ≠ 0 →
    callFn fns.firstUse (BitVec.ofNat 16 n) (repr (scanRuns m.free n)) =
      repr (scanRuns m.free (n + 1))
  start : callFn fns.firstUse 0 (repr ([], (0, 0))) = repr ([], (0, 0))
  nextUse : fns.nextUse = none

/-- The flag of the traversal, before the first bit and behind each other. -/
def freeRun (m : SectorMap) : ℕ → Bool
  | 0 => !m.free 0
  | n + 1 => m.free n

theorem scanRuns_open_iff (p : ℕ → Bool) (n : ℕ) : (scanRuns p (n + 1)).2.2 ≠ 0 ↔ p n = true := by
  rw [scanRuns, scanNext]
  cases hp : p n with
  | true =>
    by_cases h : (scanRuns p n).2.2 = 0 <;> simp [h]
  | false => simp

/-- One bit. -/
theorem traverseBit_eq (h : Follows fns m repr) {n : ℕ} (hn : n < m.numBits) :
    traverseBit fns m (freeRun m n, repr (scanRuns m.free n)) n =
      (freeRun m (n + 1), repr (scanRuns m.free (n + 1))) := by
  have hidle : (scanRuns m.free n).2.2 = 0 → m.free n = false →
      scanRuns m.free (n + 1) = scanRuns m.free n := by
    intro h0 hp
    have hzero := ((scanned_scanRuns m.free n).idle h0).1
    rw [scanRuns, scanNext, if_neg (by simp [hp]), if_pos h0, ← hzero]
  cases n with
  | zero =>
    rw [traverseBit, freeRun, freeRun]
    cases hp : m.free 0 with
    | true => simpa using h.firstFree 0 hn hp rfl
    | false =>
      rw [hidle rfl hp]
      simpa [scanRuns] using h.start
  | succ k =>
    have hopen := scanRuns_open_iff m.free k
    rw [traverseBit, freeRun, freeRun]
    cases hk : m.free k with
    | true =>
      have hlen := hopen.mpr hk
      cases hp : m.free (k + 1) with
      | true => simpa using h.nextFree _ hn hp hlen
      | false => simpa using h.firstUse _ hn hp hlen
    | false =>
      have hlen : (scanRuns m.free (k + 1)).2.2 = 0 := by
        by_contra hne
        have := hopen.mp hne
        rw [hk] at this
        cases this
      cases hp : m.free (k + 1) with
      | true => simpa using h.firstFree _ hn hp hlen
      | false =>
        rw [hidle hlen hp]
        simp [callFn, h.nextUse]

/-- **The traversal.** Functions that follow the scan find what the scan finds. -/
theorem traverse_eq (h : Follows fns m repr) (h0 : m.mapLength ≠ 0) :
    traverseExtents fns m (repr ([], (0, 0))) = some (repr (scanRuns m.free m.numBits)) := by
  have hfold : ∀ n ≤ m.numBits,
      (List.range n).foldl (traverseBit fns m) (!m.free 0, repr ([], (0, 0))) =
        (freeRun m n, repr (scanRuns m.free n)) := by
    intro n hn
    induction n with
    | zero => rfl
    | succ n ih =>
      rw [range_succ, foldl_append, ih (by omega), foldl_cons, foldl_nil,
        traverseBit_eq h hn]
  rw [traverseExtents, if_neg h0, hfold _ le_rfl]

end Traversal

/-! ## What the traversal reports -/

/-- A run as the code holds it. -/
def inodeOf (r : ℕ × ℕ) : Inode := ⟨BitVec.ofNat 16 r.1, BitVec.ofNat 16 r.2⟩

/-- The blocks of an extent. -/
def Inode.range (e : Inode) : ℕ × ℕ := (e.offset.toNat, e.length.toNat)

namespace SectorMap

/-- The maximal runs of free bits. -/
def runs (m : SectorMap) : List (ℕ × ℕ) := allRuns (scanRuns m.free m.numBits)

/-- The free extents of the map. -/
def extents (m : SectorMap) : List Inode := m.runs.map inodeOf

/-- The bit of a block is in the map, and set. -/
def FreeBit (m : SectorMap) (i : ℕ) : Prop := i < m.numBits ∧ m.free i = true

end SectorMap

/-- Functions that note each extent with its first sector and the number of its sectors, the latest
one in front. -/
def reportFns : ExtentFns (List (BitVec 16 × ℕ)) where
  firstFree := some fun sector l => (sector, 1) :: l
  nextFree := some fun _ l => l.modifyHead fun e => (e.1, e.2 + 1)

/-- The extents that the traversal reports, in its order. -/
def reportedExtents (m : SectorMap) : Option (List (BitVec 16 × ℕ)) :=
  (traverseExtents reportFns m []).map List.reverse

/-- One candidate of `Rafs_FindLongestFirstUse`: the first of the longest stays. -/
def longer (result current : Inode) : Inode :=
  if current.length > result.length then current else result

section Uses

variable {m : SectorMap} {st : List (ℕ × ℕ) × ℕ × ℕ}

theorem runs_spec (m : SectorMap) : Runs m.FreeBit m.runs := (scanned_scanRuns m.free m.numBits).runs

/-- A free bit opens a run, or makes the open one longer. -/
theorem scanRuns_succ_of_free {p : ℕ → Bool} {n : ℕ} (hp : p n = true) :
    scanRuns p (n + 1) = ((scanRuns p n).1,
      if (scanRuns p n).2.2 = 0 then (n, 1) else ((scanRuns p n).2.1, (scanRuns p n).2.2 + 1)) := by
  rw [scanRuns, scanNext, if_pos hp]

/-- A bit in use closes the open run. -/
theorem scanRuns_succ_of_used {p : ℕ → Bool} {n : ℕ} (hp : p n = false)
    (hlen : (scanRuns p n).2.2 ≠ 0) :
    scanRuns p (n + 1) = ((scanRuns p n).1 ++ [(scanRuns p n).2], (0, 0)) := by
  rw [scanRuns, scanNext, if_neg (by simp [hp]), if_neg hlen]

theorem allRuns_open (h : st.2.2 ≠ 0) : allRuns st = st.1 ++ [st.2] :=
  if_neg h

theorem allRuns_idle (h : st.2.2 = 0) : allRuns st = st.1 := if_pos h

/-- The traversal reports the runs. -/
theorem reported_eq (h0 : m.mapLength ≠ 0) :
    reportedExtents m = some (m.runs.map fun r => (BitVec.ofNat 16 r.1, r.2)) := by
  have hfollows : Follows reportFns m fun st =>
      ((allRuns st).map fun r => (BitVec.ofNat 16 r.1, r.2)).reverse := by
    refine ⟨fun n _ hp hlen => ?_, fun n _ hp hlen => ?_, fun n _ hp hlen => ?_, rfl, rfl⟩
    · rw [scanRuns_succ_of_free hp, if_pos hlen, allRuns_idle hlen, allRuns_open Nat.one_ne_zero]
      simp [callFn, reportFns]
    · rw [scanRuns_succ_of_free hp, if_neg hlen, allRuns_open hlen,
        allRuns_open (Nat.succ_ne_zero _)]
      simp [callFn, reportFns]
    · rw [scanRuns_succ_of_used hp hlen, allRuns_open hlen, allRuns_idle rfl]
      rfl
  rw [reportedExtents, show ([] : List (BitVec 16 × ℕ)) = (([] : List (ℕ × ℕ)).map fun r =>
    (BitVec.ofNat 16 r.1, r.2)).reverse from rfl]
  exact (congrArg (Option.map List.reverse) (traverse_eq hfollows h0)).trans
    (by rw [map_some, reverse_reverse]; rfl)

theorem inodeOf_succ (a len : ℕ) :
    (⟨(inodeOf (a, len)).offset, (inodeOf (a, len)).length + 1⟩ : Inode) = inodeOf (a, len + 1) := by
  simp [inodeOf, ofNat_add]

/-- The first of the longest extents is found. -/
theorem findLongest_eq (h0 : m.mapLength ≠ 0) :
    findLongestFreeExtent m = some (m.extents.foldl longer ⟨0, 0⟩) := by
  have hfollows : Follows findLongestFns m fun st =>
      ⟨inodeOf st.2, (st.1.map inodeOf).foldl longer ⟨0, 0⟩⟩ := by
    refine ⟨fun n _ hp hlen => ?_, fun n _ hp hlen => ?_, fun n _ hp hlen => ?_, rfl, rfl⟩
    · rw [scanRuns_succ_of_free hp, if_pos hlen]
      rfl
    · rw [scanRuns_succ_of_free hp, if_neg hlen, ← inodeOf_succ]
      rfl
    · rw [scanRuns_succ_of_used hp hlen, map_append, foldl_append]
      rfl
  rw [findLongestFreeExtent]
  refine (congrArg _ (traverse_eq hfollows h0)).trans ?_
  rw [map_some, SectorMap.extents, SectorMap.runs]
  by_cases hlen : (scanRuns m.free m.numBits).2.2 = 0
  · rw [allRuns_idle hlen, ((scanned_scanRuns m.free m.numBits).idle hlen).1, if_neg]
    exact fun h => absurd h (by simp [inodeOf])
  · rw [allRuns_open hlen, map_append, foldl_append]
    rfl

/-- The extents are counted. -/
theorem countFree_eq (h0 : m.mapLength ≠ 0) :
    countFreeExtents m = some (BitVec.ofNat 16 m.runs.length) := by
  have hfollows : Follows countExtentsFns m fun st => BitVec.ofNat 16 (allRuns st).length := by
    refine ⟨fun n _ hp hlen => ?_, fun n _ hp hlen => ?_, fun n _ hp hlen => ?_, rfl, rfl⟩
    · rw [scanRuns_succ_of_free hp, if_pos hlen, allRuns_idle hlen, allRuns_open Nat.one_ne_zero,
        length_append, ofNat_add]
      rfl
    · rw [scanRuns_succ_of_free hp, if_neg hlen, allRuns_open hlen,
        allRuns_open (Nat.succ_ne_zero _), length_append, length_append]
      rfl
    · rw [scanRuns_succ_of_used hp hlen, allRuns_open hlen, allRuns_idle rfl]
      rfl
  exact traverse_eq hfollows h0

/-- The context of `Rafs_GetFreeExtents` for a state of the scan. -/
def getRepr (num : BitVec 16) (st : List (ℕ × ℕ) × ℕ × ℕ) : GetExtents where
  list i := if i < num.toNat then inodeOf (st.1.getD i (0, 0)) else ⟨0, 0⟩
  listlen := num
  count := BitVec.ofNat 16 st.1.length
  current := inodeOf st.2

/-- An extent is put behind the others, as long as they can be counted. -/
theorem put_getRepr {num : BitVec 16} (h : st.1.length < 2 ^ 16) :
    (getRepr num st).put = getRepr num (st.1 ++ [st.2], st.2) := by
  have hcount : (BitVec.ofNat 16 st.1.length).toNat = st.1.length := by
    rw [toNat_ofNat, Nat.mod_eq_of_lt h]
  have hlist : (getRepr num st).put.list = (getRepr num (st.1 ++ [st.2], st.2)).list := by
    funext i
    simp only [GetExtents.put, getRepr, lt_def, hcount]
    by_cases hi : i = st.1.length
    · subst hi
      by_cases hlt : st.1.length < num.toNat
      · rw [if_pos hlt, update_self, if_pos hlt, getD_append_right _ _ _ _ le_rfl,
          Nat.sub_self]
        rfl
      · rw [if_neg hlt, if_neg hlt, if_neg hlt]
    · have hget : (st.1 ++ [st.2]).getD i (0, 0) = st.1.getD i (0, 0) := by
        by_cases hlt : i < st.1.length
        · rw [getD_append _ _ _ _ hlt]
        · rw [getD_eq_default _ _ (not_lt.mp hlt), getD_eq_default]
          simp only [length_append, length_singleton]
          omega
      rw [hget]
      by_cases hlt : st.1.length < num.toNat
      · rw [if_pos hlt, update_of_ne hi]
      · rw [if_neg hlt]
  have hnext : (getRepr num st).put.count = (getRepr num (st.1 ++ [st.2], st.2)).count := by
    simp only [GetExtents.put, getRepr, length_append, ofNat_add]
    rfl
  calc (getRepr num st).put
      = ⟨(getRepr num st).put.list, num, (getRepr num st).put.count, inodeOf st.2⟩ := rfl
    _ = _ := by rw [hlist, hnext]; rfl

theorem length_inodeOf_pos {r : ℕ × ℕ} (h0 : r.2 ≠ 0) (h : r.2 < 2 ^ 16) :
    (inodeOf r).length > 0 := by
  rw [gt_iff_lt, lt_def, inodeOf, toNat_ofNat, Nat.mod_eq_of_lt h]
  exact Nat.pos_of_ne_zero h0

theorem put_of_open {num : BitVec 16} (h0 : st.2.2 ≠ 0) (hlen : st.2.2 < 2 ^ 16)
    (hcount : st.1.length < 2 ^ 16) :
    (if (getRepr num st).current.length > 0 then (getRepr num st).put else getRepr num st) =
      getRepr num (st.1 ++ [st.2], st.2) := by
  have hpos : (getRepr num st).current.length > 0 := length_inodeOf_pos h0 hlen
  rw [if_pos hpos, put_getRepr hcount]

theorem follows_getExtents (num : BitVec 16) (hlen : ∀ r ∈ m.runs, r.2 < 2 ^ 16)
    (hcount : m.runs.length < 2 ^ 16) : Follows getExtentsFns m (getRepr num) := by
  refine ⟨fun n _ hp hidle => ?_, fun n _ hp hopen => ?_, fun n hn hp hopen => ?_, ?_, rfl⟩
  · rw [scanRuns_succ_of_free hp, if_pos hidle]
    rfl
  · rw [scanRuns_succ_of_free hp, if_neg hopen, getRepr, getRepr, ← inodeOf_succ]
    rfl
  · -- the run that is closed here is one of all
    have hclosed := scanRuns_succ_of_used hp hopen
    have hpre := closed_take_allRuns m.free (show n + 1 ≤ m.numBits from hn)
    rw [hclosed] at hpre ⊢
    have hrun := hlen _ (hpre.subset (mem_append_right _ (mem_singleton_self _)))
    have hlt : (scanRuns m.free n).1.length < 2 ^ 16 := by
      have := hpre.length_le
      rw [length_append, length_singleton] at this
      exact lt_of_lt_of_le (Nat.lt_succ_self _) (this.trans hcount.le)
    simp only [callFn, getExtentsFns]
    rw [put_of_open hopen hrun hlt]
    rfl
  · simp only [callFn, getExtentsFns]
    rw [if_neg (by simp [getRepr, inodeOf])]
    simp [getRepr, inodeOf]

/-- Behind the last bit the open run is put as well. -/
theorem getRepr_end (num : BitVec 16) (hlen : ∀ r ∈ m.runs, r.2 < 2 ^ 16)
    (hcount : m.runs.length < 2 ^ 16) :
    ∃ cur, (let data := getRepr num (scanRuns m.free m.numBits)
      if data.current.length > 0 then data.put else data) = getRepr num (m.runs, cur) := by
  by_cases hidle : (scanRuns m.free m.numBits).2.2 = 0
  · have hruns : m.runs = (scanRuns m.free m.numBits).1 := allRuns_idle hidle
    have hzero : ¬(getRepr num (scanRuns m.free m.numBits)).current.length > 0 := by
      rw [getRepr, ((scanned_scanRuns m.free m.numBits).idle hidle).1]
      simp [inodeOf]
    exact ⟨_, by rw [hruns]; exact if_neg hzero⟩
  · have hruns : m.runs = (scanRuns m.free m.numBits).1 ++ [(scanRuns m.free m.numBits).2] :=
      allRuns_open hidle
    have hrun := hlen (scanRuns m.free m.numBits).2 (by rw [hruns]; simp)
    refine ⟨(scanRuns m.free m.numBits).2, ?_⟩
    rw [hruns, length_append, length_singleton] at hcount
    rw [hruns]
    exact put_of_open hidle hrun (by omega)

/-- The list of the extents, where they can be counted and their lengths held. -/
theorem getFree_eq (h0 : m.mapLength ≠ 0) (hlen : ∀ r ∈ m.runs, r.2 < 2 ^ 16)
    (hcount : m.runs.length < 2 ^ 16) :
    getFreeExtents m (BitVec.ofNat 16 m.runs.length) =
      some (sortInodes m.extents, BitVec.ofNat 16 m.runs.length) := by
  set num := BitVec.ofNat 16 m.runs.length with hnum
  have hnumNat : num.toNat = m.runs.length := by
    rw [hnum, toNat_ofNat, Nat.mod_eq_of_lt hcount]
  have hstart : (⟨fun _ => ⟨0, 0⟩, num, 0, ⟨0, 0⟩⟩ : GetExtents) = getRepr num ([], (0, 0)) := by
    simp [getRepr, inodeOf]
  obtain ⟨cur, hend⟩ := getRepr_end num hlen hcount
  rw [getFreeExtents, hstart, traverse_eq (follows_getExtents num hlen hcount) h0, map_some]
  dsimp only at hend ⊢
  rw [hend]
  have hlist : (List.range (min num.toNat num.toNat)).map (getRepr num (m.runs, cur)).list =
      m.extents := by
    rw [min_self, hnumNat]
    refine ext_getElem (by simp [SectorMap.extents]) fun i h1 h2 => ?_
    have hi : i < m.runs.length := by simpa using h1
    rw [getElem_map, getElem_range, getRepr]
    simp only [hnumNat, if_pos hi, SectorMap.extents, getElem_map]
    rw [getD_eq_getElem _ _ hi]
  exact congrArg some (Prod.ext (congrArg sortInodes hlist) rfl)

end Uses

end Mh40.Rafs
