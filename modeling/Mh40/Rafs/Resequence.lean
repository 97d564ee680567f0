import Mathlib.Algebra.Order.Ring.Nat
import Mh40.Rafs.Integrity

/-!
# Directories, and their files renumbered

A directory in use is a list of entries, each a file or a deleted one, laid out from slot 1 of a
table with erased slots behind it. The loops of `rafs_compact.c` see exactly the files of that
list; what `Rafs_GetNormalisedSequenceNumbers` makes of them is the same files in the same order,
numbered from 1 so that the order of their sequence numbers is kept.

* `Directory`, `OnFat`, `Consistent` — a directory, and the tables that hold it;
* `SameFiles` — what a compaction may change;
* `Normalised` — what the renumbering promises, `getNormalisedSequenceNumbers_spec` that it keeps
  it;
* `copyToBackupLoop_eq`, `copyToPrimaryLoop_eq` — the copying loops write the entries one by one.
-/

namespace Mh40.Rafs

open Lib.Flash List Option

/-! ## Directories -/

/-- The entries from slot 1 on, each of a file or deleted. -/
structure Directory where
  entries : List Dirent
  length_lt : entries.length < maxDirEntries
  classified : ∀ d ∈ entries, classifyDirent d.first = .file ∨ classifyDirent d.first = .deleted

/-- The entries of the files. -/
def liveEntries (es : List Dirent) : List Dirent := es.filter fun d => !isDeletedEntry d

/-- The deleted entries. -/
def deletedEntries (es : List Dirent) : List Dirent := es.filter isDeletedEntry

/-- The table holds the entries, and erased slots behind them. -/
def OnFat (es : List Dirent) (fat : ℕ → Dirent) : Prop :=
  ∀ i, i < maxDirEntries - 1 → fat (i + 1) = es.getD i ⊤

/-- Both tables are valid and hold the same directory. -/
structure Consistent (D : Directory) (f : Fats) : Prop where
  root : ∀ id, f id rootDirentNumber = getInitialRoot id
  entries : ∀ id, OnFat D.entries (f id)

/-- The tables that a directory makes. -/
def Directory.fats (D : Directory) : Fats
  | id, 0 => getInitialRoot id
  | _, i + 1 => D.entries.getD i ⊤

theorem consistent_fats (D : Directory) : Consistent D D.fats := ⟨fun _ => rfl, fun _ _ _ => rfl⟩

/-- An entry without its sequence number. -/
def Dirent.unnumbered (d : Dirent) : Dirent := { d with sequenceCount := 0 }

/-- What a compaction may change: the sequence numbers, but not their order, and the deleted
entries, of which it adds none. -/
structure SameFiles (old new : List Dirent) : Prop where
  files : (liveEntries new).map Dirent.unnumbered = (liveEntries old).map Dirent.unnumbered
  order : ∀ (k l : ℕ) (a b a' b' : Dirent), (liveEntries old)[k]? = some a → (liveEntries old)[l]? = some b →
    (liveEntries new)[k]? = some a' → (liveEntries new)[l]? = some b' →
    a.sequenceCount < b.sequenceCount → a'.sequenceCount < b'.sequenceCount
  deleted : (deletedEntries new).Sublist (deletedEntries old)

theorem SameFiles.refl (es : List Dirent) : SameFiles es es where
  files := rfl
  order k l a b a' b' ha hb ha' hb' h := by
    obtain rfl := some.inj (ha.symm.trans ha')
    obtain rfl := some.inj (hb.symm.trans hb')
    exact h
  deleted := Sublist.refl _

theorem Directory.not_erased (D : Directory) {d : Dirent} (hd : d ∈ D.entries) :
    isErasedData d = false := by
  have h255 : d.first ≠ 0xFF := by
    intro h
    have hc := D.classified d hd
    rw [classifyDirent_erased.mpr h] at hc
    simp at hc
  simp only [isErasedData, beq_eq_false_iff_ne, ne_eq]
  rintro rfl
  exact h255 rfl

/-! ## What the loops see -/

/-- The slots from `s` on hold `es`, and erased entries up to `s + m`. -/
structure LaidOut (fat : ℕ → Dirent) (s m : ℕ) (es : List Dirent) : Prop where
  slots : ∀ i, i < m → fat (s + i) = es.getD i ⊤
  length_le : es.length ≤ m
  not_erased : ∀ d ∈ es, isErasedData d = false

/-- The files of `es` with their slots. -/
def liveSlots (es : List Dirent) (s : ℕ) : List (Dirent × ℕ) :=
  (es.zipIdx s).filter fun x => !isDeletedEntry x.1

section Scans

variable {fat : ℕ → Dirent} {s m : ℕ} {es : List Dirent} {d : Dirent}

theorem LaidOut.tail (h : LaidOut fat s m (d :: es)) :
    ∃ k, m = k + 1 ∧ fat s = d ∧ isErasedData d = false ∧ LaidOut fat (s + 1) k es := by
  obtain ⟨k, rfl⟩ : ∃ k, m = k + 1 := ⟨m - 1, by have := h.length_le; simp at this; omega⟩
  refine ⟨k, rfl, by simpa using h.slots 0 (by omega), h.not_erased d mem_cons_self, ?_, ?_,
    fun x hx => h.not_erased x (mem_cons_of_mem d hx)⟩
  · intro i hi
    have := h.slots (i + 1) (by omega)
    rw [show s + 1 + i = s + (i + 1) by omega, this]
    simp
  · simpa using h.length_le

theorem LaidOut.nil_erased (h : LaidOut fat s (m + 1) []) : isErasedData (fat s) = true := by
  have := h.slots 0 (by omega)
  simp only [add_zero, getD_nil] at this
  simp [isErasedData, this]
@[simp] theorem liveSlots_nil (s : ℕ) : liveSlots [] s = [] := rfl

theorem liveSlots_cons_deleted (h : isDeletedEntry d = true) :
    liveSlots (d :: es) s = liveSlots es (s + 1) := by
  simp [liveSlots, h]

theorem liveSlots_cons_live (h : isDeletedEntry d = false) :
    liveSlots (d :: es) s = (d, s) :: liveSlots es (s + 1) := by
  simp [liveSlots, h]

theorem liveSlots_map_fst (es : List Dirent) (s : ℕ) :
    (liveSlots es s).map Prod.fst = liveEntries es := by
  induction es generalizing s with
  | nil => rfl
  | cons d es ih =>
    cases h : isDeletedEntry d with
    | true => simpa [liveSlots_cons_deleted h, liveEntries, h] using ih (s + 1)
    | false => simpa [liveSlots_cons_live h, liveEntries, h] using ih (s + 1)

/-- The slots of the files ascend. -/
theorem liveSlots_pairwise (es : List Dirent) (s : ℕ) :
    ((liveSlots es s).map Prod.snd).Pairwise (· < ·) ∧ ∀ i ∈ (liveSlots es s).map Prod.snd, s ≤ i := by
  induction es generalizing s with
  | nil => simp
  | cons d es ih =>
    obtain ⟨hp, hs⟩ := ih (s + 1)
    cases h : isDeletedEntry d with
    | true =>
      rw [liveSlots_cons_deleted h]
      exact ⟨hp, fun i hi => by have := hs i hi; omega⟩
    | false =>
      rw [liveSlots_cons_live h]
      refine ⟨pairwise_cons.mpr ⟨fun i hi => by have := hs i hi; omega, hp⟩, fun i hi => ?_⟩
      rcases mem_cons.mp hi with rfl | hi
      · exact le_rfl
      · have := hs i hi
        omega

theorem countValidFilesFrom_eq (h : LaidOut fat s m es) :
    countValidFilesFrom fat (List.range' s m) = (liveSlots es s).length := by
  induction es generalizing s m with
  | nil =>
    cases m with
    | zero => rfl
    | succ m => simp [range'_succ, countValidFilesFrom, h.nil_erased]
  | cons d es ih =>
    obtain ⟨k, rfl, hd, he, ht⟩ := h.tail
    rw [range'_succ, countValidFilesFrom, hd, he, ih ht]
    cases hdel : isDeletedEntry d with
    | true => simp [liveSlots_cons_deleted hdel]
    | false => simp [liveSlots_cons_live hdel]

theorem gatherSequenceNumbers_eq (h : LaidOut fat s m es) :
    gatherSequenceNumbers fat (liveSlots es s).length (List.range' s m)
      = (liveSlots es s).map fun x => ⟨x.2, x.1.sequenceCount⟩ := by
  induction es generalizing s m with
  | nil => simp [gatherSequenceNumbers]
  | cons d es ih =>
    obtain ⟨k, rfl, hd, he, ht⟩ := h.tail
    cases hdel : isDeletedEntry d with
    | true =>
      have := ih ht
      rw [liveSlots_cons_deleted hdel, range'_succ]
      cases hn : (liveSlots es (s + 1)).length with
      | zero => simp [gatherSequenceNumbers, length_eq_zero_iff.mp hn]
      | succ n =>
        rw [hn] at this
        rw [gatherSequenceNumbers, hd, he, hdel]
        simpa using this
    | false =>
      rw [liveSlots_cons_live hdel, range'_succ, length_cons, gatherSequenceNumbers, hd, he,
        hdel]
      simp [ih ht]

end Scans

/-! ## The renumbering -/

/-- What the renumbering promises of the files `old`: one number for each, in the same order. -/
structure Normalised (old : List (Dirent × ℕ)) (rs : List Resequence) : Prop where
  length_eq : rs.length = old.length
  order : ∀ (k l : ℕ) (x y : Dirent × ℕ) (r t : Resequence), old[k]? = some x → old[l]? = some y →
    rs[k]? = some r → rs[l]? = some t →
    x.1.sequenceCount < y.1.sequenceCount → r.sequenceNumber < t.sequenceNumber

section Renumber

variable {old : List (Dirent × ℕ)} (qsort : Qsort)

/-- The files as the array holds them before the sorts. -/
def gathered (old : List (Dirent × ℕ)) : List Resequence :=
  old.map fun x => ⟨x.2, x.1.sequenceCount⟩

theorem map_fatIndex_renumber (rs : List Resequence) :
    (renumber rs).map Resequence.fatIndex = rs.map Resequence.fatIndex := by
  refine ext_getElem? fun i => ?_
  simp [renumber, Function.comp_def]

section

variable (hp : (old.map Prod.snd).Pairwise (· < ·))
include hp

/-- The second sort puts the renumbered files back in the order of the table. -/
theorem map_fatIndex_sorted :
    (qsort.sort sortFatIndexAscending
      (renumber (qsort.sort sortSequenceNumberAscending (gathered old)))).map Resequence.fatIndex
      = old.map Prod.snd := by
  refine Perm.eq_of_pairwise' (r := (· ≤ ·)) ?_ (hp.imp fun h => h.le) ?_
  · exact (qsort.ascending Resequence.fatIndex _).map _ fun a b h => h
  · refine ((qsort.perm _ _).map _).trans ?_
    rw [map_fatIndex_renumber]
    refine ((qsort.perm _ _).map _).trans ?_
    simp [gathered, Function.comp_def]

/-- The new number of a file is one more than its place in the first sort. -/
theorem place_of_sorted {k : ℕ} {x : Dirent × ℕ} {r : Resequence} (hx : old[k]? = some x)
    (hr : (qsort.sort sortFatIndexAscending
      (renumber (qsort.sort sortSequenceNumberAscending (gathered old))))[k]? = some r) :
    ∃ p, (qsort.sort sortSequenceNumberAscending (gathered old))[p]?
        = some ⟨x.2, x.1.sequenceCount⟩ ∧
      r.sequenceNumber = BitVec.ofNat 16 (p + 1) := by
  have hindex : r.fatIndex = x.2 := by
    have := congrArg (fun l => l[k]?) (map_fatIndex_sorted qsort hp)
    simpa [hx, hr] using this
  have hmem := (qsort.perm _ _).mem_iff.mp (mem_of_getElem? hr)
  obtain ⟨p, hp'⟩ := mem_iff_getElem?.mp hmem
  rw [renumber, getElem?_mapIdx, map_eq_some_iff] at hp'
  obtain ⟨t, ht, rfl⟩ := hp'
  refine ⟨p, ?_, rfl⟩
  obtain ⟨y, hy, rfl⟩ := List.mem_map.mp ((qsort.perm _ _).mem_iff.mp (mem_of_getElem? ht))
  have hyx : y = x :=
    inj_on_of_nodup_map (hp.imp fun h => h.ne) hy (mem_of_getElem? hx) hindex
  rw [ht, hyx]

theorem normalised_sorted (hlen : old.length < maxDirEntries) :
    Normalised old (qsort.sort sortFatIndexAscending
      (renumber (qsort.sort sortSequenceNumberAscending (gathered old)))) where
  length_eq := by
    rw [(qsort.perm _ _).length_eq, renumber, length_mapIdx, (qsort.perm _ _).length_eq,
      gathered, length_map]
  order k l x y r t hx hy hr ht hlt := by
    obtain ⟨p, hp1, hr'⟩ := place_of_sorted qsort hp hx hr
    obtain ⟨q, hq1, ht'⟩ := place_of_sorted qsort hp hy ht
    have hasc : (qsort.sort sortSequenceNumberAscending (gathered old)).Pairwise fun a b =>
        a.sequenceNumber.toNat ≤ b.sequenceNumber.toNat :=
      qsort.ascending (fun r => r.sequenceNumber.toNat) (gathered old)
    -- a later place would have put the files the other way round
    have hpq : p < q := by
      by_contra hqp
      rcases Nat.lt_or_eq_of_le (not_lt.mp hqp) with h | rfl
      · have := (pairwise_iff_getElem.mp hasc) q p (List.getElem?_eq_some_iff.mp hq1).1
          (List.getElem?_eq_some_iff.mp hp1).1 h
        rw [(List.getElem?_eq_some_iff.mp hq1).2, (List.getElem?_eq_some_iff.mp hp1).2] at this
        exact absurd hlt (BitVec.not_lt.mpr this)
      · rw [hp1] at hq1
        have := congrArg Resequence.sequenceNumber (some.inj hq1)
        exact absurd hlt (by simp_all)
    have hq : q < maxDirEntries := by
      have := (List.getElem?_eq_some_iff.mp hq1).1
      rw [(qsort.perm _ _).length_eq, gathered, length_map] at this
      omega
    rw [hr', ht', BitVec.lt_def, BitVec.toNat_ofNat, BitVec.toNat_ofNat]
    unfold maxDirEntries at hq
    omega

end

end Renumber

/-- **The renumbering keeps its promise.** The array is filled exactly, and holds one number for
each file of the directory. -/
theorem getNormalisedSequenceNumbers_spec (qsort : Qsort) {v : Volume} {es : List Dirent}
    (h : LaidOut (v.now .priFat) 1 (getNumberOfDirEntries v - 1) es)
    (hlen : es.length < maxDirEntries) :
    countValidFiles v = (liveSlots es 1).length ∧
      ∃ rs, getNormalisedSequenceNumbers qsort v (liveSlots es 1).length = some rs ∧
        Normalised (liveSlots es 1) rs := by
  refine ⟨countValidFilesFrom_eq h, _, ?_, normalised_sorted qsort (liveSlots_pairwise es 1).1 ?_⟩
  · rw [getNormalisedSequenceNumbers, scanSlots, gatherSequenceNumbers_eq h,
      if_pos (length_map ..)]
    rfl
  · refine lt_of_le_of_lt ?_ hlen
    calc (liveSlots es 1).length = (liveEntries es).length := by
          rw [← liveSlots_map_fst es 1, length_map]
      _ ≤ es.length := length_filter_le ..

/-! ## What the copying loops write -/

/-- The entries written one after the other, from slot `j` on. -/
def writeEntries (id : BlockId) : ℕ → List Dirent → Volume → Volume
  | _, [], v => v
  | j, d :: ds, v => writeEntries id (j + 1) ds (v.dirEntryWrite id d j)

/-- The files of `old` with the numbers of `rs`. -/
def renumbered (old : List (Dirent × ℕ)) (rs : List Resequence) : List Dirent :=
  List.zipWith (fun x r => { x.1 with sequenceCount := r.sequenceNumber }) old rs

section Writes

variable {id c : BlockId} {v : Volume} {d : Dirent} {es : List Dirent} {s m : ℕ}

theorem now_writeMember_same (v : Volume) (id : BlockId) (part : Dirent) (n : ℕ) :
    (v.dirEntryWriteMember id part n).now id n = v.now id n ⊓ part :=
  apply_program_same id n part v.flash.now

theorem now_writeMember_slot_ne {n k : ℕ} (h : k ≠ n) (part : Dirent) :
    (v.dirEntryWriteMember id part n).now c k = v.now c k :=
  apply_program_cell_ne id h part v.flash.now c

theorem now_writeMember_of_ne (h : c ≠ id) (part : Dirent) (n : ℕ) :
    (v.dirEntryWriteMember id part n).now c = v.now c :=
  apply_program_of_ne h n part v.flash.now

theorem now_dirEntryWrite_same (n : ℕ) : (v.dirEntryWrite id d n).now id n = v.now id n ⊓ d := by
  rw [Volume.dirEntryWrite, Volume.dirEntryWriteFirst, now_writeMember_same,
    Volume.dirEntryWriteData, now_writeMember_same, inf_assoc, Dirent.dataPart_inf_firstPart]

theorem now_dirEntryWrite_slot_ne {n k : ℕ} (h : k ≠ n) :
    (v.dirEntryWrite id d n).now c k = v.now c k :=
  (now_writeMember_slot_ne h _).trans (now_writeMember_slot_ne h _)

theorem now_dirEntryWrite_of_ne (h : c ≠ id) (n : ℕ) :
    (v.dirEntryWrite id d n).now c = v.now c :=
  (now_writeMember_of_ne h _ _).trans (now_writeMember_of_ne h _ _)

theorem now_writeEntries_of_ne (h : c ≠ id) (j : ℕ) (ds : List Dirent) (v : Volume) :
    (writeEntries id j ds v).now c = v.now c := by
  induction ds generalizing j v with
  | nil => rfl
  | cons d ds ih => rw [writeEntries, ih, now_dirEntryWrite_of_ne h]

theorem now_writeEntries_below {j k : ℕ} (h : k < j) (ds : List Dirent) (v : Volume) :
    (writeEntries id j ds v).now id k = v.now id k := by
  induction ds generalizing j v with
  | nil => rfl
  | cons d ds ih => rw [writeEntries, ih (by omega), now_dirEntryWrite_slot_ne (by omega)]

theorem now_writeEntries (j k : ℕ) (ds : List Dirent) (v : Volume) :
    (writeEntries id j ds v).now id (j + k) = v.now id (j + k) ⊓ ds.getD k ⊤ := by
  induction ds generalizing j k v with
  | nil => simp [writeEntries]
  | cons d ds ih =>
    rw [writeEntries]
    cases k with
    | zero =>
      rw [now_writeEntries_below (by omega)]
      simpa using now_dirEntryWrite_same j
    | succ k =>
      rw [show j + (k + 1) = j + 1 + k by omega, ih, now_dirEntryWrite_slot_ne (by omega)]
      simp

@[simp] theorem sequenceNumber_writeEntries (j : ℕ) (ds : List Dirent) (v : Volume) :
    (writeEntries id j ds v).sequenceNumber = v.sequenceNumber := by
  induction ds generalizing j v with
  | nil => rfl
  | cons d ds ih => exact ih (j + 1) _

/-- While the entries of a table are written, the images have every property that no such write
disturbs. -/
theorem through_writeEntries {P Q : Fats → Prop} {j : ℕ} {ds : List Dirent}
    (hP : ∀ f i x, 0 < i → P f → P ((Op.program id i x).apply f)) (hPQ : ∀ f, P f → Q f)
    (hj : 0 < j) (h : v.flash.Through Q) (hnow : P v.now) :
    (writeEntries id j ds v).flash.Through Q := by
  induction ds generalizing j v with
  | nil => exact h
  | cons d ds ih =>
    have hdata := hP _ j d.dataPart hj hnow
    have hfirst := hP _ j (.firstPart d.first) hj hdata
    exact ih (by omega) ((h.op (hPQ _ hdata)).op (hPQ _ hfirst)) hfirst

theorem copyToBackupLoop_eq {j : ℕ} (rs : List Resequence) (hj : 0 < j)
    (h : LaidOut (v.now .priFat) s m es) (hrs : j - 1 + (liveSlots es s).length ≤ rs.length) :
    copyToBackupLoop rs (List.range' s m) j v = some (j + (liveSlots es s).length,
      writeEntries .secFat j (renumbered (liveSlots es s) (rs.drop (j - 1))) v) := by
  induction es generalizing s m j v with
  | nil =>
    cases m with
    | zero => rfl
    | succ m => simp [range'_succ, copyToBackupLoop, h.nil_erased, renumbered, writeEntries]
  | cons d es ih =>
    obtain ⟨k, rfl, hd, he, ht⟩ := h.tail
    rw [range'_succ, copyToBackupLoop, hd, he]
    cases hdel : isDeletedEntry d with
    | true =>
      rw [liveSlots_cons_deleted hdel] at hrs ⊢
      simpa using ih hj ht hrs
    | false =>
      rw [liveSlots_cons_live hdel, length_cons] at hrs ⊢
      have hlt : j - 1 < rs.length := by omega
      have hnow : (v.dirEntryWrite .secFat { d with sequenceCount := rs[j - 1].sequenceNumber } j).now
          .priFat = v.now .priFat := now_dirEntryWrite_of_ne (by decide) j
      have hrec := ih (v := v.dirEntryWrite .secFat
        { d with sequenceCount := rs[j - 1].sequenceNumber } j) (j := j + 1) (by omega)
        (hnow ▸ ht) (by omega)
      rw [getElem?_eq_getElem hlt]
      simp only [Bool.false_eq_true, if_false, bind_eq_bind, bind_some, hrec]
      rw [show j + 1 - 1 = j - 1 + 1 by omega, drop_eq_getElem_cons hlt]
      simp only [renumbered, zipWith_cons_cons, writeEntries, some.injEq, Prod.mk.injEq,
        and_true]
      omega

theorem copyToPrimaryLoop_eq (h : LaidOut (v.now .secFat) s m es) :
    copyToPrimaryLoop (List.range' s m) v = writeEntries .priFat s es v := by
  induction es generalizing s m v with
  | nil =>
    cases m with
    | zero => rfl
    | succ m => simp [range'_succ, copyToPrimaryLoop, h.nil_erased, writeEntries]
  | cons d es ih =>
    obtain ⟨k, rfl, hd, he, ht⟩ := h.tail
    have hnow : (v.dirEntryWrite .priFat d s).now .secFat = v.now .secFat :=
      now_dirEntryWrite_of_ne (by decide) s
    rw [range'_succ, copyToPrimaryLoop, hd, he, writeEntries, ← ih (hnow ▸ ht)]
    rfl

end Writes

end Mh40.Rafs
