import Mathlib.Data.List.GetD
import Mh40.Rafs.Resequence

/-!
# Compaction survives a loss of power

The first characters of the two root entries say which table is intact. Every image that the worker
or a repair leaves is `Recoverable`: both tables valid, the primary intact and marked as being
compacted, the secondary intact and marked as the master, or everything written but the mark of
the primary. The repair of mount brings each of these back to two valid tables, and works through
recoverable images itself, so it may be cut short as often as it likes.

* `Recoverable` — the images, `Stage` — what each state of the worker finds;
* `progress_stage` — one message of the worker leads from stage to stage;
* `checkIntegrity_recoverable` — the repair succeeds on every recoverable image;
* `compaction_crash_safe` — the result for every interrupted compaction.
-/

namespace Mh40.Rafs

open Lib.Flash List Option

/-! ## The compacted directory -/

section Compacted

variable {D : Directory} {rs : List Resequence}

theorem mem_renumbered {old : List (Dirent × ℕ)} {d : Dirent} (hd : d ∈ renumbered old rs) :
    ∃ x ∈ old, d.unnumbered = x.1.unnumbered ∧ d.first = x.1.first := by
  rw [renumbered, zipWith_eq_zipWith_take_min] at hd
  obtain ⟨i, hi, rfl⟩ := mem_iff_getElem.mp hd
  rw [getElem_zipWith, getElem_take]
  exact ⟨_, getElem_mem _, rfl, rfl⟩

theorem live_of_mem_liveSlots {es : List Dirent} {s : ℕ} {x : Dirent × ℕ}
    (hx : x ∈ liveSlots es s) : x.1 ∈ es ∧ isDeletedEntry x.1 = false := by
  have hmem : x.1 ∈ liveEntries es := by
    rw [← liveSlots_map_fst es s]
    exact List.mem_map_of_mem hx
  simpa [liveEntries] using hmem

theorem length_liveSlots_le (es : List Dirent) (s : ℕ) : (liveSlots es s).length ≤ es.length := by
  calc (liveSlots es s).length = (liveEntries es).length := by
        rw [← liveSlots_map_fst es s, length_map]
    _ ≤ es.length := length_filter_le ..

theorem renumbered_not_deleted {d : Dirent} (hd : d ∈ renumbered (liveSlots D.entries 1) rs) :
    isDeletedEntry d = false := by
  obtain ⟨x, hx, -, hfirst⟩ := mem_renumbered hd
  rw [isDeletedEntry, hfirst]
  exact (live_of_mem_liveSlots hx).2

/-- The directory that a compaction makes. -/
def Directory.compacted (D : Directory) (rs : List Resequence) : Directory where
  entries := renumbered (liveSlots D.entries 1) rs
  length_lt := by
    refine lt_of_le_of_lt ?_ D.length_lt
    rw [renumbered, length_zipWith]
    exact (min_le_left _ _).trans (length_liveSlots_le _ _)
  classified d hd := by
    obtain ⟨x, hx, -, hfirst⟩ := mem_renumbered hd
    rw [hfirst]
    exact D.classified x.1 (live_of_mem_liveSlots hx).1

theorem entries_compacted :
    (D.compacted rs).entries = renumbered (liveSlots D.entries 1) rs := rfl

theorem liveEntries_compacted : liveEntries (D.compacted rs).entries = (D.compacted rs).entries :=
  filter_eq_self.mpr fun d hd => by simp [renumbered_not_deleted hd]

theorem deletedEntries_compacted : deletedEntries (D.compacted rs).entries = [] :=
  filter_eq_nil_iff.mpr fun d hd => by simp [renumbered_not_deleted hd]

theorem sameFiles_compacted (h : Normalised (liveSlots D.entries 1) rs) :
    SameFiles D.entries (D.compacted rs).entries where
  files := by
    rw [liveEntries_compacted, ← liveSlots_map_fst D.entries 1, List.map_map]
    refine ext_getElem ?_ fun i h1 h2 => ?_
    · simp [Directory.compacted, renumbered, h.length_eq]
    · simp [Directory.compacted, renumbered, Dirent.unnumbered]
  order k l a b a' b' ha hb ha' hb' hlt := by
    rw [← liveSlots_map_fst D.entries 1, getElem?_map, map_eq_some_iff] at ha hb
    obtain ⟨x, hx, rfl⟩ := ha
    obtain ⟨y, hy, rfl⟩ := hb
    rw [liveEntries_compacted, entries_compacted, renumbered, getElem?_zipWith_eq_some]
      at ha' hb'
    obtain ⟨x', r, hx', hr, rfl⟩ := ha'
    obtain ⟨y', t, hy', ht, rfl⟩ := hb'
    exact h.order k l x y r t hx hy hr ht hlt
  deleted := by
    rw [deletedEntries_compacted]
    exact nil_sublist _

end Compacted

/-! ## Recoverable images -/

/-- The first character that marks the secondary as the master, alone or with the rest of the root
entry already written. -/
def SecondaryMarked (d : Dirent) : Prop :=
  d = .firstPart fcsSecondaryMaster ∨
    d = (getInitialRoot .secFat).dataPart ⊓ .firstPart fcsSecondaryMaster

/-- What a compaction of `D` may leave on the flash. -/
inductive Recoverable (D : Directory) (f : Fats) : Prop
  | valid (E : Directory) (same : SameFiles D.entries E.entries) (consistent : Consistent E f)
  | primaryMaster (pri : (f .priFat rootDirentNumber).first = fcsCompactStart)
      (sec : (f .secFat rootDirentNumber).first = fcsValid ∨
        (f .secFat rootDirentNumber).first = fcsErased)
      (entries : OnFat D.entries (f .priFat))
  | secondaryMaster (E : Directory) (same : SameFiles D.entries E.entries)
      (sec : SecondaryMarked (f .secFat rootDirentNumber))
      (entries : OnFat E.entries (f .secFat))
  | primaryUnmarked (E : Directory) (same : SameFiles D.entries E.entries)
      (pri : f .priFat rootDirentNumber = (getInitialRoot .priFat).dataPart)
      (sec : f .secFat rootDirentNumber = getInitialRoot .secFat)
      (entries : ∀ id, OnFat E.entries (f id))

theorem firstPart_inf_firstPart (a b : BitVec 8) :
    Dirent.firstPart a ⊓ .firstPart b = .firstPart (a &&& b) := by
  refine Dirent.ext (funext fun i => ?_) ?_ ?_ ?_ (funext fun i => ?_)
  · by_cases hi : i = 0
    · subst hi
      simp [Dirent.min_def, Dirent.and, Dirent.firstPart]
    · simp [Dirent.min_def, Dirent.and, Dirent.firstPart, hi, Dirent.erased]
  all_goals simp [Dirent.min_def, Dirent.and, Dirent.firstPart, Dirent.erased, Inode.and,
    Inode.unused]

theorem SecondaryMarked.first {d : Dirent} (h : SecondaryMarked d) :
    d.first = fcsSecondaryMaster := by
  rcases h with rfl | rfl
  · exact Dirent.first_firstPart _
  · simp [fcsSecondaryMaster]

/-- Writing the data of the root entry keeps the mark. -/
theorem SecondaryMarked.inf_dataPart {d : Dirent} (h : SecondaryMarked d) :
    d ⊓ (getInitialRoot .secFat).dataPart
      = (getInitialRoot .secFat).dataPart ⊓ .firstPart fcsSecondaryMaster := by
  rcases h with rfl | rfl
  · exact inf_comm _ _
  · rw [inf_right_comm, inf_idem]

/-- The valid mark clears the bit that the mark of the master left. -/
theorem marked_inf_firstPart : (getInitialRoot .secFat).dataPart ⊓
    .firstPart fcsSecondaryMaster ⊓ .firstPart fcsValid = getInitialRoot .secFat := by
  rw [inf_assoc, firstPart_inf_firstPart, show fcsSecondaryMaster &&& fcsValid = fcsValid by decide]
  have := Dirent.dataPart_inf_firstPart (getInitialRoot .secFat)
  rwa [first_getInitialRoot] at this

theorem dataPart_inf_valid (id : BlockId) :
    (getInitialRoot id).dataPart ⊓ .firstPart fcsValid = getInitialRoot id := by
  have := Dirent.dataPart_inf_firstPart (getInitialRoot id)
  rwa [first_getInitialRoot] at this

/-! ## The stages of the worker -/

/-- The loops visit every entry of the directory. -/
def Covers (es : List Dirent) (limit : ℕ) : Prop := es.length < limit ∧ limit ≤ maxDirEntries

/-- What a state of the worker finds on the flash, with `limit` slots to visit. From
`setSecondaryAsMaster` on, `E` is the compacted directory. -/
def AtState (D E : Directory) (limit : ℕ) (f : Fats) : CompactState → Prop
  | .start => Consistent D f ∧ Covers D.entries limit
  | .eraseSecondaryFat => (f .priFat rootDirentNumber).first = fcsCompactStart ∧
      OnFat D.entries (f .priFat) ∧ Covers D.entries limit
  | .copyDirentsToBackup => (f .priFat rootDirentNumber).first = fcsCompactStart ∧
      OnFat D.entries (f .priFat) ∧ Covers D.entries limit ∧ ∀ i, f .secFat i = ⊤
  | .setSecondaryAsMaster => (f .priFat rootDirentNumber).first = fcsCompactStart ∧
      OnFat D.entries (f .priFat) ∧ f .secFat rootDirentNumber = ⊤ ∧
      SameFiles D.entries E.entries ∧ OnFat E.entries (f .secFat) ∧ Covers E.entries limit
  | .erasePrimaryFat => SameFiles D.entries E.entries ∧
      SecondaryMarked (f .secFat rootDirentNumber) ∧ OnFat E.entries (f .secFat) ∧
      Covers E.entries limit
  | .copyDirentsToPrimary => SameFiles D.entries E.entries ∧
      SecondaryMarked (f .secFat rootDirentNumber) ∧ OnFat E.entries (f .secFat) ∧
      Covers E.entries limit ∧ ∀ i, f .priFat i = ⊤
  | .writeFatHeaderData => SameFiles D.entries E.entries ∧
      SecondaryMarked (f .secFat rootDirentNumber) ∧ (∀ id, OnFat E.entries (f id)) ∧
      f .priFat rootDirentNumber = ⊤
  | .setFatsValid => SameFiles D.entries E.entries ∧
      f .secFat rootDirentNumber
        = (getInitialRoot .secFat).dataPart ⊓ .firstPart fcsSecondaryMaster ∧
      (∀ id, OnFat E.entries (f id)) ∧
      f .priFat rootDirentNumber = (getInitialRoot .priFat).dataPart
  | .sendCompletionMessage => SameFiles D.entries E.entries ∧ Consistent E f

/-- A state of the worker: everything on the way was recoverable. -/
structure Stage (D E : Directory) (s : CompactState) (v : Volume) : Prop where
  through : v.flash.Through (Recoverable D)
  at_state : AtState D E (getNumberOfDirEntries v) v.now s

section Actions

variable {D E : Directory} {v : Volume} {es : List Dirent}

/-- The table, as the loops read it. -/
theorem laidOut_of_onFat {fat : ℕ → Dirent} {limit : ℕ}
    (h : OnFat E.entries fat) (hc : Covers E.entries limit) :
    LaidOut fat 1 (limit - 1) E.entries where
  slots i hi := by
    rw [Nat.add_comm 1 i]
    exact h i (by have := hc.2; omega)
  length_le := by have := hc.1; omega
  not_erased d hd := E.not_erased hd

theorem onFat_congr {fat fat' : ℕ → Dirent} (hf : ∀ i, 0 < i → fat' i = fat i) (h : OnFat es fat) :
    OnFat es fat' :=
  fun i hi => (hf (i + 1) (by omega)).trans (h i hi)

/-- A write to a root entry leaves the entries of the files alone. -/
theorem onFat_program_root {f : Fats} {c : BlockId} (id : BlockId) (d : Dirent) (h : OnFat es (f c)) :
    OnFat es ((Op.program id rootDirentNumber d).apply f c) :=
  onFat_congr (fun i hi => apply_program_cell_ne id (by unfold rootDirentNumber; omega) d f c) h

theorem stage_startAction (h : Stage D E .start v) :
    Stage D E .eraseSecondaryFat (compactWorkerStartAction v) := by
  obtain ⟨hcon, hcov⟩ := h.at_state
  have hpri : ((Op.program .priFat rootDirentNumber (.firstPart fcsCompactStart)).apply v.now
      .priFat rootDirentNumber).first = fcsCompactStart := by
    rw [apply_program_same, hcon.root]
    decide
  have hent := onFat_program_root .priFat (.firstPart fcsCompactStart)
    (hcon.entries .priFat)
  refine ⟨h.through.op (.primaryMaster hpri (.inl ?_) hent), hpri, hent, hcov⟩
  have : v.flash.now .secFat rootDirentNumber = _ := hcon.root .secFat
  rw [apply_program_of_ne (by decide), this]
  exact first_getInitialRoot _

theorem stage_eraseBackupFatAction (h : Stage D E .eraseSecondaryFat v) :
    Stage D E .copyDirentsToBackup (compactWorkerEraseBackupFatAction v) := by
  obtain ⟨hpri, hent, hcov⟩ := h.at_state
  have hne : (Op.erase .secFat : Op BlockId ℕ Dirent).apply v.now .priFat = v.now .priFat :=
    apply_erase_of_ne (by decide) v.now
  have hsec : ∀ i, (Op.erase .secFat : Op BlockId ℕ Dirent).apply v.now .secFat i = ⊤ :=
    apply_erase_same .secFat v.now
  refine ⟨h.through.op (.primaryMaster ?_ (.inr ?_) ?_), ?_, ?_, hcov, hsec⟩
  · exact (congrFun hne _ ▸ hpri)
  · exact congrArg Dirent.first (hsec _)
  · exact hne ▸ hent
  · exact (congrFun hne _ ▸ hpri)
  · exact hne ▸ hent

/-- The entries written over an erased table are the table. -/
theorem onFat_writeEntries {id : BlockId} (h : ∀ i, 0 < i → v.now id i = ⊤) :
    OnFat es ((writeEntries id 1 es v).now id) := by
  intro i _
  rw [Nat.add_comm i 1, now_writeEntries, h (1 + i) (by omega), top_inf_eq]

theorem stage_copyToBackupAction (qsort : Qsort) (h : Stage D E .copyDirentsToBackup v) :
    ∃ w rs, compactWorkerCopyToBackupAction qsort v = some w ∧
      Stage D (D.compacted rs) .setSecondaryAsMaster w ∧
      w.freeDirSlot = (D.compacted rs).entries.length + 1 ∧
      getNormalisedSequenceNumbers qsort v (liveSlots D.entries 1).length = some rs ∧
      w.sequenceNumber = (rs.getLast?.map Resequence.sequenceNumber).getD v.sequenceNumber := by
  obtain ⟨hpri, hent, hcov, hsec⟩ := h.at_state
  have hlaid := laidOut_of_onFat hent hcov
  obtain ⟨hcount, rs, hrs, hnorm⟩ := getNormalisedSequenceNumbers_spec qsort hlaid D.length_lt
  have hloop := copyToBackupLoop_eq rs Nat.one_pos hlaid (by rw [hnorm.length_eq]; omega)
  rw [Nat.sub_self, drop_zero, ← entries_compacted] at hloop
  set last := (rs.getLast?.map Resequence.sequenceNumber).getD v.sequenceNumber with hl
  have hlast : (if (liveSlots D.entries 1).length > 0 then
      (rs[(liveSlots D.entries 1).length - 1]?).map Resequence.sequenceNumber
      else some v.sequenceNumber) = some last := by
    rw [hl, getLast?_eq_getElem?, hnorm.length_eq]
    by_cases hn : (liveSlots D.entries 1).length > 0
    · rw [if_pos hn, getElem?_eq_getElem (by rw [hnorm.length_eq]; omega)]
      rfl
    · rw [if_neg hn, getElem?_eq_none (by rw [hnorm.length_eq]; omega)]
      rfl
  have hseq : (writeEntries .secFat 1 (D.compacted rs).entries v).sequenceNumber
      = v.sequenceNumber := sequenceNumber_writeEntries ..
  have hlen : (D.compacted rs).entries.length = (liveSlots D.entries 1).length := by
    rw [entries_compacted, renumbered, length_zipWith, hnorm.length_eq, min_self]
  refine ⟨{ writeEntries .secFat 1 (D.compacted rs).entries v with
    sequenceNumber := last, freeDirSlot := 1 + (liveSlots D.entries 1).length }, rs,
    ?_, ?_, ?_, hrs, rfl⟩
  · simp only [compactWorkerCopyToBackupAction, hcount, hrs, scanSlots, hloop, bind_eq_bind,
      bind_some, hseq, Nat.add_sub_cancel_left, if_true]
    by_cases hn : (liveSlots D.entries 1).length > 0
    · rw [if_pos hn] at hlast ⊢
      rw [hlast, bind_some]
    · rw [if_neg hn] at hlast ⊢
      rw [some.inj hlast]
  have hnow : (writeEntries .secFat 1 (D.compacted rs).entries v).now .priFat = v.now .priFat :=
    now_writeEntries_of_ne (by decide) ..
  have hroot : (writeEntries .secFat 1 (D.compacted rs).entries v).now .secFat rootDirentNumber
      = ⊤ := (now_writeEntries_below Nat.one_pos ..).trans (hsec _)
  rotate_left
  · rw [hlen, Nat.add_comm]
  refine ⟨?_, congrFun hnow _ ▸ hpri, hnow ▸ hent, hroot, sameFiles_compacted hnorm,
    onFat_writeEntries fun i _ => hsec i, ?_⟩
  · -- on the way the primary is as it was, and the secondary is not marked
    refine through_writeEntries (P := fun f => f .priFat = v.now .priFat ∧
      f .secFat rootDirentNumber = ⊤) ?_ ?_ Nat.one_pos h.through ⟨rfl, hsec _⟩
    · rintro f i x hi ⟨hp, hs⟩
      refine ⟨by rw [apply_program_of_ne (by decide), hp], ?_⟩
      rw [apply_program_cell_ne _ (by unfold rootDirentNumber; omega), hs]
    · rintro f ⟨hp, hs⟩
      refine .primaryMaster ?_ (.inr (congrArg Dirent.first hs)) (hp ▸ hent)
      exact congrFun hp _ ▸ hpri
  · have hn : getNumberOfDirEntries { writeEntries .secFat 1 (D.compacted rs).entries v with
        sequenceNumber := last, freeDirSlot := 1 + (liveSlots D.entries 1).length }
        = 1 + (liveSlots D.entries 1).length := if_neg (by simp)
    have := (D.compacted rs).length_lt
    rw [Covers, hn]
    omega

theorem stage_secondaryIsMasterAction (h : Stage D E .setSecondaryAsMaster v) :
    Stage D E .erasePrimaryFat (compactWorkerSecondaryIsMasterAction v) := by
  obtain ⟨hpri, hent, hroot, hsame, hE, hcov⟩ := h.at_state
  have hmark : (Op.program .secFat rootDirentNumber (.firstPart fcsSecondaryMaster)).apply v.now
      .secFat rootDirentNumber = .firstPart fcsSecondaryMaster := by
    rw [apply_program_same, hroot, top_inf_eq]
  have hE' := onFat_program_root .secFat (.firstPart fcsSecondaryMaster) hE
  exact ⟨h.through.op (.secondaryMaster E hsame (.inl hmark) hE'), hsame, .inl hmark, hE', hcov⟩

theorem stage_erasePrimaryFatAction (h : Stage D E .erasePrimaryFat v) :
    Stage D E .copyDirentsToPrimary (compactWorkerErasePrimaryFatAction v) := by
  obtain ⟨hsame, hmark, hE, hcov⟩ := h.at_state
  have hne : (Op.erase .priFat : Op BlockId ℕ Dirent).apply v.now .secFat = v.now .secFat :=
    apply_erase_of_ne (by decide) v.now
  have hmark' := (congrFun hne rootDirentNumber).symm ▸ hmark
  have hE' := hne.symm ▸ hE
  have herased : ∀ i, (Op.erase .priFat : Op BlockId ℕ Dirent).apply v.now .priFat i = ⊤ :=
    apply_erase_same .priFat v.now
  exact ⟨h.through.op (.secondaryMaster E hsame hmark' hE'), hsame, hmark', hE', hcov, herased⟩

theorem stage_copyToPrimaryAction (h : Stage D E .copyDirentsToPrimary v) :
    Stage D E .writeFatHeaderData (compactWorkerCopyToPrimaryAction v) := by
  obtain ⟨hsame, hmark, hE, hcov, hpri⟩ := h.at_state
  rw [compactWorkerCopyToPrimaryAction, scanSlots, copyToPrimaryLoop_eq (laidOut_of_onFat hE hcov)]
  have hnow : (writeEntries .priFat 1 E.entries v).now .secFat = v.now .secFat :=
    now_writeEntries_of_ne (by decide) ..
  refine ⟨?_, hsame, congrFun hnow _ ▸ hmark, fun id => ?_, ?_⟩
  · refine through_writeEntries (P := fun f => f .secFat = v.now .secFat) ?_ ?_ Nat.one_pos
      h.through rfl
    · intro f i x hi hs
      rw [apply_program_of_ne (by decide), hs]
    · intro f hs
      exact .secondaryMaster E hsame (congrFun hs _ ▸ hmark) (hs ▸ hE)
  · cases id with
    | priFat => exact onFat_writeEntries fun i _ => hpri i
    | secFat => exact hnow ▸ hE
  · exact (now_writeEntries_below Nat.one_pos ..).trans (hpri _)

theorem stage_writeFatHeaderdataAction (h : Stage D E .writeFatHeaderData v) :
    Stage D E .setFatsValid (compactWorkerWriteFatHeaderdataAction v) := by
  obtain ⟨hsame, hmark, hE, hroot⟩ := h.at_state
  -- first the data of the primary, the secondary as it was
  set w := v.dirEntryWriteData .priFat (getInitialRoot .priFat) rootDirentNumber with hw
  have hsec : w.now .secFat = v.now .secFat := now_writeMember_of_ne (by decide) _ _
  have hpri : w.now .priFat rootDirentNumber = (getInitialRoot .priFat).dataPart := by
    rw [hw, Volume.dirEntryWriteData, now_writeMember_same, hroot, top_inf_eq]
  have hmarkw : SecondaryMarked (w.now .secFat rootDirentNumber) := hsec ▸ hmark
  have hEw : ∀ id, OnFat E.entries (w.now id) := fun id => onFat_program_root _ _ (hE id)
  have hthrough : w.flash.Through (Recoverable D) :=
    h.through.op (.secondaryMaster E hsame hmarkw (hEw .secFat))
  -- then that of the secondary, which may be there already
  set x := w.dirEntryWriteData .secFat (getInitialRoot .secFat) rootDirentNumber with hx
  have hsecx : x.now .secFat rootDirentNumber
      = (getInitialRoot .secFat).dataPart ⊓ .firstPart fcsSecondaryMaster := by
    rw [hx, Volume.dirEntryWriteData, now_writeMember_same, hmarkw.inf_dataPart]
  have hprix : x.now .priFat = w.now .priFat := now_writeMember_of_ne (by decide) _ _
  have hEx : ∀ id, OnFat E.entries (x.now id) := fun id => onFat_program_root _ _ (hEw id)
  exact ⟨hthrough.op (.secondaryMaster E hsame (.inr hsecx) (hEx .secFat)), hsame, hsecx, hEx,
    (congrFun hprix _).trans hpri⟩

theorem stage_setFatsValidAction (h : Stage D E .setFatsValid v) :
    Stage D E .sendCompletionMessage (compactWorkerSetFatsValidAction v) := by
  obtain ⟨hsame, hmark, hE, hroot⟩ := h.at_state
  set w := v.dirEntryWriteFirst .secFat (getInitialRoot .secFat) rootDirentNumber with hw
  have hsec : w.now .secFat rootDirentNumber = getInitialRoot .secFat := by
    rw [hw, Volume.dirEntryWriteFirst, now_writeMember_same, hmark, first_getInitialRoot,
      marked_inf_firstPart]
  have hpri : w.now .priFat = v.now .priFat := now_writeMember_of_ne (by decide) _ _
  have hEw : ∀ id, OnFat E.entries (w.now id) := fun id => onFat_program_root _ _ (hE id)
  have hthrough : w.flash.Through (Recoverable D) :=
    h.through.op (.primaryUnmarked E hsame ((congrFun hpri _).trans hroot) hsec hEw)
  -- marking the primary valid is the very last step
  set x := w.dirEntryWriteFirst .priFat (getInitialRoot .priFat) rootDirentNumber with hx
  have hprix : x.now .priFat rootDirentNumber = getInitialRoot .priFat := by
    rw [hx, Volume.dirEntryWriteFirst, now_writeMember_same, hpri, hroot, first_getInitialRoot,
      dataPart_inf_valid]
  have hsecx : x.now .secFat = w.now .secFat := now_writeMember_of_ne (by decide) _ _
  have hcon : Consistent E x.now := by
    refine ⟨fun id => ?_, fun id => onFat_program_root _ _ (hEw id)⟩
    cases id with
    | priFat => exact hprix
    | secFat => exact (congrFun hsecx _).trans hsec
  exact ⟨hthrough.op (.valid E hsame hcon), hsame, hcon⟩

end Actions

/-! ## The worker and the repairs -/

section Repairs

variable {D E : Directory} {v : Volume} (qsort : Qsort) {f : Fats}

/-- **The step.** One message of the worker leads from stage to stage. -/
theorem progress_stage {s : CompactState} (h : Stage D E s v) :
    ∃ w E, progressCompactWorker qsort s v = some w ∧ Stage D E w.1 w.2 := by
  cases s with
  | start => exact ⟨_, E, rfl, stage_startAction h⟩
  | eraseSecondaryFat => exact ⟨_, E, rfl, stage_eraseBackupFatAction h⟩
  | copyDirentsToBackup =>
    obtain ⟨w, rs, hw, hs, -⟩ := stage_copyToBackupAction qsort h
    exact ⟨(.setSecondaryAsMaster, w), D.compacted rs, by rw [progressCompactWorker, hw]; rfl, hs⟩
  | setSecondaryAsMaster => exact ⟨_, E, rfl, stage_secondaryIsMasterAction h⟩
  | erasePrimaryFat => exact ⟨_, E, rfl, stage_erasePrimaryFatAction h⟩
  | copyDirentsToPrimary => exact ⟨_, E, rfl, stage_copyToPrimaryAction h⟩
  | writeFatHeaderData => exact ⟨_, E, rfl, stage_writeFatHeaderdataAction h⟩
  | setFatsValid => exact ⟨_, E, rfl, stage_setFatsValidAction h⟩
  | sendCompletionMessage => exact ⟨_, E, rfl, h⟩

/-- The run: the worker never panics, and every message of it leaves a stage. -/
theorem compactWorker_stage {s : CompactState} (h : Stage D E s v) (n : ℕ) :
    ∃ w E, compactWorker qsort n (s, v) = some w ∧ Stage D E w.1 w.2 := by
  induction n generalizing E s v with
  | zero => exact ⟨_, E, rfl, h⟩
  | succ n ih =>
    obtain ⟨w, E, hw, hs⟩ := progress_stage qsort h
    rw [compactWorker, hw]
    exact ih hs

/-- The actions that follow the copy, as a repair does them and as the worker does. -/
theorem stage_repairFromSecondary (h : Stage D E .erasePrimaryFat v) :
    Stage D E .sendCompletionMessage (compactRepairFromSecondary v) :=
  stage_setFatsValidAction (stage_writeFatHeaderdataAction
    (stage_copyToPrimaryAction (stage_erasePrimaryFatAction h)))

theorem stage_repairFromPrimary (h : Stage D E .eraseSecondaryFat v) :
    ∃ w E, compactRepairFromPrimary qsort v = some w ∧ Stage D E .sendCompletionMessage w := by
  obtain ⟨w, rs, hw, hs, -⟩ := stage_copyToBackupAction qsort (stage_eraseBackupFatAction h)
  refine ⟨_, D.compacted rs, ?_, stage_repairFromSecondary (stage_secondaryIsMasterAction hs)⟩
  rw [compactRepairFromPrimary, hw]
  rfl

/-- With both tables valid the check of the entries has nothing to do. -/
theorem checkDirectoryEntriesFrom_consistent (h : Consistent E f) (hv : v.now = f) (ds : List ℕ)
    (hds : ∀ d ∈ ds, 0 < d ∧ d < maxDirEntries) :
    checkDirectoryEntriesFrom ds v = (.ok, v) := by
  induction ds with
  | nil => rfl
  | cons d ds ih =>
    obtain ⟨i, rfl⟩ : ∃ i, d = i + 1 := ⟨d - 1, by have := (hds d mem_cons_self).1; omega⟩
    have hi : i < maxDirEntries - 1 := by have := (hds (i + 1) mem_cons_self).2; omega
    have ih := ih fun x hx => hds x (mem_cons_of_mem _ hx)
    have hslot : ∀ id, v.now id (i + 1) = E.entries.getD i ⊤ := fun id => hv ▸ h.entries id i hi
    rw [checkDirectoryEntriesFrom]
    simp only [hslot]
    by_cases hlt : i < E.entries.length
    · have hd := E.classified _ (getElem_mem hlt)
      rw [getD_eq_getElem _ _ hlt]
      rcases hd with hd | hd <;> simp [hd, ih]
    · rw [getD_eq_default _ _ (not_lt.mp hlt)]
      simp [classifyDirent_erased.mpr]

/-- The second pass finds both tables valid. -/
theorem checkAndRepair_consistent (h : Consistent E v.now) (pass : ℕ) :
    checkAndRepairFileAllocationTables qsort (pass + 1) v = some (true, v) := by
  rw [checkAndRepairFileAllocationTables]
  refine if_pos ⟨?_, ?_⟩ <;> rw [h.root, first_getInitialRoot]

/-- **The repair succeeds.** From a recoverable image the first part of the check brings both tables
back, through recoverable images. -/
theorem checkFileAllocationTables_recoverable (h : Recoverable D f) :
    ∃ w E, checkFileAllocationTables qsort (.boot f) = some (true, w) ∧
      Stage D E .sendCompletionMessage w := by
  have hboot : (Volume.boot f).flash.Through (Recoverable D) := Log.through_start h
  have hnow : (Volume.boot f).now = f := rfl
  rw [checkFileAllocationTables]
  cases h with
  | valid E hsame hcon =>
    exact ⟨_, E, if_pos ⟨hcon.root .priFat, hcon.root .secFat⟩, hboot, hsame, hcon⟩
  | primaryMaster hpri hsec hent =>
    obtain ⟨w, E, hw, hstage⟩ := stage_repairFromPrimary (v := .boot f) (E := D) qsort
      ⟨hboot, hpri, hent, D.length_lt, le_refl _⟩
    refine ⟨w, E, ?_, hstage⟩
    rw [if_neg, checkAndRepairFileAllocationTables, hnow, if_neg, if_neg, if_pos ⟨hpri, hsec⟩, hw]
    · exact checkAndRepair_consistent qsort hstage.at_state.2 0
    · rw [hpri]
      exact fun h => absurd h.1 (by decide)
    · rw [hpri]
      exact fun h => absurd h.1 (by decide)
    · rintro ⟨h, -⟩
      rw [hnow] at h
      rw [h, first_getInitialRoot] at hpri
      exact absurd hpri (by decide)
  | secondaryMaster E hsame hsec hent =>
    have hstage := stage_repairFromSecondary (v := .boot f)
      ⟨hboot, hsame, hsec, hent, E.length_lt, le_refl _⟩
    refine ⟨_, E, ?_, hstage⟩
    have hfirst := hsec.first
    rw [if_neg, checkAndRepairFileAllocationTables, hnow, hfirst, if_neg, if_neg, if_neg, if_pos rfl]
    · exact checkAndRepair_consistent qsort hstage.at_state.2 0
    · exact fun h => absurd h.2 (by decide)
    · exact fun h => absurd h.2 (by decide)
    · exact fun h => absurd h.2 (by decide)
    · rintro ⟨-, h⟩
      rw [hnow] at h
      rw [h, first_getInitialRoot] at hfirst
      exact absurd hfirst (by decide)
  | primaryUnmarked E hsame hpri hsec hent =>
    set w := (Volume.boot f).dirEntryWriteMember .priFat (.firstPart fcsValid) rootDirentNumber
      with hw
    have hcon : Consistent E w.now := by
      refine ⟨fun id => ?_, fun id => onFat_program_root _ _ (hent id)⟩
      cases id with
      | priFat => rw [hw, now_writeMember_same, hnow, hpri, dataPart_inf_valid]
      | secFat => rw [hw, now_writeMember_of_ne (by decide), hnow, hsec]
    refine ⟨w, E, ?_, hboot.op (.valid E hsame hcon), hsame, hcon⟩
    rw [if_neg, checkAndRepairFileAllocationTables, hnow, hpri, hsec, Dirent.first_dataPart,
      first_getInitialRoot, if_neg (by decide), if_neg (by decide), if_neg (by decide),
      if_neg (by decide), if_pos ⟨rfl, rfl⟩]
    · exact checkAndRepair_consistent qsort hcon 0
    · rintro ⟨h, -⟩
      rw [hnow, hpri] at h
      have := congrArg Dirent.first h
      rw [Dirent.first_dataPart, first_getInitialRoot] at this
      exact absurd this (by decide)

theorem checkIntegrity_recoverable (h : Recoverable D f) :
    ∃ w E, checkIntegrity qsort (.boot f) = some (.ok, w) ∧ Stage D E .sendCompletionMessage w := by
  obtain ⟨w, E, hw, hstage⟩ := checkFileAllocationTables_recoverable qsort h
  refine ⟨w, E, ?_, hstage⟩
  rw [checkIntegrity, hw, map_some, if_pos rfl, checkDirectoryEntries,
    checkDirectoryEntriesFrom_consistent hstage.at_state.2 rfl]
  intro d hd
  rw [mem_range'_1] at hd
  omega

end Repairs

/-! ## Interrupted compactions -/

/-- What a loss of power can leave of the flash: during a compaction that starts from `v`, or
during the check of the next mount, however often that is cut short as well. -/
inductive Interrupted (qsort : Qsort) (v : Volume) : Fats → Prop
  | compaction (n : ℕ) {w : CompactState × Volume} {f : Fats}
      (run : compactWorker qsort n (createCompactWorker v, v) = some w)
      (image : f ∈ w.2.flash.images) : Interrupted qsort v f
  | repair {f g : Fats} {r : RafsErrors × Volume} (before : Interrupted qsort v f)
      (check : checkIntegrity qsort (.boot f) = some r)
      (image : g ∈ r.2.flash.images) : Interrupted qsort v g

variable {f : Fats}

theorem Interrupted.recoverable {qsort : Qsort} {D E : Directory} {v : Volume}
    (h : Interrupted qsort v f) (hv : Stage D E (createCompactWorker v) v) : Recoverable D f := by
  induction h with
  | compaction n run image =>
    obtain ⟨w, _, hw, hstage⟩ := compactWorker_stage qsort hv n
    rw [run] at hw
    cases hw
    exact hstage.through _ image
  | repair _ check image ih =>
    obtain ⟨w, _, hw, hstage⟩ := checkIntegrity_recoverable qsort ih
    rw [check] at hw
    cases hw
    exact hstage.through _ image

/-- What a compaction starts from. -/
theorem stage_create {D : Directory} {slot : ℕ} {sequence : BitVec 16} (h : Consistent D f)
    (hslot : Covers D.entries slot) :
    Stage D D (createCompactWorker ⟨.start f, slot, sequence⟩) ⟨.start f, slot, sequence⟩ := by
  have hrec : (Log.start f).Through (Recoverable D) := Log.through_start (.valid D (.refl _) h)
  have hlimit : getNumberOfDirEntries ⟨.start f, slot, sequence⟩ = slot := by
    have := hslot.1
    exact if_neg (by simp; omega)
  by_cases hs : slot > 1
  · rw [createCompactWorker, if_pos hs]
    exact ⟨hrec, h, hlimit.symm ▸ hslot⟩
  · rw [createCompactWorker, if_neg hs]
    exact ⟨hrec, .refl _, h⟩

/-- **Compaction is crash safe.** Whatever directory both tables hold and wherever the power is lost,
in the worker or in any number of repairs, the check of the next mount succeeds, both tables are
valid and equal, and they hold the same files in the same order, with no deleted entry added. The
worker itself never panics. -/
theorem compaction_crash_safe (qsort : Qsort) (D : Directory) (f : Fats) (slot : ℕ)
    (sequence : BitVec 16) (h : Consistent D f) (hslot : Covers D.entries slot) :
    (∀ n, (compactWorker qsort n (createCompactWorker ⟨.start f, slot, sequence⟩,
      ⟨.start f, slot, sequence⟩)).isSome) ∧
    ∀ g, Interrupted qsort ⟨.start f, slot, sequence⟩ g →
      ∃ w E, checkIntegrity qsort (.boot g) = some (.ok, w) ∧ Consistent E w.now ∧
        SameFiles D.entries E.entries := by
  have hstage : Stage D D _ ⟨_, _, sequence⟩ := stage_create h hslot
  refine ⟨fun n => ?_, fun g hg => ?_⟩
  · obtain ⟨w, _, hw, -⟩ := compactWorker_stage qsort hstage n
    rw [hw]
    rfl
  · obtain ⟨w, E, hw, hdone⟩ := checkIntegrity_recoverable qsort (hg.recoverable hstage)
    exact ⟨w, E, hw, hdone.at_state.2, hdone.at_state.1⟩

/-- Two files with a deleted one between them, the older file in the later slot. -/
def sampleDirectory : Directory where
  entries :=
    [{ filename := charArray "model.bin", fileSize := 9000, sequenceCount := 7,
       accessCount := 0xFFFC, inodes := ![⟨4, 3⟩, .unused, .unused] },
     { filename := charArray "", fileSize := 10, sequenceCount := 5, accessCount := 0xFFFF,
       inodes := ![⟨2, 1⟩, .unused, .unused] },
     { filename := charArray "words.txt", fileSize := 4200, sequenceCount := 3,
       accessCount := 0xFFFF, inodes := ![⟨3, 1⟩, ⟨7, 1⟩, .unused] }]
  length_lt := by decide
  classified := by decide

theorem crash_safe_sampleDirectory :
    (∀ n, (compactWorker .stable n (createCompactWorker ⟨.start sampleDirectory.fats, 4, 7⟩,
      ⟨.start sampleDirectory.fats, 4, 7⟩)).isSome) ∧
    ∀ g, Interrupted .stable ⟨.start sampleDirectory.fats, 4, 7⟩ g →
      ∃ w E, checkIntegrity .stable (.boot g) = some (.ok, w) ∧ Consistent E w.now ∧
        SameFiles sampleDirectory.entries E.entries :=
  compaction_crash_safe .stable sampleDirectory sampleDirectory.fats 4 7
    (consistent_fats sampleDirectory) ⟨by decide, by decide⟩

/-! ## Compactions that run to their end -/

/-- The messages of a whole compaction. -/
def compactMessages : ℕ := 8

/-- The copy back to the primary leaves what the scans set alone, whatever it finds. -/
theorem copyToPrimaryLoop_fields (is : List ℕ) (v : Volume) :
    (copyToPrimaryLoop is v).freeDirSlot = v.freeDirSlot ∧
      (copyToPrimaryLoop is v).sequenceNumber = v.sequenceNumber := by
  induction is generalizing v with
  | nil => exact ⟨rfl, rfl⟩
  | cons i is ih =>
    rw [copyToPrimaryLoop]
    split_ifs
    · exact ⟨rfl, rfl⟩
    · exact ih _

/-- An uninterrupted compaction leaves the same files renumbered, and the first free slot behind
them. The running number is the one of the file in the last slot. -/
theorem compactWorker_completes (qsort : Qsort) {D : Directory} {slot : ℕ} (sequence : BitVec 16)
    (h : Consistent D f) (hslot : Covers D.entries slot) (hs : slot > 1) :
    ∃ w rs, compactWorker qsort compactMessages (.start, ⟨.start f, slot, sequence⟩)
        = some (.sendCompletionMessage, w) ∧
      Consistent (D.compacted rs) w.now ∧ SameFiles D.entries (D.compacted rs).entries ∧
      w.freeDirSlot = (D.compacted rs).entries.length + 1 ∧
      (∃ v, getNormalisedSequenceNumbers qsort v (liveSlots D.entries 1).length = some rs) ∧
      w.sequenceNumber = (rs.getLast?.map Resequence.sequenceNumber).getD sequence := by
  have hstart : Stage D D _ ⟨_, _, sequence⟩ := stage_create h hslot
  rw [createCompactWorker, if_pos hs] at hstart
  obtain ⟨w, rs, hw, hstage, hfree, hrs, hlast⟩ :=
    stage_copyToBackupAction qsort (stage_eraseBackupFatAction (stage_startAction hstart))
  have hend := stage_repairFromSecondary (stage_secondaryIsMasterAction hstage)
  have hfields := copyToPrimaryLoop_fields (scanSlots (compactWorkerErasePrimaryFatAction
    (compactWorkerSecondaryIsMasterAction w))) (compactWorkerErasePrimaryFatAction
      (compactWorkerSecondaryIsMasterAction w))
  refine ⟨_, rs, ?_, hend.at_state.2, hend.at_state.1, ?_, ⟨_, hrs⟩, ?_⟩
  · simp only [compactMessages, compactWorker, progressCompactWorker, bind_some, hw,
      map_some]
    rfl
  · rw [← hfree]
    exact hfields.1
  · exact hfields.2.trans hlast

end Mh40.Rafs
