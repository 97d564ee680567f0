import Mh40.Rafs.Session
import Mh40.Lib.Run

/-!
# The sequence numbers of the files

`rafs_doOpenWrite` gives a new file the next number, `Rafs_ScanDirectory` takes the greatest one of
the directory at mount, and a compaction numbers the files from 1. After it the running number is
the one of the file in the last slot, which is the greatest only when that file is the newest.

* `Right` — what a call must do for the order of the files;
* `counted_compact_iff` — a compaction leaves a running number that counts every file exactly when
  the newest one was in the last slot;
* `numbering_right` — when all compactions of a run find it there, every call of it is right.
-/

namespace Mh40.Rafs

open Lib.Flash List Option BitVec

variable (qsort : Qsort) (numBlocks : ℕ)

/-! ## The order of the files -/

/-- No two files have the same number. -/
def Distinct (ds : List Dirent) : Prop := (ds.map Dirent.sequenceCount).Nodup

/-- What a call must do: the numbers stay distinct, the file that an open creates gets a number
greater than that of every file, and a compaction renumbers. -/
def Right (s : Session) (c : Call) : Prop :=
  ∀ s', step qsort numBlocks s c = some s' → Distinct s'.liveFiles ∧
    match c with
    | .openWrite _ _ => s.openFile = none → ∀ f ∈ s'.openFile, ∀ d ∈ s.liveFiles,
        d.sequenceCount < f.1.sequenceCount
    | .compact => s.openFile = none → s.compactIsNeeded = true →
        Renumbered s.liveFiles s'.liveFiles
    | _ => True

/-- The newest file is in the last slot of those in use. -/
def NewestLast (ds : List Dirent) : Prop :=
  ∀ l ∈ ds.getLast?, ∀ d ∈ ds, d.sequenceCount ≤ l.sequenceCount

/-- An open for writing creates a file. -/
structure Creates (s : Session) (filename : Fin 16 → BitVec 8) (freeSpace : Option Inode) :
    Prop where
  valid : isValidFilename filename = true
  isNew : findDirEntryByFilename (s.fats .priFat) s.freeDirSlot filename = none
  noneOpen : s.openFile = none
  room : s.freeDirSlot ≠ maxDirEntries
  space : freeSpace.isSome = true

/-- When the calls do it: a compaction finds the newest file in the last slot, and a file is created
beside others before the running number is at its end. -/
def Orderly (s : Session) : Call → Prop
  | .openWrite filename freeSpace => Creates s filename freeSpace →
      s.liveFiles = [] ∨ s.sequenceNumber ≠ 0xFFFF
  | .compact => s.openFile = none → s.compactIsNeeded = true → NewestLast s.liveFiles
  | _ => True

/-! ## The runs -/

/-- What the right runs keep: the numbers of the files are distinct, a file that is open for
writing has the greatest, and while there is room the running number counts them all. -/
structure Numbered (s : Session) : Prop where
  ready : ∃ D, Ready D s
  distinct : Distinct s.liveFiles
  newest : ∀ x ∈ s.openFile, ∀ d ∈ s.liveFiles, d.sequenceCount < x.1.sequenceCount
  counted : s.freeDirSlot ≠ maxDirEntries →
    Counted s ∧ ∀ x ∈ s.openFile, x.1.sequenceCount ≤ s.sequenceNumber

section Runs

variable {s s' : Session} {c : Call}

theorem distinct_of_sublist {old new : List Dirent} (h : new.Sublist old) (hd : Distinct old) :
    Distinct new := hd.sublist (h.map _)

theorem lt_add_one_iff (x y : BitVec 16) : x < y + 1 ↔ x ≤ y ∧ y ≠ 0xFFFF := by
  have hx := x.isLt
  have hy := y.isLt
  rw [lt_def, le_def, toNat_add, ne_eq, ← toNat_inj,
    show (1 : BitVec 16).toNat = 1 from rfl, show (0xFFFF : BitVec 16).toNat = 65535 from rfl]
  omega

theorem forall_openFile_of_none (h : s.openFile = none) {P : Dirent × ℕ → Prop} :
    ∀ x ∈ s.openFile, P x := by
  simp [h]

theorem Renumbered.distinct {old new : List Dirent} (h : Renumbered old new) : Distinct new := by
  have hnodup : (new.map fun d => d.sequenceCount.toNat).Nodup :=
    h.numbers.nodup_iff.mpr nodup_range'
  rw [show (fun d : Dirent => d.sequenceCount.toNat) = BitVec.toNat ∘ Dirent.sequenceCount from rfl,
    ← List.map_map] at hnodup
  exact hnodup.of_map _

/-- The file behind the last one of a list has the greatest number of the renumbered one exactly
when it had that of the old one. -/
theorem Renumbered.newestLast_iff {old new : List Dirent} (h : Renumbered old new)
    (hd : Distinct old) : NewestLast new ↔ NewestLast old := by
  have hlength : new.length = old.length := by simpa using congrArg List.length h.files
  obtain rfl | ⟨k, hk⟩ : old = [] ∨ ∃ k, old.length = k + 1 :=
    (Nat.eq_zero_or_eq_succ_pred old.length).imp length_eq_zero_iff.mp fun h => ⟨_, h⟩
  · rw [length_eq_zero_iff.mp hlength]
  -- the numbers of a file and of the last one compare in the same way
  have hcompare : ∀ i (hi : i < old.length),
      new[i].sequenceCount ≤ new[k].sequenceCount ↔ old[i].sequenceCount ≤ old[k].sequenceCount := by
    intro i hi
    have horder := fun a b (ha : a < old.length) (hb : b < old.length) =>
      h.order a b old[a] old[b] new[a] new[b] (getElem?_eq_getElem ha) (getElem?_eq_getElem hb)
        (getElem?_eq_getElem _) (getElem?_eq_getElem _)
    rcases Nat.lt_trichotomy old[i].sequenceCount.toNat old[k].sequenceCount.toNat with
      hlt | heq | hgt
    · exact iff_of_true (BitVec.le_of_lt (horder i k hi (by omega) (lt_def.mpr hlt)))
        (BitVec.le_of_lt (lt_def.mpr hlt))
    · have hik : i = k := by
        have hi' : i < (old.map Dirent.sequenceCount).length := by rwa [length_map]
        have hk' : k < (old.map Dirent.sequenceCount).length := by rw [length_map]; omega
        refine (List.Nodup.getElem_inj_iff hd).mp
          (?_ : (old.map Dirent.sequenceCount)[i] = (old.map Dirent.sequenceCount)[k])
        rw [getElem_map, getElem_map]
        exact eq_of_toNat_eq heq
      subst hik
      exact iff_of_true (BitVec.le_refl _) (BitVec.le_refl _)
    · exact iff_of_false (BitVec.not_le.mpr (horder k i (by omega) hi (lt_def.mpr hgt)))
        (BitVec.not_le.mpr (lt_def.mpr hgt))
  have hlast : ∀ ds : List Dirent, ∀ hds : ds.length = k + 1, NewestLast ds ↔
      ∀ i (hi : i < ds.length), ds[i].sequenceCount ≤ ds[k].sequenceCount := by
    intro ds hds
    have hget : ds.getLast? = some ds[k] := by
      rw [getLast?_eq_getElem?, show ds.length - 1 = k by omega, List.getElem?_eq_getElem]
    rw [NewestLast, hget]
    simp [forall_mem_iff_getElem]
  rw [hlast new (hlength.trans hk), hlast old hk]
  exact ⟨fun hn i hi => (hcompare i hi).mp (hn i (by omega)),
    fun ho i hi => (hcompare i (by omega)).mpr (ho i (by omega))⟩

theorem counted_iff_newestLast {n : BitVec 16}
    (hn : s.sequenceNumber = (s.liveFiles.getLast?.map Dirent.sequenceCount).getD n) :
    Counted s ↔ NewestLast s.liveFiles := by
  cases hlast : s.liveFiles.getLast? with
  | none =>
    rw [getLast?_eq_none_iff] at hlast
    simp [Counted, NewestLast, hlast]
  | some l =>
    rw [hlast] at hn
    simp [Counted, NewestLast, hlast, hn]

/-- **A compaction** leaves a running number that counts every file exactly when it found the newest
one in the last slot. -/
theorem counted_compact_iff (h : Numbered s) (hnone : s.openFile = none)
    (hneeded : s.compactIsNeeded = true) (hs : s.doCompact qsort = some s') :
    Counted s' ↔ NewestLast s.liveFiles := by
  obtain ⟨D, hD⟩ := h.ready
  obtain ⟨hren, hnum⟩ := compact_numbers qsort hD hnone hneeded hs
  rw [counted_iff_newestLast hnum, hren.newestLast_iff h.distinct]

theorem creates_of_openWrite {filename : Fin 16 → BitVec 8} {freeSpace : Option Inode}
    (h : s.doOpenWrite filename freeSpace ≠ s) : Creates s filename freeSpace := by
  unfold Session.doOpenWrite at h
  split_ifs at h with hvalid hfind hopen hslot
  all_goals try exact absurd rfl h
  cases freeSpace with
  | none => exact absurd rfl h
  | some inode =>
    exact ⟨by simpa using hvalid, by simpa using hfind, by simpa using hopen, hslot, rfl⟩

/-- An open gives the new file a number above all others. -/
theorem numbered_openWrite (h : Numbered s) (filename : Fin 16 → BitVec 8)
    (freeSpace : Option Inode) (hf : Orderly s (.openWrite filename freeSpace)) :
    Numbered (s.doOpenWrite filename freeSpace) ∧
      (s.doOpenWrite filename freeSpace).liveFiles = s.liveFiles := by
  obtain ⟨D, hD⟩ := h.ready
  have hready := ready_openWrite hD filename freeSpace
  rcases doOpenWrite_cases filename freeSpace with he | ⟨hnone, hslot, -, inode, he⟩
  · rw [he]
    exact ⟨h, rfl⟩
  · have hlive : (s.doOpenWrite filename freeSpace).liveFiles = s.liveFiles :=
      liveFiles_congr (by rw [he])
    have hcounted := (h.counted hslot).1
    have hcreates : Creates s filename freeSpace := creates_of_openWrite fun hsame => by
      have := congrArg Session.openFile (he.symm.trans hsame)
      rw [hnone] at this
      cases this
    have hnew : ∀ d ∈ s.liveFiles, d.sequenceCount < s.sequenceNumber + 1 := fun d hd => by
      rcases hf hcreates with hempty | hend
      · rw [hempty] at hd
        exact absurd hd not_mem_nil
      · exact (lt_add_one_iff _ _).mpr ⟨hcounted d hd, hend⟩
    refine ⟨⟨⟨D, hready⟩, hlive ▸ h.distinct, ?_, fun _ => ⟨?_, ?_⟩⟩, hlive⟩
    · rw [hlive, he]
      rintro x hx d hd
      obtain rfl := some.inj hx
      exact hnew d hd
    · rw [Counted, hlive, he]
      exact fun d hd => BitVec.le_of_lt (hnew d hd)
    · rw [he]
      rintro x hx
      obtain rfl := some.inj hx
      exact BitVec.le_refl _

/-- A close adds the file that was open, with the greatest number. -/
theorem numbered_close (h : Numbered s) (fileSize : BitVec 32) (inodes : Fin 3 → Inode) :
    Numbered (s.doClose fileSize inodes) := by
  obtain ⟨D, hD⟩ := h.ready
  obtain ⟨E, hE, hnone, hlive⟩ := ready_close hD fileSize inodes
  have hframe : (s.doClose fileSize inodes).freeDirSlot = s.freeDirSlot ∧
      (s.doClose fileSize inodes).sequenceNumber = s.sequenceNumber := by
    unfold Session.doClose
    cases s.openFile <;> exact ⟨rfl, rfl⟩
  refine ⟨⟨E, hE⟩, ?_, forall_openFile_of_none hnone,
    fun hslot => ⟨?_, forall_openFile_of_none hnone⟩⟩
  · rw [hlive]
    cases ho : s.openFile with
    | none => simpa using h.distinct
    | some x =>
      rw [Distinct, map_append, nodup_append]
      refine ⟨h.distinct, nodup_singleton _, fun a ha b hb => ?_⟩
      obtain ⟨d, hd, rfl⟩ := List.mem_map.mp ha
      have hb : b = x.1.sequenceCount := by simpa using hb
      rw [hb]
      exact BitVec.ne_of_lt (h.newest x ho d hd)
  · obtain ⟨hcounted, hopen⟩ := h.counted (hframe.1 ▸ hslot)
    rw [Counted, hlive, hframe.2]
    intro d hd
    rcases mem_append.mp hd with hd | hd
    · exact hcounted d hd
    · obtain ⟨x, hx, rfl⟩ := List.mem_map.mp hd
      exact hopen x (mem_toList.mp hx)

/-- **The step.** A call that the condition allows keeps the numbers in order. -/
theorem numbered_step (h : Numbered s) (hf : Orderly s c)
    (hs : step qsort numBlocks s c = some s') : Numbered s' := by
  obtain ⟨D, hD⟩ := h.ready
  cases c with
  | openWrite filename freeSpace =>
    obtain rfl := some.inj hs
    exact (numbered_openWrite h filename freeSpace hf).1
  | close fileSize inodes =>
    obtain rfl := some.inj hs
    exact numbered_close h fileSize inodes
  | remove filename =>
    obtain ⟨E, hE, hopen, hsub, hnum, hslot⟩ := ready_remove hD hs
    refine ⟨⟨E, hE⟩, distinct_of_sublist hsub h.distinct,
      fun x hx d hd => h.newest x (hopen ▸ hx) d (hsub.subset hd), fun hroom => ?_⟩
    obtain ⟨hcounted, hnewest⟩ := h.counted (hslot ▸ hroom)
    rw [Counted, hopen, hnum]
    exact ⟨fun d hd => hcounted d (hsub.subset hd), hnewest⟩
  | compact =>
    by_cases hidle : s.openFile = none ∧ s.compactIsNeeded = true
    · obtain ⟨hnone, hneeded⟩ := hidle
      obtain ⟨E, hE, hopen, -⟩ := ready_compact qsort hD hs
      have hren := (compact_numbers qsort hD hnone hneeded hs).1
      have hnone' : s'.openFile = none := hopen.trans hnone
      exact ⟨⟨E, hE⟩, hren.distinct, forall_openFile_of_none hnone',
        fun _ => ⟨(counted_compact_iff qsort h hnone hneeded hs).mpr (hf hnone hneeded),
          forall_openFile_of_none hnone'⟩⟩
    · have hsame : s.doCompact qsort = some s := if_pos (by
        rw [Bool.or_eq_true, Option.isSome_iff_ne_none, Bool.not_eq_true', ← Bool.not_eq_true]
        exact not_and_or.mp hidle)
      obtain rfl := some.inj (hsame.symm.trans hs)
      exact h
  | remount =>
    obtain ⟨hD', hnone, hlive, hcounted⟩ := ready_mount qsort numBlocks hD hs
    exact ⟨⟨D, hD'⟩, hlive ▸ h.distinct, forall_openFile_of_none hnone,
      fun hroom => ⟨hcounted hroom, forall_openFile_of_none hnone⟩⟩

/-- A call that the condition allows does what it must. -/
theorem right_call (h : Numbered s) (hf : Orderly s c) : Right qsort numBlocks s c := by
  obtain ⟨D, hD⟩ := h.ready
  refine fun s' hs => ⟨(numbered_step qsort numBlocks h hf hs).distinct, ?_⟩
  cases c with
  | openWrite filename freeSpace =>
    intro _ x hx d hd
    obtain ⟨hnext, hlive⟩ := numbered_openWrite h filename freeSpace hf
    obtain rfl := some.inj hs
    exact hnext.newest x hx d (hlive ▸ hd)
  | compact =>
    intro hnone hneeded
    exact (compact_numbers qsort hD hnone hneeded hs).1
  | close | remove | remount => trivial

/-- A mount finds the numbers distinct when the volume has them so. -/
theorem numbered_mount {D : Directory} {f : Fats} (h : Consistent D f)
    (hD : Distinct (liveEntries D.entries)) (hs : doMount qsort numBlocks f = some s) :
    Numbered s := by
  have hready : Ready D ⟨f, maxDirEntries, 0, none, false⟩ :=
    ⟨h, fun _ => .inr rfl, fun x hx => by cases hx⟩
  obtain ⟨hD', hnone, hlive, hcounted⟩ := ready_mount qsort numBlocks hready hs
  refine ⟨⟨D, hD'⟩, ?_, forall_openFile_of_none hnone,
    fun hroom => ⟨hcounted hroom, forall_openFile_of_none hnone⟩⟩
  rwa [hlive, liveFiles_eq h]

end Runs

/-! ## The condition -/

/-- **When the numbers of the files are in order.** On any volume with distinct numbers, whatever
the order of its slots, and in every history of opens for writing, closes, removals, compactions
and remounts in which the compactions find the newest file in the last slot and the running number
does not come to its end, the calls keep the numbers distinct, number a new file above all others
and renumber at a compaction. -/
theorem numbering_right (D : Directory) (f : Fats) (s : Session) (cs : List Call)
    (h : Consistent D f) (hD : Distinct (liveEntries D.entries))
    (hs : doMount qsort numBlocks f = some s)
    (hcs : Lib.Meets (step qsort numBlocks) Orderly s cs) :
    Lib.Meets (step qsort numBlocks) (Right qsort numBlocks) s cs :=
  Lib.meets_of_meets (fun _ _ (h : Numbered _) hf => ⟨right_call qsort numBlocks h hf,
    fun _ hs => numbered_step qsort numBlocks h hf hs⟩) (numbered_mount qsort numBlocks h hD hs) hcs

instance NewestLast.decidable (ds : List Dirent) : Decidable (NewestLast ds) :=
  inferInstanceAs (Decidable (∀ l ∈ ds.getLast?, _))

instance Creates.decidable (s : Session) (filename : Fin 16 → BitVec 8)
    (freeSpace : Option Inode) : Decidable (Creates s filename freeSpace) :=
  decidable_of_iff (isValidFilename filename = true ∧
    findDirEntryByFilename (s.fats .priFat) s.freeDirSlot filename = none ∧ s.openFile = none ∧
      s.freeDirSlot ≠ maxDirEntries ∧ freeSpace.isSome = true)
    ⟨fun ⟨a, b, c, d, e⟩ => ⟨a, b, c, d, e⟩, fun ⟨a, b, c, d, e⟩ => ⟨a, b, c, d, e⟩⟩

instance Orderly.decidable (s : Session) : ∀ c, Decidable (Orderly s c)
  | .openWrite filename freeSpace => inferInstanceAs (Decidable (Creates s filename freeSpace → _))
  | .compact => inferInstanceAs (Decidable (_ → _ → NewestLast s.liveFiles))
  | .close _ _ | .remove _ | .remount => .isTrue trivial

/-- A sort that evaluates. -/
def Qsort.insertion : Qsort where
  sort cmp l := l.insertionSort fun a b => (cmp a b).isLE = true
  perm _ l := perm_insertionSort _ l
  ascending key l := by
    have : Std.Total fun a b : Resequence => (compare (key a) (key b)).isLE = true :=
      ⟨fun a b => by rw [Nat.isLE_compare, Nat.isLE_compare]; exact le_total _ _⟩
    have : IsTrans _ fun a b : Resequence => (compare (key a) (key b)).isLE = true :=
      ⟨fun a b c hab hbc => by rw [Nat.isLE_compare] at *; exact hab.trans hbc⟩
    exact (pairwise_insertionSort _ l).imp fun h => Nat.isLE_compare.mp h

/-- Three files, each newer than the one in the slot behind it. -/
def unsortedDirectory : Directory where
  entries :=
    [{ filename := charArray "model.bin", fileSize := 9000, sequenceCount := 3,
       accessCount := 0xFFFC, inodes := ![⟨4, 3⟩, .unused, .unused] },
     { filename := charArray "words.txt", fileSize := 10, sequenceCount := 2, accessCount := 0xFFFF,
       inodes := ![⟨2, 1⟩, .unused, .unused] },
     { filename := charArray "old.txt", fileSize := 4200, sequenceCount := 1,
       accessCount := 0xFFFF, inodes := ![⟨3, 1⟩, ⟨7, 1⟩, .unused] }]
  length_lt := by decide
  classified := by decide

/-- The volume with these files, after its mount. -/
def unsortedSession : Session := ⟨unsortedDirectory.fats, 4, 3, none, false⟩

theorem doMount_unsorted :
    doMount .insertion 64 unsortedDirectory.fats = some unsortedSession := by
  have hscan : (scanDirectory 64 (unsortedDirectory.fats .priFat) 0).map Prod.snd = some (4, 3) := by
    decide +kernel
  obtain ⟨scan, hscan, he⟩ := map_eq_some_iff.mp hscan
  rw [doMount, checkIntegrity_consistent _ (consistent_fats _), bind_some, if_pos rfl,
    map_eq_some_iff]
  refine ⟨scan, hscan, ?_⟩
  rw [he]
  rfl

/-- A file is created in the last slot, the volume is mounted again, an older file is removed, the
volume is compacted, and another file is created. -/
theorem numbering_right_newestLast :
    Lib.Meets (step .insertion 64) (Right .insertion 64) unsortedSession
      [.openWrite (charArray "new.txt") (some ⟨8, 2⟩), .close 100 ![⟨8, 1⟩, .unused, .unused],
        .remount, .remove (charArray "words.txt"), .compact,
        .openWrite (charArray "more.txt") (some ⟨9, 2⟩), .close 10 ![⟨9, 1⟩, .unused, .unused]] :=
  numbering_right .insertion 64 unsortedDirectory unsortedDirectory.fats unsortedSession _
    (consistent_fats _) (by unfold Distinct; decide +kernel) doMount_unsorted (by decide +kernel)

/-- When the volume is compacted in between, the running number is the one of the second file, and
the new file gets the number of the first. -/
theorem not_right_unsorted_compact :
    doMount .insertion 64 unsortedDirectory.fats = some unsortedSession ∧
      ¬Lib.Meets (step .insertion 64) (Right .insertion 64) unsortedSession
        [.remove (charArray "old.txt"), .compact,
          .openWrite (charArray "new.txt") (some ⟨8, 2⟩)] := by
  refine ⟨doMount_unsorted, fun h => ?_⟩
  have hlow : (Lib.run (step .insertion 64) unsortedSession
      [.remove (charArray "old.txt"), .compact]).any (fun s => s.openFile.isNone &&
        (s.doOpenWrite (charArray "new.txt") (some ⟨8, 2⟩)).openFile.any fun x =>
          s.liveFiles.any fun d => !decide (d.sequenceCount < x.1.sequenceCount)) = true := by
    decide +kernel
  obtain ⟨s, hs, hlow⟩ := (Option.any_eq_true _ _).mp hlow
  obtain ⟨hnone, hlow⟩ := Bool.and_eq_true_iff.mp hlow
  obtain ⟨x, hx, hlow⟩ := (Option.any_eq_true _ _).mp hlow
  obtain ⟨d, hd, hlow⟩ := List.any_eq_true.mp hlow
  have hright := (Lib.Meets.snoc h hs).2
  have hlt := (hright _ rfl).2 (Option.isNone_iff_eq_none.mp hnone) x hx d hd
  rw [decide_eq_true hlt] at hlow
  cases hlow

end Mh40.Rafs
