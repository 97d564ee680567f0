import Mh40.Rafs.Atomicity

/-!
# A mounted volume, call by call

What a client does with a volume between two mounts: opens for writing (`rafs_doOpenWrite`), closes,
removals and compactions, each as one step, with the mount itself as another. The tables on flash
hold a directory before and after each of them.

* `Session`, `step` — the volume and the calls;
* `Ready` — a session on a volume that holds a directory;
* `ready_openWrite`, `ready_close`, `ready_remove`, `ready_compact`, `ready_mount` — what a call does
  to the files and to the running number.
-/

namespace Mh40.Rafs

open Lib.Flash List Option

/-- The part of `rafs_instance_t` that the directory operations work on between two calls, with the
entry and the slot of the file that is open for writing. -/
structure Session where
  fats : Fats
  freeDirSlot : ℕ
  sequenceNumber : BitVec 16
  openFile : Option (Dirent × ℕ)
  compactIsNeeded : Bool

/-- The volume that an operation starts from. -/
def Session.volume (s : Session) : Volume := ⟨.start s.fats, s.freeDirSlot, s.sequenceNumber⟩

/-- `Rafs_MakeNewDirEntryForFilename`, with the counts of `rafs_doOpenWrite`. -/
def makeNewDirEntryForFilename (filename : Fin 16 → BitVec 8) (firstInode : Inode)
    (sequenceCount : BitVec 16) : Dirent where
  filename := filename
  fileSize := 0
  sequenceCount := sequenceCount
  accessCount := 0xFFFF
  inodes := ![firstInode, .unused, .unused]

/-- A call of the client, or a reboot. -/
inductive Call where
  /-- `Rafs_Open` for writing; the free space is missing when no extent or no file id is free. -/
  | openWrite (filename : Fin 16 → BitVec 8) (freeSpace : Option Inode)
  /-- `Rafs_Close`, with what the writes have made of the size and the inodes. -/
  | close (fileSize : BitVec 32) (inodes : Fin 3 → Inode)
  | remove (filename : Fin 16 → BitVec 8)
  /-- `Rafs_Compact`, up to the message that confirms it. -/
  | compact
  /-- A mount, after an unmount or a loss of power between two calls. -/
  | remount

variable (qsort : Qsort) (numBlocks : ℕ)

/-- `rafs_doOpenWrite`. -/
def Session.doOpenWrite (s : Session) (filename : Fin 16 → BitVec 8) (freeSpace : Option Inode) :
    Session :=
  if !isValidFilename filename then s
  else if (findDirEntryByFilename (s.fats .priFat) s.freeDirSlot filename).isSome then s
  else if s.openFile.isSome then s
  else if s.freeDirSlot = maxDirEntries then s
  else match freeSpace with
    | none => s
    | some firstInode =>
      { s with
        freeDirSlot := s.freeDirSlot + 1
        sequenceNumber := s.sequenceNumber + 1
        openFile := some (makeNewDirEntryForFilename filename firstInode (s.sequenceNumber + 1),
          s.freeDirSlot) }

/-- `Rafs_DoClose` of the file that is open for writing. -/
def Session.doClose (s : Session) (fileSize : BitVec 32) (inodes : Fin 3 → Inode) : Session :=
  match s.openFile with
  | none => s
  | some (d, n) =>
    { s with
      fats := ((FileOp.close { d with fileSize, inodes } n).writes s.volume n).now
      openFile := none }

/-- The inodes that `Rafs_DoRemove` counts; it panics at one that is deleted. -/
def removable : List Inode → Bool
  | [] => true
  | inode :: inodes =>
    !isDeletedInode inode && (isUnusedInode inode || removable inodes)

/-- `Rafs_Remove` with `Rafs_DoRemove`. -/
def Session.doRemove (s : Session) (filename : Fin 16 → BitVec 8) : Option Session :=
  if s.openFile.any fun f => sameName f.1.filename filename then some s
  else if !isValidFilename filename then some s
  else match findDirEntryByFilename (s.fats .priFat) s.freeDirSlot filename with
    | none => some s
    | some n =>
      if removable (s.fats .priFat n).inodeList then
        some { s with
          fats := ((FileOp.remove filename).writes s.volume n).now
          compactIsNeeded := true }
      else none

/-- `Rafs_Compact` and the messages of its worker. -/
def Session.doCompact (s : Session) : Option Session :=
  if s.openFile.isSome || !s.compactIsNeeded then some s
  else (compactWorker qsort compactMessages (createCompactWorker s.volume, s.volume)).map fun w =>
    { s with
      fats := w.2.now
      freeDirSlot := w.2.freeDirSlot
      sequenceNumber := w.2.sequenceNumber
      compactIsNeeded := false }

/-- `Rafs_DoMount`: the check, and the scan of the directory. -/
def doMount (f : Fats) : Option Session :=
  (checkIntegrity qsort (.boot f)).bind fun r =>
    if r.1 = .ok then
      (scanDirectory numBlocks (r.2.now .priFat) r.2.sequenceNumber).map fun scan =>
        ⟨r.2.now, scan.2.1, scan.2.2, none, false⟩
    else none

/-- One call. `none` is a panic, or a mount that fails. -/
def step (s : Session) : Call → Option Session
  | .openWrite filename freeSpace => some (s.doOpenWrite filename freeSpace)
  | .close fileSize inodes => some (s.doClose fileSize inodes)
  | .remove filename => s.doRemove filename
  | .compact => s.doCompact qsort
  | .remount => doMount qsort numBlocks s.fats

/-! ## The files -/

/-- The files of the volume, in the order of their slots. -/
def Session.liveFiles (s : Session) : List Dirent :=
  ((List.range' 1 (maxDirEntries - 1)).map (s.fats .priFat)).filter fun d =>
    classifyDirent d.first = .file

/-- The same files in the same slots, numbered from 1 in the same order. -/
structure Renumbered (old new : List Dirent) : Prop where
  files : new.map Dirent.unnumbered = old.map Dirent.unnumbered
  order : ∀ (k l : ℕ) (a b a' b' : Dirent), old[k]? = some a → old[l]? = some b →
    new[k]? = some a' → new[l]? = some b' →
    a.sequenceCount < b.sequenceCount → a'.sequenceCount < b'.sequenceCount
  numbers : (new.map fun d => d.sequenceCount.toNat).Perm (List.range' 1 new.length)

/-- Every file has a number up to the running one. -/
def Counted (s : Session) : Prop := ∀ d ∈ s.liveFiles, d.sequenceCount ≤ s.sequenceNumber

/-! ## The files of a directory -/

section Directories

variable {D : Directory} {f : Fats} {es : List Dirent} {d : Dirent} {v : Volume}

theorem classified_file_iff (h : classifyDirent d.first = .file ∨ classifyDirent d.first = .deleted) :
    classifyDirent d.first = .file ↔ isDeletedEntry d = false := by
  rw [isDeletedEntry, beq_eq_false_iff_ne, ne_eq, ← classifyDirent_deleted]
  rcases h with h | h <;> simp [h]

theorem liveFiles_congr {s t : Session} (h : t.fats = s.fats) : t.liveFiles = s.liveFiles := by
  rw [Session.liveFiles, h, Session.liveFiles]

/-- What the client sees is what the directory holds. -/
theorem liveFiles_eq {s : Session} (h : Consistent D s.fats) :
    s.liveFiles = liveEntries D.entries := by
  have hlt := D.length_lt
  have htable : (List.range' 1 (maxDirEntries - 1)).map (s.fats .priFat) =
      D.entries ++ List.replicate (maxDirEntries - 1 - D.entries.length) ⊤ := by
    refine ext_getElem ?_ fun i h1 h2 => ?_
    · simp only [length_map, length_range', length_append, length_replicate]
      omega
    · have hi : i < maxDirEntries - 1 := by simpa using h1
      rw [getElem_map, getElem_range', Nat.one_mul, Nat.add_comm 1 i,
        h.entries .priFat i hi]
      by_cases hin : i < D.entries.length
      · rw [getElem_append_left hin, getD_eq_getElem _ _ hin]
      · rw [getElem_append_right (not_lt.mp hin), getD_eq_default _ _ (not_lt.mp hin),
          getElem_replicate]
  have herased : (List.replicate (maxDirEntries - 1 - D.entries.length) (⊤ : Dirent)).filter
      (fun d => classifyDirent d.first = .file) = [] := by
    rw [filter_eq_nil_iff]
    intro d hd
    rw [eq_of_mem_replicate hd]
    decide
  rw [Session.liveFiles, htable, filter_append, herased, append_nil, liveEntries]
  refine filter_congr fun d hd => ?_
  rw [Bool.eq_iff_iff, decide_eq_true_eq, classified_file_iff (D.classified d hd),
    Bool.not_eq_true']

/-- A file behind the others. -/
theorem liveEntries_append_file (es : List Dirent) (h : isDeletedEntry d = false) :
    liveEntries (es ++ [d]) = liveEntries es ++ [d] := by
  simp [liveEntries, filter_append, h]

/-- A file is marked as deleted. -/
theorem liveEntries_set_sublist (es : List Dirent) (i : ℕ) (h : isDeletedEntry d = true) :
    (liveEntries (es.set i d)).Sublist (liveEntries es) := by
  induction es generalizing i with
  | nil => exact Sublist.refl _
  | cons e es ih =>
    cases i with
    | zero =>
      rw [set_cons_zero, liveEntries, filter_cons_of_neg (by simp [h]), liveEntries]
      exact (sublist_cons_self e es).filter _
    | succ i =>
      rw [set_cons_succ, liveEntries, liveEntries, filter_cons, filter_cons]
      split_ifs
      · exact (ih i).cons_cons e
      · exact ih i

/-- The directory with one more file. -/
def Directory.push (D : Directory) (d : Dirent) (hd : classifyDirent d.first = .file)
    (hlt : D.entries.length + 1 < maxDirEntries) : Directory where
  entries := D.entries ++ [d]
  length_lt := by rwa [length_append]
  classified e he := by
    rcases mem_append.mp he with he | he
    · exact D.classified e he
    · rw [mem_singleton.mp he]
      exact .inl hd

/-- The directory with an entry marked as deleted. -/
def Directory.delete (D : Directory) (i : ℕ) (d : Dirent) (hd : d.first = 0) : Directory where
  entries := D.entries.set i d
  length_lt := by rw [length_set]; exact D.length_lt
  classified e he := by
    rcases mem_or_eq_of_mem_set he with he | rfl
    · exact D.classified e he
    · exact .inr (classifyDirent_deleted.mpr hd)

@[simp] theorem entries_push (hd : classifyDirent d.first = .file)
    (hlt : D.entries.length + 1 < maxDirEntries) :
    (D.push d hd hlt).entries = D.entries ++ [d] := rfl

@[simp] theorem entries_delete (i : ℕ) (hd : d.first = 0) :
    (D.delete i d hd).entries = D.entries.set i d := rfl

/-- The check of a mount leaves tables that hold one directory alone. -/
theorem checkIntegrity_consistent (h : Consistent D f) :
    checkIntegrity qsort (.boot f) = some (.ok, .boot f) := by
  rw [checkIntegrity, checkFileAllocationTables,
    if_pos ⟨h.root .priFat, h.root .secFat⟩, map_some, if_pos rfl, checkDirectoryEntries,
    checkDirectoryEntriesFrom_consistent h rfl]
  intro d hd
  rw [mem_range'_1] at hd
  omega

/-- What a scan finds: the slot behind the entries with a number that counts all files, or no slot
when the extents of a file are taken. -/
theorem scanDirectoryFrom_spec {fat : ℕ → Dirent} {s m slot slot' : ℕ} {map map' : SectorMap}
    {sequence sequence' : BitVec 16} (h : LaidOut fat s m es)
    (hs : scanDirectoryFrom fat (List.range' s m) map slot sequence =
      some (map', slot', sequence')) :
    sequence ≤ sequence' ∧ (slot' = slot ∨ slot' = s + es.length) ∧
      (slot' ≠ slot → ∀ d ∈ liveEntries es, d.sequenceCount ≤ sequence') := by
  induction es generalizing s m map sequence with
  | nil =>
    cases m with
    | zero =>
      cases hs
      exact ⟨BitVec.le_refl _, .inl rfl, fun h => absurd rfl h⟩
    | succ m =>
      rw [range'_succ, scanDirectoryFrom, if_pos h.nil_erased] at hs
      cases hs
      exact ⟨BitVec.le_refl _, .inr rfl, fun _ d hd => absurd hd not_mem_nil⟩
  | cons e es ih =>
    obtain ⟨k, rfl, he, hne, ht⟩ := h.tail
    rw [range'_succ, scanDirectoryFrom, he, if_neg (by simp [hne])] at hs
    have hnext : s + (e :: es).length = s + 1 + es.length := by
      rw [length_cons]
      omega
    rw [hnext]
    cases hdel : isDeletedEntry e with
    | true =>
      rw [if_pos hdel] at hs
      have hlive : liveEntries (e :: es) = liveEntries es := by simp [liveEntries, hdel]
      rw [hlive]
      exact ih ht hs
    | false =>
      rw [if_neg (by simp [hdel])] at hs
      obtain ⟨⟨ok, map₁⟩, -, hs⟩ := bind_eq_some_iff.mp hs
      have hlive : liveEntries (e :: es) = e :: liveEntries es := by simp [liveEntries, hdel]
      rw [hlive]
      dsimp only at hs
      set mid := if e.sequenceCount > sequence then e.sequenceCount else sequence with hmid
      have hge : sequence ≤ mid ∧ e.sequenceCount ≤ mid := by
        rw [hmid]
        split_ifs with hlt
        · exact ⟨BitVec.le_of_lt hlt, BitVec.le_refl _⟩
        · exact ⟨BitVec.le_refl _, BitVec.not_lt.mp hlt⟩
      cases ok with
      | true =>
        obtain ⟨hle, hslot, hall⟩ := ih ht hs
        refine ⟨BitVec.le_trans hge.1 hle, hslot, fun hne d hd => ?_⟩
        rcases mem_cons.mp hd with rfl | hd
        · exact BitVec.le_trans hge.2 hle
        · exact hall hne d hd
      | false =>
        obtain ⟨-, hrest⟩ := Prod.mk.inj (some.inj hs)
        obtain ⟨rfl, rfl⟩ := Prod.mk.inj hrest
        exact ⟨hge.1, .inl rfl, fun h => absurd rfl h⟩

/-- The same of a whole scan, where the slot for no room is the end of the table. -/
theorem scanDirectory_spec {fat : ℕ → Dirent} {sequence : BitVec 16}
    {scan : SectorMap × ℕ × BitVec 16} (h : OnFat D.entries fat)
    (hs : scanDirectory numBlocks fat sequence = some scan) :
    (scan.2.1 = D.entries.length + 1 ∨ scan.2.1 = maxDirEntries) ∧
      (scan.2.1 ≠ maxDirEntries → ∀ d ∈ liveEntries D.entries, d.sequenceCount ≤ scan.2.2) := by
  obtain ⟨⟨_, m₁⟩, -, hs⟩ := bind_eq_some_iff.mp hs
  obtain ⟨⟨_, m₂⟩, -, hs⟩ := bind_eq_some_iff.mp hs
  obtain ⟨-, hslot, hall⟩ :=
    scanDirectoryFrom_spec (laidOut_of_onFat h ⟨D.length_lt, le_refl maxDirEntries⟩) hs
  refine ⟨?_, hall⟩
  rw [Nat.add_comm]
  exact hslot.symm

/-- A close writes its entry to both tables, behind the others. -/
theorem consistent_close (h : Consistent D v.now) (hd : classifyDirent d.first = .file)
    (hlt : D.entries.length + 1 < maxDirEntries) :
    Consistent (D.push d hd hlt)
      ((FileOp.close d (D.entries.length + 1)).writes v (D.entries.length + 1)).now := by
  have herased : ∀ id, v.now id (D.entries.length + 1) = ⊤ := fun id => by
    rw [h.entries id _ (by omega), getD_eq_default _ _ le_rfl]
  have hsame : ∀ id, ((FileOp.close d (D.entries.length + 1)).writes v
      (D.entries.length + 1)).now id (D.entries.length + 1) = d := fun id => by
    cases id with
    | priFat =>
      rw [FileOp.writes, now_dirEntryWrite_of_ne (by decide), now_dirEntryWrite_same, herased,
        top_inf_eq]
    | secFat =>
      rw [FileOp.writes, now_dirEntryWrite_same, now_dirEntryWrite_of_ne (by decide), herased,
        top_inf_eq]
  have hother : ∀ id i, i ≠ D.entries.length + 1 → ((FileOp.close d (D.entries.length + 1)).writes v
      (D.entries.length + 1)).now id i = v.now id i := fun id i hi => by
    rw [FileOp.writes, now_dirEntryWrite_slot_ne hi, now_dirEntryWrite_slot_ne hi]
  refine ⟨fun id => ?_, fun id i hi => ?_⟩
  · rw [hother id _ (by unfold rootDirentNumber; omega), h.root]
  · rcases Nat.lt_trichotomy i D.entries.length with hlt | rfl | hgt
    · rw [hother id _ (by omega), h.entries id i hi, entries_push, getD_append _ _ _ _ hlt]
    · rw [hsame, entries_push, getD_append_right _ _ _ _ le_rfl, Nat.sub_self]
      rfl
    · rw [hother id _ (by omega), h.entries id i hi, getD_eq_default _ _ hgt.le,
        getD_eq_default]
      simp only [entries_push, length_append, length_singleton]
      omega

/-- A removal marks the entry as deleted in both tables. -/
theorem consistent_remove {i : ℕ} (filename : Fin 16 → BitVec 8) (h : Consistent D v.now)
    (hi : i < D.entries.length) :
    Consistent (D.delete i (D.entries[i] ⊓ .firstPart 0) (by simp))
      ((FileOp.remove filename).writes v (i + 1)).now := by
  have hold : ∀ id, v.now id (i + 1) = D.entries[i] := fun id => by
    rw [h.entries id i (by have := D.length_lt; omega), getD_eq_getElem _ _ hi]
  have hsame : ∀ id, ((FileOp.remove filename).writes v (i + 1)).now id (i + 1) =
      D.entries[i] ⊓ .firstPart 0 := fun id => by
    cases id with
    | priFat =>
      rw [FileOp.writes, now_writeMember_of_ne (by decide), now_writeMember_same, hold]
    | secFat =>
      rw [FileOp.writes, now_writeMember_same, now_writeMember_of_ne (by decide), hold]
  have hother : ∀ id k, k ≠ i + 1 → ((FileOp.remove filename).writes v (i + 1)).now id k =
      v.now id k := fun id k hk => by
    rw [FileOp.writes, now_writeMember_slot_ne hk, now_writeMember_slot_ne hk]
  refine ⟨fun id => ?_, fun id k hk => ?_⟩
  · rw [hother id _ (by unfold rootDirentNumber; omega), h.root]
  · rw [entries_delete, getD_eq_getElem?_getD, getElem?_set]
    by_cases hik : i = k
    · subst hik
      rw [if_pos rfl, if_pos hi, hsame]
      rfl
    · rw [if_neg hik, hother id _ (by omega), h.entries id k hk, getD_eq_getElem?_getD]

/-- The renumbering gives each of the numbers from 1 on to one file. -/
theorem numbers_normalised {n : ℕ} {rs : List Resequence}
    (h : getNormalisedSequenceNumbers qsort v n = some rs) (hn : n < maxDirEntries) :
    (rs.map fun r => r.sequenceNumber.toNat).Perm (List.range' 1 n) := by
  unfold getNormalisedSequenceNumbers at h
  dsimp only at h
  split_ifs at h with hlen
  cases h
  set old := qsort.sort sortSequenceNumberAscending
    (gatherSequenceNumbers (v.now .priFat) n (scanSlots v)) with hold
  have holdlen : old.length = n := (qsort.perm _ _).length_eq.trans hlen
  have hrange : (renumber old).map (fun r => r.sequenceNumber.toNat) = List.range' 1 n := by
    refine ext_getElem (by simp [renumber, holdlen]) fun i h1 h2 => ?_
    have hi : i < n := by simpa using h2
    unfold maxDirEntries at hn
    simp only [renumber, getElem_map, getElem_mapIdx, getElem_range',
      BitVec.toNat_ofNat]
    omega
  rw [← hrange]
  exact (qsort.perm _ _).map _

/-- The compacted directory has the files of the old one, renumbered; the one in the last slot has
the last of the numbers. -/
theorem renumbered_compacted {rs : List Resequence}
    (h : SameFiles D.entries (D.compacted rs).entries)
    (hrs : getNormalisedSequenceNumbers qsort v (liveSlots D.entries 1).length = some rs) :
    Renumbered (liveEntries D.entries) (liveEntries (D.compacted rs).entries) ∧
      (liveEntries (D.compacted rs).entries).getLast?.map Dirent.sequenceCount =
        rs.getLast?.map Resequence.sequenceNumber := by
  have hlt := lt_of_le_of_lt (length_liveSlots_le D.entries 1) D.length_lt
  have hperm := numbers_normalised qsort hrs hlt
  have hlen : rs.length = (liveSlots D.entries 1).length := by
    simpa using hperm.length_eq
  have hmap : (liveEntries (D.compacted rs).entries).map Dirent.sequenceCount =
      rs.map Resequence.sequenceNumber := by
    rw [liveEntries_compacted, entries_compacted, renumbered]
    refine ext_getElem (by simp [hlen]) fun i h1 h2 => ?_
    simp
  refine ⟨⟨h.files, h.order, ?_⟩, ?_⟩
  · have hlen' : (liveEntries (D.compacted rs).entries).length = (liveSlots D.entries 1).length := by
      have := congrArg List.length hmap
      simpa [hlen] using this
    have hnat := congrArg (List.map BitVec.toNat) hmap
    rw [List.map_map, List.map_map] at hnat
    rw [hlen']
    exact hnat ▸ hperm
  · rw [← getLast?_map, hmap, getLast?_map]

end Directories

/-! ## The calls -/

/-- The session of a client on a volume that holds `D`: the next slot is the one behind the
entries, unless the scan has found no room, and a file that is open has taken it. -/
structure Ready (D : Directory) (s : Session) : Prop where
  consistent : Consistent D s.fats
  slot : s.openFile = none → s.freeDirSlot = D.entries.length + 1 ∨ s.freeDirSlot = maxDirEntries
  file : ∀ x ∈ s.openFile, x.2 = D.entries.length + 1 ∧ s.freeDirSlot = D.entries.length + 2 ∧
    D.entries.length + 1 < maxDirEntries ∧ classifyDirent x.1.first = .file

section Calls

variable {D : Directory} {s s' : Session} {filename : Fin 16 → BitVec 8}

theorem Ready.covers (h : Ready D s) : Covers D.entries s.freeDirSlot := by
  have hlt := D.length_lt
  cases ho : s.openFile with
  | none =>
    rcases h.slot ho with hs | hs <;> rw [Covers, hs] <;> omega
  | some x =>
    obtain ⟨-, hs, hx, -⟩ := h.file x ho
    rw [Covers, hs]
    omega

/-- The first character of a valid name is one of a file. -/
theorem classified_of_isValidFilename (h : isValidFilename filename = true) :
    classifyDirent (filename 0) = .file := by
  obtain ⟨-, h0, hall⟩ := of_decide_eq_true h
  have hvalid := hall 0 fun j hj => by rwa [Fin.le_zero_iff.mp hj]
  rw [classifyDirent, if_neg, if_neg h0, if_pos hvalid]
  intro he
  rw [he] at hvalid
  exact absurd hvalid (by decide)

/-- An open that creates a file takes the slot behind the entries, and the next number. -/
theorem doOpenWrite_cases (filename : Fin 16 → BitVec 8) (freeSpace : Option Inode) :
    s.doOpenWrite filename freeSpace = s ∨
      s.openFile = none ∧ s.freeDirSlot ≠ maxDirEntries ∧ isValidFilename filename = true ∧
        ∃ inode, s.doOpenWrite filename freeSpace = { s with
          freeDirSlot := s.freeDirSlot + 1
          sequenceNumber := s.sequenceNumber + 1
          openFile := some (makeNewDirEntryForFilename filename inode (s.sequenceNumber + 1),
            s.freeDirSlot) } := by
  unfold Session.doOpenWrite
  split_ifs with hvalid _ hopen hslot
  · exact .inl rfl
  · exact .inl rfl
  · exact .inl rfl
  · exact .inl rfl
  · cases freeSpace with
    | none => exact .inl rfl
    | some inode =>
      exact .inr ⟨by simpa using hopen, hslot, by simpa using hvalid, inode, rfl⟩

theorem ready_openWrite (h : Ready D s) (filename : Fin 16 → BitVec 8) (freeSpace : Option Inode) :
    Ready D (s.doOpenWrite filename freeSpace) := by
  rcases doOpenWrite_cases filename freeSpace with he | ⟨hnone, hslot, hvalid, inode, he⟩
  · rwa [he]
  · have hfree := (h.slot hnone).resolve_right hslot
    have hlt := D.length_lt
    rw [he]
    refine ⟨h.consistent, fun hn => absurd hn (by simp), fun x hx => ?_⟩
    obtain rfl := some.inj hx
    exact ⟨hfree, congrArg (· + 1) hfree, by omega, classified_of_isValidFilename hvalid⟩

/-- A close puts the file behind the others. -/
theorem ready_close (h : Ready D s) (fileSize : BitVec 32) (inodes : Fin 3 → Inode) :
    ∃ E, Ready E (s.doClose fileSize inodes) ∧ (s.doClose fileSize inodes).openFile = none ∧
      (s.doClose fileSize inodes).liveFiles =
        s.liveFiles ++ s.openFile.toList.map fun x => { x.1 with fileSize, inodes } := by
  cases ho : s.openFile with
  | none =>
    have he : s.doClose fileSize inodes = s := by rw [Session.doClose, ho]
    rw [he]
    exact ⟨D, h, ho, (append_nil _).symm⟩
  | some x =>
    obtain ⟨d, n⟩ := x
    obtain ⟨rfl, hslot, hlt, hfile⟩ := h.file _ ho
    have hd : classifyDirent ({ d with fileSize, inodes } : Dirent).first = .file := hfile
    have he : s.doClose fileSize inodes = { s with
        fats := ((FileOp.close { d with fileSize, inodes } (D.entries.length + 1)).writes s.volume
          (D.entries.length + 1)).now
        openFile := none } := by rw [Session.doClose, ho]
    rw [he]
    have hcon := consistent_close (v := s.volume) h.consistent hd hlt
    refine ⟨_, ⟨hcon, fun _ => .inl ?_, fun x hx => by cases hx⟩, rfl, ?_⟩
    · simpa using hslot
    · rw [liveFiles_eq hcon, liveFiles_eq h.consistent, entries_push, liveEntries_append_file]
      · rfl
      · exact (classified_file_iff (.inl hd)).mp hd

/-- A removal takes at most one file away. -/
theorem ready_remove (h : Ready D s) (hs : s.doRemove filename = some s') :
    ∃ E, Ready E s' ∧ s'.openFile = s.openFile ∧ s'.liveFiles.Sublist s.liveFiles ∧
      s'.sequenceNumber = s.sequenceNumber ∧ s'.freeDirSlot = s.freeDirSlot := by
  have hself : ∃ E, Ready E s ∧ s.openFile = s.openFile ∧ s.liveFiles.Sublist s.liveFiles ∧
      s.sequenceNumber = s.sequenceNumber ∧ s.freeDirSlot = s.freeDirSlot :=
    ⟨D, h, rfl, Sublist.refl _, rfl, rfl⟩
  unfold Session.doRemove at hs
  split_ifs at hs with _ hvalid
  · cases hs
    exact hself
  · cases hs
    exact hself
  · cases hfound : findDirEntryByFilename (s.fats .priFat) s.freeDirSlot filename with
    | none =>
      rw [hfound] at hs
      cases hs
      exact hself
    | some n =>
      rw [hfound] at hs
      dsimp only at hs
      split_ifs at hs
      cases hs
      have hname := classified_of_isValidFilename (by simpa using hvalid)
      obtain ⟨h0, hn, -⟩ := file_of_found h.consistent.agree h.covers.2 hname hfound
      obtain ⟨i, rfl⟩ : ∃ i, n = i + 1 := ⟨n - 1, by omega⟩
      have hi : i < D.entries.length := by omega
      have hcon := consistent_remove (v := s.volume) filename h.consistent hi
      refine ⟨_, ⟨hcon, ?_, ?_⟩, rfl, ?_, rfl, rfl⟩
      · simpa using h.slot
      · simpa using h.file
      · rw [liveFiles_eq hcon, liveFiles_eq h.consistent]
        exact liveEntries_set_sublist _ _ (by simp [isDeletedEntry])

/-- A mount leaves the files as they are. Unless it finds no room, the running number counts them
all. -/
theorem ready_mount (h : Ready D s) (hs : doMount qsort numBlocks s.fats = some s') :
    Ready D s' ∧ s'.openFile = none ∧ s'.liveFiles = s.liveFiles ∧
      (s'.freeDirSlot ≠ maxDirEntries → Counted s') := by
  rw [doMount, checkIntegrity_consistent qsort h.consistent, bind_some, if_pos rfl,
    map_eq_some_iff] at hs
  obtain ⟨scan, hscan, rfl⟩ := hs
  obtain ⟨hslot, hall⟩ := scanDirectory_spec numBlocks (h.consistent.entries .priFat) hscan
  refine ⟨⟨h.consistent, fun _ => hslot, fun x hx => by cases hx⟩, rfl, rfl, fun hne d hd => ?_⟩
  have hd : d ∈ s.liveFiles := hd
  rw [liveFiles_eq h.consistent] at hd
  exact hall hne d hd

theorem compactWorker_idle (n : ℕ) (v : Volume) :
    compactWorker qsort n (.sendCompletionMessage, v) = some (.sendCompletionMessage, v) := by
  induction n with
  | zero => rfl
  | succ n ih => rw [compactWorker, progressCompactWorker, bind_some, ih]

/-- A compaction renumbers the files, and takes the number of the one in the last slot. -/
theorem ready_compact (h : Ready D s) (hs : s.doCompact qsort = some s') :
    ∃ E, Ready E s' ∧ s'.openFile = s.openFile ∧
      (s' = s ∨ s.openFile = none ∧ Renumbered s.liveFiles s'.liveFiles ∧
        s'.sequenceNumber = (s'.liveFiles.getLast?.map Dirent.sequenceCount).getD
          s.sequenceNumber) := by
  unfold Session.doCompact at hs
  split_ifs at hs with hidle
  · cases hs
    exact ⟨D, h, rfl, .inl rfl⟩
  · have hnone : s.openFile = none := by
      cases ho : s.openFile with
      | none => rfl
      | some x => simp [ho] at hidle
    obtain ⟨w, hw, rfl⟩ := map_eq_some_iff.mp hs
    set t : Session := { s with
      fats := w.2.now
      freeDirSlot := w.2.freeDirSlot
      sequenceNumber := w.2.sequenceNumber
      compactIsNeeded := false } with ht
    by_cases hslot : s.freeDirSlot > 1
    · obtain ⟨v, rs, hv, hcon, hsame, hfree, ⟨v', hrs⟩, hlast⟩ :=
        compactWorker_completes qsort s.sequenceNumber h.consistent h.covers hslot
      have hcreate : createCompactWorker s.volume = .start := if_pos hslot
      rw [hcreate, Session.volume, hv] at hw
      cases hw
      obtain ⟨hren, hnum⟩ := renumbered_compacted qsort hsame hrs
      have hcon' : Consistent (D.compacted rs) t.fats := hcon
      refine ⟨D.compacted rs, ⟨hcon', fun _ => .inl hfree, fun x hx => ?_⟩, rfl,
        .inr ⟨hnone, ?_, ?_⟩⟩
      · rw [mem_def, ht, hnone] at hx
        cases hx
      · rw [liveFiles_eq h.consistent, liveFiles_eq hcon']
        exact hren
      · rw [liveFiles_eq hcon', hnum]
        exact hlast
    · -- an empty directory: nothing is done
      have hcreate : createCompactWorker s.volume = .sendCompletionMessage := if_neg hslot
      rw [hcreate, compactWorker_idle] at hw
      cases hw
      have hempty : s.liveFiles = [] := by
        rw [liveFiles_eq h.consistent, length_eq_zero_iff.mp (show D.entries.length = 0 by
          have := h.covers.1
          omega)]
        rfl
      have hempty' : t.liveFiles = [] := (liveFiles_congr (s := s) rfl).trans hempty
      refine ⟨D, ⟨h.consistent, h.slot, h.file⟩, rfl, .inr ⟨hnone, ?_, ?_⟩⟩
      · rw [hempty, hempty']
        exact ⟨rfl, fun k l a b a' b' ha => by simp at ha, List.Perm.refl _⟩
      · rw [hempty']
        rfl

/-- A compaction that is not refused. -/
theorem compact_numbers (h : Ready D s) (hnone : s.openFile = none)
    (hneeded : s.compactIsNeeded = true) (hs : s.doCompact qsort = some s') :
    Renumbered s.liveFiles s'.liveFiles ∧
      s'.sequenceNumber = (s'.liveFiles.getLast?.map Dirent.sequenceCount).getD
        s.sequenceNumber := by
  obtain ⟨E, hE, -, hsame | ⟨-, hren, hnum⟩⟩ := ready_compact qsort h hs
  · -- it clears the flag
    rw [Session.doCompact, if_neg (by simp [hnone, hneeded]), map_eq_some_iff] at hs
    obtain ⟨w, -, he⟩ := hs
    have := congrArg Session.compactIsNeeded (he.trans hsame)
    rw [hneeded] at this
    cases this
  · exact ⟨hren, hnum⟩

end Calls

end Mh40.Rafs
