import Mh40.Rafs.Extents

/-!
# The space for a new file

`Rafs_DoStatfs` adds up the longest free extents, as many as a file has inodes. `Rafs_DoWrite` fills
one extent after the other: when one is full it marks its blocks as used and goes on in the longest
extent that is free then.

* `doStatfs` — the figures of the volume;
* `doWrite` — a write to the file that is open for writing, `writeNew` the writes to a new file;
* `Offers` — the extents that a file still gets, `Writable` — the room that it has in them;
* `doWrite_spec`, `writes_within`, `writes_beyond` — a write stores what there is room for.
-/

namespace Mh40.Rafs

open Lib BitVec Option

/-! ## The figures of a volume -/

/-- `raPartition_info`. -/
structure PartitionInfo where
  partitionSize : BitVec 32
  blockSize : BitVec 32
  pageSize : BitVec 32

namespace PartitionInfo

/-- `partition_size / block_size`. -/
def numBlocks (info : PartitionInfo) : ℕ := info.partitionSize.toNat / info.blockSize.toNat

/-- A sector map of the partition. -/
def map (info : PartitionInfo) (free : ℕ → Bool) : SectorMap := ⟨info.numBlocks, free⟩

/-- `length * block_size`. -/
def bytes (info : PartitionInfo) (inode : Inode) : BitVec 32 :=
  inode.length.setWidth 32 * info.blockSize

end PartitionInfo

/-- `rafs_statfs_t`. -/
structure Statfs where
  sectorSize : BitVec 32
  partitionSize : BitVec 32
  blockSize : BitVec 32
  availableSpace : BitVec 32
  freeSpace : BitVec 32
  contiguousSpace : BitVec 32
  fileSpace : BitVec 32
  maxDirEntries : BitVec 16
  numDirEntries : BitVec 16

/-- `Rafs_CountFreeSectors`. -/
def countFreeSectors (m : SectorMap) : Option (BitVec 16) :=
  (List.range m.numBlocks).foldlM (fun result block =>
    (m.isBlockInUse block).map fun inUse => if inUse then result else result + 1) 0

/-- `Rafs_IsValidEntry`. -/
def isValidEntry (d : Dirent) : Bool := !(d.first == 0xFF || isDeletedEntry d)

/-- `Rafs_CountActiveFiles`. -/
def countActiveFiles (fat : ℕ → Dirent) (freeDirSlot : ℕ) : BitVec 16 :=
  BitVec.ofNat 16 ((List.range' 1 (freeDirSlot - 1)).countP fun d => isValidEntry (fat d))

/-- `Rafs_DoStatfs`. The array holds `num` inodes; a read beyond them is `none`. -/
def doStatfs (info : PartitionInfo) (m : SectorMap) (fat : ℕ → Dirent) (freeDirSlot : ℕ) :
    Option Statfs := do
  let sectors ← countFreeSectors m
  let num ← countFreeExtents m
  let (inodes, actual) ← getFreeExtents m num
  if actual = num then
    let longest ← inodes[0]?
    some
      { sectorSize := info.pageSize
        partitionSize := info.partitionSize
        blockSize := info.blockSize
        availableSpace := info.partitionSize - info.blockSize * 2
        freeSpace := sectors.setWidth 32 * info.blockSize
        fileSpace := (inodes.take maxInodes).foldl (fun space inode => space + info.bytes inode) 0
        contiguousSpace := info.bytes longest
        maxDirEntries := BitVec.ofNat 16 (Rafs.maxDirEntries - 1)
        numDirEntries := countActiveFiles fat freeDirSlot }
  else none

/-! ## Writing -/

/-- The results of `Rafs_DoWrite`. -/
inductive WriteResult where
  | ok
  | fileSystemFull
  | fileFull
deriving DecidableEq, Repr

/-- What a write works on of an `open_file_t`. -/
structure OpenFile where
  inodes : Fin 3 → Inode
  currentInode : Fin 3
  extentPosition : BitVec 32
  filePosition : BitVec 32

/-- The result of a write, with what it has stored. -/
structure Written where
  result : WriteResult
  numBytesWritten : BitVec 32
  file : OpenFile
  map : SectorMap

/-- The loop of `Rafs_DoWrite`, with `remaining_to_write` and the number of extents it may still
look at. -/
def writeLoop (info : PartitionInfo) :
    ℕ → BitVec 32 → BitVec 32 → OpenFile → SectorMap → Option Written
  | 0, _, _, _, _ => none
  | extents + 1, remaining, written, file, m =>
    let inode := file.inodes file.currentInode
    let extentFree := info.bytes inode - file.extentPosition
    let thisWriteLen := if remaining < extentFree then remaining else extentFree
    let file := { file with
      filePosition := file.filePosition + thisWriteLen
      extentPosition := file.extentPosition + thisWriteLen }
    let written := written + thisWriteLen
    let remaining := remaining - thisWriteLen
    if remaining > 0 then
      if h : file.currentInode.val < maxInodes - 1 then do
        let (_, filled) ← m.addExtents [inode]
        let freeSpace ← findLongestFreeExtent filled
        if freeSpace.offset = 0 ∧ freeSpace.length = 0 then
          let (_, m) ← filled.removeExtents [inode]
          some ⟨.fileSystemFull, written, file, m⟩
        else
          let next : Fin 3 := ⟨file.currentInode.val + 1, Nat.lt_sub_iff_add_lt.mp h⟩
          writeLoop info extents remaining written { file with
            currentInode := next
            inodes := Function.update file.inodes next freeSpace
            extentPosition := 0 } filled
      else some ⟨.fileFull, written, file, m⟩
    else some ⟨.ok, written, file, m⟩

/-- `Rafs_DoWrite` of `numBytes` bytes. -/
def doWrite (info : PartitionInfo) (numBytes : BitVec 32) (file : OpenFile) (m : SectorMap) :
    Option Written :=
  writeLoop info maxInodes numBytes 0 file m

/-- The file that an open for writing creates in the extent it has found. -/
def newOpenFile (freeSpace : Inode) : OpenFile := ⟨![freeSpace, .unused, .unused], 0, 0, 0⟩

/-- One write after the other, with their results. -/
def writes (info : PartitionInfo) :
    List (BitVec 32) → OpenFile → SectorMap → Option (List WriteResult × OpenFile)
  | [], file, _ => some ([], file)
  | n :: ns, file, m => do
    let w ← doWrite info n file m
    let (results, file) ← writes info ns w.file w.map
    some (w.result :: results, file)

/-- The writes to a new file. `none` is also the open that finds no space. -/
def writeNew (info : PartitionInfo) (m : SectorMap) (ns : List (BitVec 32)) :
    Option (List WriteResult × OpenFile) := do
  let freeSpace ← findLongestFreeExtent m
  if freeSpace.offset = 0 ∧ freeSpace.length = 0 then none
  else writes info ns (newOpenFile freeSpace) m

/-! ## The room of a file -/

/-- The extents that a file gets when the one it writes to is `inode` and `k` more inodes are
left. -/
def Offers (inode : Inode) : ℕ → SectorMap → List Inode → Prop
  | 0, _, es => es = []
  | k + 1, m, es => ∃ ok filled, m.addExtents [inode] = some (ok, filled) ∧
    match es with
    | [] => findLongestFreeExtent filled = some ⟨0, 0⟩ ∧
        ∃ ok, filled.removeExtents [inode] = some (ok, m)
    | e :: es => findLongestFreeExtent filled = some e ∧ e.length ≠ 0 ∧ Offers e k filled es

/-- The bytes of an extent, where they fit a word. -/
def PartitionInfo.size (info : PartitionInfo) (inode : Inode) : ℕ :=
  inode.length.toNat * info.blockSize.toNat

/-- A file that is open for writing, with `room` bytes left in its extents and in those it still
gets. -/
def Writable (info : PartitionInfo) (m : SectorMap) (file : OpenFile) (room : ℕ) : Prop :=
  ∃ k es, file.currentInode.val + k = 2 ∧ Offers (file.inodes file.currentInode) k m es ∧
    (∀ e ∈ file.inodes file.currentInode :: es, info.size e < 2 ^ 32) ∧
    file.extentPosition.toNat ≤ info.size (file.inodes file.currentInode) ∧
    room = info.size (file.inodes file.currentInode) - file.extentPosition.toNat +
      (es.map info.size).sum

section Writes

variable {info : PartitionInfo} {m : SectorMap} {file : OpenFile} {room : ℕ}
  {remaining written : BitVec 32}

theorem toNat_bytes {inode : Inode} (h : info.size inode < 2 ^ 32) :
    (info.bytes inode).toNat = info.size inode := by
  rw [PartitionInfo.bytes, toNat_mul, toNat_setWidth_of_le (by decide)]
  exact Nat.mod_eq_of_lt h

/-- The extent that is written to. -/
abbrev OpenFile.current (file : OpenFile) : Inode := file.inodes file.currentInode

/-- The file with some more bytes in its extent. -/
def OpenFile.advance (file : OpenFile) (len : BitVec 32) : OpenFile :=
  { file with
    filePosition := file.filePosition + len
    extentPosition := file.extentPosition + len }

theorem toNat_extentFree {inode : Inode} {position : BitVec 32} (h : info.size inode < 2 ^ 32)
    (hpos : position.toNat ≤ info.size inode) :
    (info.bytes inode - position).toNat = info.size inode - position.toNat := by
  rw [toNat_sub_of_le, toNat_bytes h]
  rw [le_def, toNat_bytes h]
  exact hpos

/-- A write that the current extent has the room for. -/
theorem writeLoop_within {extents : ℕ} (h : info.size file.current < 2 ^ 32)
    (hpos : file.extentPosition.toNat ≤ info.size file.current)
    (hroom : remaining.toNat ≤ info.size file.current -
      file.extentPosition.toNat) :
    writeLoop info (extents + 1) remaining written file m =
      some ⟨.ok, written + remaining, file.advance remaining, m⟩ := by
  have hfree := toNat_extentFree h hpos
  have hlen : (if remaining < info.bytes file.current - file.extentPosition
      then remaining else info.bytes file.current - file.extentPosition) =
      remaining := by
    split_ifs with hlt
    · rfl
    · rw [lt_def] at hlt
      exact eq_of_toNat_eq (by omega)
  rw [writeLoop]
  dsimp only
  rw [hlen, BitVec.sub_self, if_neg (by decide)]
  rfl

/-- A write that fills the current extent and has more. -/
theorem writeLoop_beyond {extents : ℕ} (h : info.size file.current < 2 ^ 32)
    (hpos : file.extentPosition.toNat ≤ info.size file.current)
    (hroom : info.size file.current - file.extentPosition.toNat <
      remaining.toNat) :
    let len := info.bytes file.current - file.extentPosition
    writeLoop info (extents + 1) remaining written file m =
      if h : file.currentInode.val < maxInodes - 1 then do
        let (_, filled) ← m.addExtents [file.current]
        let freeSpace ← findLongestFreeExtent filled
        if freeSpace.offset = 0 ∧ freeSpace.length = 0 then
          let (_, m) ← filled.removeExtents [file.current]
          some ⟨.fileSystemFull, written + len, file.advance len, m⟩
        else
          let next : Fin 3 := ⟨file.currentInode.val + 1, Nat.lt_sub_iff_add_lt.mp h⟩
          writeLoop info extents (remaining - len) (written + len) { file.advance len with
            currentInode := next
            inodes := Function.update file.inodes next freeSpace
            extentPosition := 0 } filled
      else some ⟨.fileFull, written + len, file.advance len, m⟩ := by
  have hfree := toNat_extentFree h hpos
  have hlen : (if remaining < info.bytes file.current - file.extentPosition
      then remaining else info.bytes file.current - file.extentPosition) =
      info.bytes file.current - file.extentPosition := by
    rw [if_neg]
    rw [lt_def]
    omega
  have hmore : remaining - (info.bytes file.current - file.extentPosition) >
      0 := by
    rw [gt_iff_lt, lt_def, toNat_sub_of_le]
    · rw [show (0 : BitVec 32).toNat = 0 from rfl]
      omega
    · rw [le_def]
      omega
  rw [writeLoop]
  dsimp only
  rw [hlen, if_pos hmore]
  rfl

/-- What a write does to a file with `room` bytes left. -/
structure Stored (info : PartitionInfo) (room : ℕ) (remaining written : BitVec 32) (file : OpenFile)
    (w : Written) : Prop where
  result : w.result = .ok ↔ remaining.toNat ≤ room
  numBytesWritten : w.numBytesWritten = written + BitVec.ofNat 32 (min remaining.toNat room)
  filePosition : w.file.filePosition =
    file.filePosition + BitVec.ofNat 32 (min remaining.toNat room)
  writable : Writable info w.map w.file (room - min remaining.toNat room)

theorem ofNat_min_of_le {x : BitVec 32} (h : x.toNat ≤ room) :
    BitVec.ofNat 32 (min x.toNat room) = x := by
  rw [min_eq_left h, ofNat_toNat, setWidth_eq]

/-- A write that is taken up by a further one of the rest. -/
theorem Stored.after (file : OpenFile) {len remaining written : BitVec 32} {file' : OpenFile}
    {w : Written}
    (h : Stored info room (remaining - len) (written + len) file' w)
    (hlen : len.toNat ≤ remaining.toNat) (hpos : file'.filePosition = file.filePosition + len) :
    Stored info (len.toNat + room) remaining written file w := by
  have hrest : (remaining - len).toNat = remaining.toNat - len.toNat :=
    toNat_sub_of_le (le_def.mpr hlen)
  have hmin : min remaining.toNat (len.toNat + room) =
      len.toNat + min (remaining.toNat - len.toNat) room := by omega
  have hsplit : BitVec.ofNat 32 (min remaining.toNat (len.toNat + room)) =
      len + BitVec.ofNat 32 (min (remaining - len).toNat room) := by
    rw [hmin, hrest, ofNat_add, ofNat_toNat, setWidth_eq]
  refine ⟨h.result.trans (by omega), ?_, ?_, ?_⟩
  · rw [h.numBytesWritten, hsplit, BitVec.add_assoc]
  · rw [h.filePosition, hsplit, hpos, BitVec.add_assoc]
  · have hroom : len.toNat + room - min remaining.toNat (len.toNat + room) =
        room - min (remaining - len).toNat room := by omega
    rw [hroom]
    exact h.writable

/-- A write within the current extent. -/
theorem stored_within {k : ℕ} {es : List Inode} (hcur : file.currentInode.val + k = 2)
    (hoffers : Offers file.current k m es)
    (hsize : ∀ e ∈ file.current :: es, info.size e < 2 ^ 32)
    (hpos : file.extentPosition.toNat ≤ info.size file.current)
    (hroom : remaining.toNat ≤ info.size file.current -
      file.extentPosition.toNat) :
    Stored info (info.size file.current - file.extentPosition.toNat +
      (es.map info.size).sum) remaining written file
      ⟨.ok, written + remaining, file.advance remaining, m⟩ := by
  have hlt := hsize _ List.mem_cons_self
  have hnext : (file.extentPosition + remaining).toNat =
      file.extentPosition.toNat + remaining.toNat := by
    rw [toNat_add, Nat.mod_eq_of_lt]
    omega
  have hle : remaining.toNat ≤ info.size file.current -
      file.extentPosition.toNat + (es.map info.size).sum := by omega
  refine ⟨iff_of_true rfl hle, ?_, ?_, k, es, hcur, hoffers, hsize, ?_, ?_⟩
  · rw [ofNat_min_of_le hle]
  · rw [ofNat_min_of_le hle]
    rfl
  · change (file.extentPosition + remaining).toNat ≤ _
    rw [hnext]
    change _ ≤ info.size file.current
    omega
  · change _ = info.size file.current -
      (file.extentPosition + remaining).toNat + _
    rw [hnext, min_eq_left hle]
    omega

/-- A write that fills the last extent. -/
theorem stored_full {k : ℕ} {result : WriteResult} (hresult : result ≠ .ok)
    (hcur : file.currentInode.val + k = 2) (hoffers : Offers file.current k m [])
    (hsize : info.size file.current < 2 ^ 32)
    (hpos : file.extentPosition.toNat ≤ info.size file.current)
    (hroom : info.size file.current - file.extentPosition.toNat <
      remaining.toNat) :
    let len := info.bytes file.current - file.extentPosition
    Stored info (info.size file.current - file.extentPosition.toNat) remaining
      written file ⟨result, written + len, file.advance len, m⟩ := by
  intro len
  have hlen : len.toNat = _ := toNat_extentFree hsize hpos
  have hofNat : BitVec.ofNat 32 (min remaining.toNat
      (info.size file.current - file.extentPosition.toNat)) = len := by
    rw [min_eq_right hroom.le, ← hlen, ofNat_toNat, setWidth_eq]
  have hnext : (file.extentPosition + len).toNat = info.size file.current := by
    rw [toNat_add, hlen, Nat.mod_eq_of_lt] <;> omega
  refine ⟨iff_of_false hresult (by omega), by rw [hofNat], by rw [hofNat]; rfl,
    k, [], hcur, hoffers, ?_, ?_, ?_⟩
  · intro e he
    rw [List.mem_singleton.mp he]
    exact hsize
  · change (file.extentPosition + len).toNat ≤ _
    rw [hnext]
    exact le_rfl
  · change _ = info.size file.current - (file.extentPosition + len).toNat + _
    rw [hnext, min_eq_right hroom.le]
    simp

/-- **The write.** It stores what there is room for, and says so when that is not all. -/
theorem writeLoop_spec {k extents : ℕ} {es : List Inode} (hk : k < extents)
    (hcur : file.currentInode.val + k = 2) (hoffers : Offers file.current k m es)
    (hsize : ∀ e ∈ file.current :: es, info.size e < 2 ^ 32)
    (hpos : file.extentPosition.toNat ≤ info.size file.current) :
    ∃ w, writeLoop info extents remaining written file m = some w ∧
      Stored info (info.size file.current - file.extentPosition.toNat +
        (es.map info.size).sum) remaining written file w := by
  induction k generalizing extents remaining written file m es with
  | zero =>
    obtain ⟨extents, rfl⟩ : ∃ n, extents = n + 1 := ⟨extents - 1, by omega⟩
    obtain rfl : es = [] := hoffers
    have hlt := hsize _ List.mem_cons_self
    by_cases hroom : remaining.toNat ≤ info.size file.current -
        file.extentPosition.toNat
    · exact ⟨_, writeLoop_within hlt hpos hroom, stored_within hcur rfl hsize hpos hroom⟩
    · rw [writeLoop_beyond hlt hpos (not_le.mp hroom), dif_neg (by unfold maxInodes; omega)]
      exact ⟨_, rfl, stored_full (by decide) hcur rfl hlt hpos (not_le.mp hroom)⟩
  | succ k ih =>
    obtain ⟨extents, rfl⟩ : ∃ n, extents = n + 1 := ⟨extents - 1, by omega⟩
    have hlt := hsize _ List.mem_cons_self
    by_cases hroom : remaining.toNat ≤ info.size file.current -
        file.extentPosition.toNat
    · exact ⟨_, writeLoop_within hlt hpos hroom, stored_within hcur hoffers hsize hpos hroom⟩
    rw [writeLoop_beyond hlt hpos (not_le.mp hroom), dif_pos (by unfold maxInodes; omega)]
    obtain ⟨ok, filled, hadd, hes⟩ := id hoffers
    rw [hadd]
    cases es with
    | nil =>
      obtain ⟨hfind, ok', hremove⟩ := hes
      refine ⟨_, ?_, stored_full (by decide : WriteResult.fileSystemFull ≠ .ok) hcur hoffers hlt
        hpos (not_le.mp hroom)⟩
      simp [hfind, hremove]
    | cons e es =>
      obtain ⟨hfind, hne, hnext⟩ := hes
      set len := info.bytes file.current - file.extentPosition with hlen
      have hlenNat : len.toNat = _ := toNat_extentFree hlt hpos
      set next : Fin 3 := ⟨file.currentInode.val + 1, by omega⟩ with hnextInode
      set file' : OpenFile := { file.advance len with
        currentInode := next
        inodes := Function.update file.inodes next e
        extentPosition := 0 } with hfile'
      have hinode : file'.current = e := Function.update_self ..
      have hrec : ∃ w, writeLoop info extents (remaining - len) (written + len) file' filled =
          some w ∧ Stored info (info.size file'.current -
            file'.extentPosition.toNat + (es.map info.size).sum) (remaining - len) (written + len)
            file' w := by
        refine ih (by omega) ?_ (hinode.symm ▸ hnext) (fun x hx => ?_) (Nat.zero_le _)
        · have : file'.currentInode.val = file.currentInode.val + 1 := rfl
          omega
        · rw [hinode] at hx
          exact hsize x (List.mem_cons_of_mem _ hx)
      obtain ⟨w, hw, hstored⟩ := hrec
      refine ⟨w, ?_, ?_⟩
      · simp only [hfind, bind_eq_bind, bind_some]
        rw [if_neg (fun h => hne h.2)]
        exact hw
      · rw [hinode] at hstored
        have := hstored.after file (by omega) rfl
        rw [hlenNat] at this
        simpa [hfile', Nat.add_assoc] using this

theorem doWrite_spec (h : Writable info m file room) (n : BitVec 32) :
    ∃ w, doWrite info n file m = some w ∧ Stored info room n 0 file w := by
  obtain ⟨k, es, hcur, hoffers, hsize, hpos, rfl⟩ := h
  exact writeLoop_spec (by unfold maxInodes; omega) hcur hoffers hsize hpos

/-- The bytes of a list of writes. -/
def total (ns : List (BitVec 32)) : ℕ := (ns.map BitVec.toNat).sum

@[simp] theorem total_cons (n : BitVec 32) (ns : List (BitVec 32)) :
    total (n :: ns) = n.toNat + total ns := rfl

/-- Writes that there is room for are stored completely. -/
theorem writes_within {ns : List (BitVec 32)} (h : Writable info m file room)
    (hns : total ns ≤ room) :
    ∃ file', writes info ns file m = some (List.replicate ns.length .ok, file') ∧
      file'.filePosition = file.filePosition + BitVec.ofNat 32 (total ns) := by
  induction ns generalizing file m room with
  | nil => exact ⟨file, rfl, (BitVec.add_zero _).symm⟩
  | cons n ns ih =>
    rw [total_cons] at hns
    obtain ⟨w, hw, hstored⟩ := doWrite_spec h n
    have hle : n.toNat ≤ room := by omega
    have hwritable := hstored.writable
    rw [min_eq_left hle] at hwritable
    obtain ⟨file', hrest, hposition⟩ := ih hwritable (by omega)
    refine ⟨file', ?_, ?_⟩
    · rw [writes, hw]
      simp only [bind_eq_bind, bind_some, hrest, hstored.result.mpr hle]
      rfl
    · rw [hposition, hstored.filePosition, ofNat_min_of_le hle, BitVec.add_assoc, total_cons,
        ofNat_add, ofNat_toNat, setWidth_eq]

/-- The first write that there is no room for stores what there is room for, and reports it. -/
theorem writes_beyond {ns : List (BitVec 32)} {n : BitVec 32} (h : Writable info m file room)
    (hns : total ns ≤ room) (hn : room < total ns + n.toNat) :
    ∃ result file', result ≠ .ok ∧
      writes info (ns ++ [n]) file m = some (List.replicate ns.length .ok ++ [result], file') ∧
      file'.filePosition = file.filePosition + BitVec.ofNat 32 room := by
  induction ns generalizing file m room with
  | nil =>
    obtain ⟨w, hw, hstored⟩ := doWrite_spec h n
    have hlt : room < n.toNat := by
      rw [show total [] = 0 from rfl] at hn
      omega
    refine ⟨w.result, w.file, fun hok => absurd (hstored.result.mp hok) (by omega), ?_, ?_⟩
    · rw [List.nil_append, writes, hw]
      rfl
    · rw [hstored.filePosition, min_eq_right hlt.le]
  | cons k ns ih =>
    rw [total_cons] at hns hn
    obtain ⟨w, hw, hstored⟩ := doWrite_spec h k
    have hle : k.toNat ≤ room := by omega
    have hwritable := hstored.writable
    rw [min_eq_left hle] at hwritable
    obtain ⟨result, file', hne, hrest, hposition⟩ := ih hwritable (by omega) (by omega)
    refine ⟨result, file', hne, ?_, ?_⟩
    · rw [List.cons_append, writes, hw]
      simp only [bind_eq_bind, bind_some, hrest, hstored.result.mpr hle]
      rfl
    · have hk : BitVec.ofNat 32 room = k + BitVec.ofNat 32 (room - k.toNat) :=
        calc BitVec.ofNat 32 room = BitVec.ofNat 32 (k.toNat + (room - k.toNat)) := by
              rw [Nat.add_sub_cancel' hle]
          _ = k + BitVec.ofNat 32 (room - k.toNat) := by
              rw [ofNat_add, ofNat_toNat, setWidth_eq]
      rw [hposition, hstored.filePosition, ofNat_min_of_le hle, hk, BitVec.add_assoc]

end Writes

end Mh40.Rafs
