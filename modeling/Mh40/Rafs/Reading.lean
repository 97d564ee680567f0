import Mh40.Lib.Run
import Mh40.Rafs.Space

/-!
# The reading position

`Rafs_DoRead` and `Rafs_DoSetPosition` on a file that is open for reading. A position is kept twice,
as the number of bytes from the start of the file and as an inode with the bytes from its start. A
read goes on in the next inode as soon as it comes up short, also at the end of the file, and a seek
works out the inode anew.

* `doRead`, `doSetPosition` — the two functions; an access behind the inodes is `none`;
* `ClosedFile` — an entry as a close leaves it: only the last inode has spare bytes, and a file with
  more than one inode has bytes in the last one;
* `Reading` — what a file that is open for reading keeps, `readLoop_spec`, `seekLoop_spec` what the
  loops do with it;
* `filePlaces` — where the bytes of a file are, and `partPlaces` where a read takes its bytes from;
* `reading_position` — the two positions agree, and every call answers for them, in every run: a
  read takes the bytes of the file from its position on, and leaves it behind them.
-/

namespace Mh40.Rafs

open Lib Option BitVec

/-! ## The functions -/

/-- `rafs_mode_t`. -/
inductive Mode where
  | rdonly
  | wronly
deriving DecidableEq, Repr

/-- What `Rafs_DoRead` and `Rafs_DoSetPosition` work on of an `open_file_t`. -/
structure ReadFile where
  fileDirEntry : Dirent
  flags : Mode
  currentInode : ℕ
  extentPosition : BitVec 32
  filePosition : BitVec 32

/-- The results of the two functions. -/
inductive ReadResult where
  | ok
  | noMoreData
  | notSeekable
  | invalidSeek
deriving DecidableEq, Repr

/-- The result of a read, with the addresses and the lengths that were read from the partition. -/
structure ReadOut where
  result : ReadResult
  numBytesRead : BitVec 32
  partReads : List (BitVec 32 × BitVec 32)
  file : ReadFile

/-- `inodes[i]`, unless it is behind the array. -/
def Dirent.inode? (d : Dirent) (i : ℕ) : Option Inode :=
  if h : i < maxInodes then some (d.inodes ⟨i, h⟩) else none

/-- `MIN`. -/
def minWord (a b : BitVec 32) : BitVec 32 := if a < b then a else b

/-- The loop of `Rafs_DoRead`, with `remaining_to_read` and the number of extents it may still look
at. -/
def readLoop (info : PartitionInfo) :
    ℕ → BitVec 32 → BitVec 32 → List (BitVec 32 × BitVec 32) → ReadFile → Option ReadOut
  | 0, _, _, _, _ => none
  | extents + 1, remaining, numBytesRead, partReads, file => do
    let inode ← file.fileDirEntry.inode? file.currentInode
    let extentOffset := inode.offset.setWidth 32 * info.blockSize
    let extentStart := extentOffset + file.extentPosition
    let extentFree := info.bytes inode - file.extentPosition
    let fileRemaining := file.fileDirEntry.fileSize - file.filePosition
    let thisReadLen := minWord (minWord fileRemaining remaining) extentFree
    let partReads :=
      if thisReadLen > 0 then partReads ++ [(extentStart, thisReadLen)] else partReads
    let file := { file with
      filePosition := file.filePosition + thisReadLen
      extentPosition := file.extentPosition + thisReadLen }
    let numBytesRead := numBytesRead + thisReadLen
    let remaining := remaining - thisReadLen
    if remaining > 0 then
      if file.currentInode < maxInodes - 1 then
        let next ← file.fileDirEntry.inode? (file.currentInode + 1)
        if isValidInode next then
          let file := { file with currentInode := file.currentInode + 1, extentPosition := 0 }
          if file.filePosition < file.fileDirEntry.fileSize then
            readLoop info extents remaining numBytesRead partReads file
          else some ⟨.ok, numBytesRead, partReads, file⟩
        else some ⟨.noMoreData, numBytesRead, partReads, file⟩
      else some ⟨.noMoreData, numBytesRead, partReads, file⟩
    else some ⟨.ok, numBytesRead, partReads, file⟩

/-- `Rafs_DoRead`: reading some bytes counts as success. -/
def doRead (info : PartitionInfo) (numBytes : BitVec 32) (file : ReadFile) : Option ReadOut :=
  (readLoop info maxInodes numBytes 0 [] file).map fun out =>
    if out.numBytesRead > 0 then { out with result := .ok } else out

/-- The loop of `Rafs_DoSetPosition`, with the number of extents it may still look at. -/
def seekLoop (info : PartitionInfo) : ℕ → BitVec 32 → ReadFile → Option ReadFile
  | 0, _, _ => none
  | extents + 1, scan, file => do
    let inode ← file.fileDirEntry.inode? file.currentInode
    let extentLength := info.bytes inode
    if scan < extentLength then some { file with extentPosition := scan }
    else
      let file := { file with currentInode := file.currentInode + 1 }
      let scan := scan - extentLength
      if scan ≠ 0 then seekLoop info extents scan file else some file

/-- `Rafs_DoSetPosition`. -/
def doSetPosition (info : PartitionInfo) (position : BitVec 32) (file : ReadFile) :
    Option (ReadResult × ReadFile) :=
  if file.flags ≠ .rdonly then some (.notSeekable, file)
  else if position < file.fileDirEntry.fileSize then
    (seekLoop info maxInodes position
      { file with filePosition := position, currentInode := 0, extentPosition := 0 }).map
        fun file => (.ok, file)
  else some (.invalidSeek, file)

/-- `Rafs_NewOpenFile` for an entry that was found. -/
def openForReading (d : Dirent) : ReadFile := ⟨d, .rdonly, 0, 0, 0⟩

/-! ## Closed files -/

/-- The bytes of the extent at an index, none behind the inodes. -/
def extentSize (info : PartitionInfo) (d : Dirent) (i : ℕ) : ℕ :=
  ((d.inode? i).map info.size).getD 0

/-- The bytes of the extents before an index. -/
def bytesBefore (info : PartitionInfo) (d : Dirent) : ℕ → ℕ
  | 0 => 0
  | i + 1 => bytesBefore info d i + extentSize info d i

/-- As many addresses of the partition from `start` on. -/
def placesFrom (start : BitVec 32) (n : ℕ) : List (BitVec 32) :=
  (List.range n).map fun k => start + BitVec.ofNat 32 k

/-- The address of an extent. -/
def PartitionInfo.start (info : PartitionInfo) (inode : Inode) : BitVec 32 :=
  inode.offset.setWidth 32 * info.blockSize

/-- The addresses of the extents before an index. -/
def placesBefore (info : PartitionInfo) (d : Dirent) : ℕ → List (BitVec 32)
  | 0 => []
  | i + 1 => placesBefore info d i ++
      ((d.inode? i).map fun inode => placesFrom (info.start inode) (info.size inode)).getD []

/-- Where the bytes of the file are, one after the other. -/
def filePlaces (info : PartitionInfo) (d : Dirent) : List (BitVec 32) :=
  placesBefore info d maxInodes

/-- Where the bytes of some reads of the partition come from. -/
def partPlaces (partReads : List (BitVec 32 × BitVec 32)) : List (BitVec 32) :=
  partReads.flatMap fun r => placesFrom r.1 r.2.toNat

/-- An entry as `Rafs_DoClose` leaves it. The first inode of an empty file has no blocks. -/
structure ClosedFile (info : PartitionInfo) where
  entry : Dirent
  last : Fin 3
  valid_iff : ∀ i : Fin 3, 0 < i.val → (isValidInode (entry.inodes i) = true ↔ i ≤ last)
  size_lt : ∀ i ≤ last, info.size (entry.inodes i) < 2 ^ 32
  lt_fileSize : 0 < last.val → bytesBefore info entry last < entry.fileSize.toNat
  fileSize_le : entry.fileSize.toNat ≤ bytesBefore info entry (last + 1)

/-! ## Runs -/

/-- A call on the open file. -/
inductive ReadCall where
  | read (numBytes : BitVec 32)
  | setPosition (position : BitVec 32)

/-- One call. -/
def readStep (info : PartitionInfo) (file : ReadFile) : ReadCall → Option ReadFile
  | .read numBytes => (doRead info numBytes file).map (·.file)
  | .setPosition position => (doSetPosition info position file).map (·.2)

/-- The two positions agree. -/
def Positioned (info : PartitionInfo) (file : ReadFile) : Prop :=
  file.currentInode < maxInodes ∧ file.filePosition.toNat =
    bytesBefore info file.fileDirEntry file.currentInode + file.extentPosition.toNat

/-- What a call must answer. -/
def ReadRight (info : PartitionInfo) (file : ReadFile) : ReadCall → Prop
  | .read numBytes => ∃ out, doRead info numBytes file = some out ∧
      let remaining := file.fileDirEntry.fileSize.toNat - file.filePosition.toNat
      out.numBytesRead.toNat = min numBytes.toNat remaining ∧
        partPlaces out.partReads = ((filePlaces info file.fileDirEntry).drop
          file.filePosition.toNat).take out.numBytesRead.toNat ∧
        out.file.filePosition.toNat = file.filePosition.toNat + out.numBytesRead.toNat ∧
        out.file.fileDirEntry = file.fileDirEntry ∧
        (0 < numBytes.toNat → (out.result = .noMoreData ↔
          file.filePosition.toNat = file.fileDirEntry.fileSize.toNat))
  | .setPosition position => ∃ result file', doSetPosition info position file = some (result, file') ∧
      (result = .ok ↔ position < file.fileDirEntry.fileSize) ∧
        file'.fileDirEntry = file.fileDirEntry ∧
        if result = .ok then file'.filePosition = position else file' = file

/-! ## The invariant -/

section Invariant

variable {info : PartitionInfo} {c : ClosedFile info} {file : ReadFile} {i : ℕ}

/-- An inode of the file. -/
def ClosedFile.inode (c : ClosedFile info) (i : ℕ) (h : i ≤ c.last) : Inode :=
  c.entry.inodes ⟨i, Nat.lt_of_le_of_lt h c.last.isLt⟩

theorem inode?_of_le (c : ClosedFile info) (h : i ≤ c.last) :
    c.entry.inode? i = some (c.inode i h) := dif_pos _

theorem extentSize_of_le (c : ClosedFile info) (h : i ≤ c.last) :
    extentSize info c.entry i = info.size (c.inode i h) := by
  rw [extentSize, inode?_of_le c h]
  rfl

theorem toNat_bytes_of_le (c : ClosedFile info) (h : i ≤ c.last) :
    (info.bytes (c.inode i h)).toNat = extentSize info c.entry i := by
  rw [extentSize_of_le c h]
  exact toNat_bytes (c.size_lt _ h)

theorem bytesBefore_mono (info : PartitionInfo) (d : Dirent) : Monotone (bytesBefore info d) :=
  monotone_nat_of_le_succ fun _ => Nat.le_add_right _ _

/-- Only the last inode has bytes behind the end of the file. -/
theorem bytesBefore_succ_lt (c : ClosedFile info) (h : i < c.last) :
    bytesBefore info c.entry (i + 1) < c.entry.fileSize.toNat :=
  Nat.lt_of_le_of_lt (bytesBefore_mono info c.entry h) (c.lt_fileSize (by omega))

theorem toNat_minWord (a b : BitVec 32) : (minWord a b).toNat = min a.toNat b.toNat := by
  unfold minWord
  split_ifs with h <;> rw [lt_def] at h <;> omega

/-- A file that was closed and is open for reading. -/
structure Reading (c : ClosedFile info) (file : ReadFile) : Prop where
  entry : file.fileDirEntry = c.entry
  flags : file.flags = .rdonly
  inode_le : file.currentInode ≤ c.last
  extent_le : file.extentPosition.toNat ≤ extentSize info c.entry file.currentInode
  position : file.filePosition.toNat =
    bytesBefore info c.entry file.currentInode + file.extentPosition.toNat
  position_le : file.filePosition.toNat ≤ c.entry.fileSize.toNat

theorem reading_open (c : ClosedFile info) : Reading c (openForReading c.entry) :=
  ⟨rfl, rfl, Nat.zero_le _, Nat.zero_le _, rfl, Nat.zero_le _⟩

theorem Reading.positioned (h : Reading c file) : Positioned info file :=
  ⟨Nat.lt_of_le_of_lt h.inode_le c.last.isLt, by rw [h.entry]; exact h.position⟩

/-- The file with some more bytes of its extent read. -/
def ReadFile.advance (file : ReadFile) (len : BitVec 32) : ReadFile :=
  { file with
    filePosition := file.filePosition + len
    extentPosition := file.extentPosition + len }

/-- The file at the start of its next inode. -/
def ReadFile.next (file : ReadFile) : ReadFile :=
  { file with currentInode := file.currentInode + 1, extentPosition := 0 }

theorem toNat_add_of_le {a len : BitVec 32} {n : ℕ} (h : a.toNat + len.toNat ≤ n)
    (hn : n < 2 ^ 32) : (a + len).toNat = a.toNat + len.toNat := by
  rw [toNat_add, Nat.mod_eq_of_lt (by omega)]

theorem Reading.extentSize_lt (h : Reading c file) :
    extentSize info c.entry file.currentInode < 2 ^ 32 := by
  rw [extentSize_of_le c h.inode_le]
  exact c.size_lt _ h.inode_le

theorem Reading.advance {len : BitVec 32} (h : Reading c file)
    (hext : file.extentPosition.toNat + len.toNat ≤ extentSize info c.entry file.currentInode)
    (hpos : file.filePosition.toNat + len.toNat ≤ c.entry.fileSize.toNat) :
    Reading c (file.advance len) := by
  have hposition := h.position
  have hep := toNat_add_of_le hext h.extentSize_lt
  have hfp := toNat_add_of_le hpos c.entry.fileSize.isLt
  refine ⟨h.entry, h.flags, h.inode_le, ?_, ?_, ?_⟩ <;> dsimp only [ReadFile.advance] <;> omega

theorem Reading.next (h : Reading c file) (hlast : file.currentInode < c.last)
    (hend : file.extentPosition.toNat = extentSize info c.entry file.currentInode) :
    Reading c file.next := by
  have hposition := h.position
  refine ⟨h.entry, h.flags, hlast, Nat.zero_le _, ?_, h.position_le⟩
  dsimp only [ReadFile.next, bytesBefore]
  rw [hposition, hend]
  rfl

/-! ## Places -/

theorem placesFrom_add (start : BitVec 32) (m n : ℕ) :
    placesFrom start (m + n) = placesFrom start m ++ placesFrom (start + BitVec.ofNat 32 m) n := by
  simp only [placesFrom, List.range_add, List.map_append, List.map_map, Function.comp_def,
    ofNat_add, BitVec.add_assoc]

theorem length_placesFrom (start : BitVec 32) (n : ℕ) : (placesFrom start n).length = n := by
  rw [placesFrom, List.length_map, List.length_range]

theorem length_placesBefore (d : Dirent) (i : ℕ) :
    (placesBefore info d i).length = bytesBefore info d i := by
  induction i with
  | zero => rfl
  | succ i ih =>
    rw [placesBefore, bytesBefore, List.length_append, ih, extentSize]
    cases d.inode? i with
    | none => rfl
    | some inode => exact congrArg _ (length_placesFrom _ _)

variable (info) in
theorem placesBefore_prefix (d : Dirent) {i j : ℕ} (h : i ≤ j) :
    placesBefore info d i <+: placesBefore info d j := by
  induction h with
  | refl => exact List.prefix_refl _
  | step _ ih => exact ih.trans (List.prefix_append _ _)

/-- Bytes of the extent that the file is in. -/
theorem Reading.take_filePlaces {len : ℕ} (h : Reading c file)
    (hlen : file.extentPosition.toNat + len ≤ extentSize info c.entry file.currentInode) :
    ((filePlaces info c.entry).drop file.filePosition.toNat).take len =
      placesFrom (info.start (c.inode file.currentInode h.inode_le) + file.extentPosition) len := by
  obtain ⟨back, hback⟩ := placesBefore_prefix info c.entry h.positioned.1
  obtain ⟨rest, hrest⟩ := Nat.le.dest hlen
  rw [extentSize_of_le c h.inode_le] at hrest
  rw [filePlaces, ← hback, placesBefore, inode?_of_le c h.inode_le, map_some, getD_some, ← hrest,
    placesFrom_add, placesFrom_add, BitVec.ofNat_toNat, BitVec.setWidth_eq, h.position,
    ← length_placesBefore, List.append_assoc, List.drop_length_add_append, List.append_assoc,
    List.append_assoc]
  rw [List.drop_left' (length_placesFrom _ _), List.take_left' (length_placesFrom _ _)]

/-! ## Reading -/

/-- How far a read gets in the extent that it is in. -/
def ReadFile.readLen (info : PartitionInfo) (file : ReadFile) (inode : Inode)
    (remaining : BitVec 32) : BitVec 32 :=
  minWord (minWord (file.fileDirEntry.fileSize - file.filePosition) remaining)
    (info.bytes inode - file.extentPosition)

theorem Reading.toNat_readLen (h : Reading c file) (remaining : BitVec 32) :
    (file.readLen info (c.inode file.currentInode h.inode_le) remaining).toNat =
      min (min (c.entry.fileSize.toNat - file.filePosition.toNat) remaining.toNat)
        (extentSize info c.entry file.currentInode - file.extentPosition.toNat) := by
  have hbytes := toNat_bytes_of_le c h.inode_le
  have hext : file.extentPosition ≤ info.bytes (c.inode file.currentInode h.inode_le) :=
    le_def.mpr (by rw [hbytes]; exact h.extent_le)
  rw [ReadFile.readLen, toNat_minWord, toNat_minWord, h.entry,
    toNat_sub_of_le (le_def.mpr h.position_le), toNat_sub_of_le hext, hbytes]

/-- One turn of the loop in a closed file. -/
theorem readLoop_succ (h : Reading c file) (extents : ℕ) (remaining numBytesRead : BitVec 32)
    (partReads : List (BitVec 32 × BitVec 32)) :
    ∃ len partReads', len.toNat =
        min (min (c.entry.fileSize.toNat - file.filePosition.toNat) remaining.toNat)
          (extentSize info c.entry file.currentInode - file.extentPosition.toNat) ∧
      partPlaces partReads' = partPlaces partReads ++
        ((filePlaces info c.entry).drop file.filePosition.toNat).take len.toNat ∧
      readLoop info (extents + 1) remaining numBytesRead partReads file =
        if remaining - len > 0 then
          if file.currentInode < c.last then
            if file.filePosition + len < c.entry.fileSize then
              readLoop info extents (remaining - len) (numBytesRead + len) partReads'
                (file.advance len).next
            else some ⟨.ok, numBytesRead + len, partReads', (file.advance len).next⟩
          else some ⟨.noMoreData, numBytesRead + len, partReads', file.advance len⟩
        else some ⟨.ok, numBytesRead + len, partReads', file.advance len⟩ := by
  obtain ⟨d, flags, currentInode, extentPosition, filePosition⟩ := file
  obtain rfl : d = c.entry := h.entry
  set inode := c.inode currentInode h.inode_le with hinode
  set len := ReadFile.readLen info _ inode remaining with hlen
  refine ⟨len, if len > 0 then partReads ++ [(inode.offset.setWidth 32 * info.blockSize +
    extentPosition, len)] else partReads, h.toNat_readLen remaining, ?_, ?_⟩
  · have hlen' := h.toNat_readLen remaining
    have hext : extentPosition.toNat ≤ extentSize info c.entry currentInode := h.extent_le
    rw [h.take_filePlaces (by rw [hlen, hinode]; dsimp only at hlen' ⊢; omega)]
    split_ifs with hsome
    · rw [partPlaces, List.flatMap_append, List.flatMap_singleton]
      rfl
    · have hzero : len.toNat = 0 := Nat.eq_zero_of_not_pos fun hpos => hsome (lt_def.mpr hpos)
      rw [hzero]
      exact (List.append_nil _).symm
  have hlast := c.last.isLt
  rw [readLoop, inode?_of_le c h.inode_le]
  simp only [bind_eq_bind, bind_some]
  refine if_congr Iff.rfl ?_ rfl
  by_cases hnext : currentInode < maxInodes - 1
  · have hlt : currentInode + 1 < maxInodes := Nat.add_lt_of_lt_sub hnext
    have hvalid := c.valid_iff ⟨currentInode + 1, hlt⟩ (Nat.succ_pos _)
    rw [if_pos hnext, Dirent.inode?, dif_pos hlt, bind_some]
    by_cases hle : currentInode < c.last
    · rw [if_pos (hvalid.mpr hle), if_pos hle]
      rfl
    · rw [if_neg fun hv => hle (hvalid.mp hv), if_neg hle]
      rfl
  · have hlast' : ¬currentInode < c.last := by
      unfold maxInodes at hnext
      omega
    rw [if_neg hnext, if_neg hlast']
    rfl

/-- What the loop has read of a file. -/
structure ReadsOn (c : ClosedFile info) (file : ReadFile) (remaining numBytesRead : BitVec 32)
    (partReads : List (BitVec 32 × BitVec 32)) (out : ReadOut) : Prop where
  reading : Reading c out.file
  numBytesRead : out.numBytesRead = numBytesRead +
    BitVec.ofNat 32 (min remaining.toNat (c.entry.fileSize.toNat - file.filePosition.toNat))
  places : partPlaces out.partReads = partPlaces partReads ++
    ((filePlaces info c.entry).drop file.filePosition.toNat).take
      (min remaining.toNat (c.entry.fileSize.toNat - file.filePosition.toNat))
  position : out.file.filePosition.toNat = file.filePosition.toNat +
    min remaining.toNat (c.entry.fileSize.toNat - file.filePosition.toNat)
  result : file.filePosition.toNat = c.entry.fileSize.toNat → remaining ≠ 0 →
    out.result = .noMoreData

theorem readLoop_spec (h : Reading c file) {extents : ℕ} (remaining numBytesRead : BitVec 32)
    (partReads : List (BitVec 32 × BitVec 32)) (hk : maxInodes ≤ file.currentInode + extents) :
    ∃ out, readLoop info extents remaining numBytesRead partReads file = some out ∧
      ReadsOn c file remaining numBytesRead partReads out := by
  induction extents generalizing remaining numBytesRead partReads file with
  | zero => exact absurd (h.positioned.1) (by omega)
  | succ extents ih =>
    obtain ⟨len, partReads', hlen, hplaces, hloop⟩ :=
      readLoop_succ h extents remaining numBytesRead partReads
    have hext := h.extent_le
    have hpos := h.position
    have hple := h.position_le
    have hadvance : Reading c (file.advance len) := h.advance (by omega) (by omega)
    have hofNat : BitVec.ofNat 32 len.toNat = len :=
      eq_of_toNat_eq (Nat.mod_eq_of_lt len.isLt)
    have hrem : (remaining - len).toNat = remaining.toNat - len.toNat :=
      toNat_sub_of_le (le_def.mpr (by omega))
    have hfp : (file.filePosition + len).toNat = file.filePosition.toNat + len.toNat :=
      toNat_add_of_le (n := c.entry.fileSize.toNat) (by omega) c.entry.fileSize.isLt
    -- the last turn
    have hdone (result : ReadResult) (hn : min remaining.toNat (c.entry.fileSize.toNat -
        file.filePosition.toNat) = len.toNat) (hres : file.filePosition.toNat =
          c.entry.fileSize.toNat → remaining ≠ 0 → result = .noMoreData) :
        ReadsOn c file remaining numBytesRead partReads
          ⟨result, numBytesRead + len, partReads', file.advance len⟩ :=
      ⟨hadvance, by rw [hn, hofNat], by rw [hn]; exact hplaces, by rw [hn]; exact hfp, hres⟩
    rw [hloop]
    by_cases hmore : remaining - len > 0
    · have hmore' : 0 < remaining.toNat - len.toNat := by
        rw [← hrem]
        exact lt_def.mp hmore
      rw [if_pos hmore]
      by_cases hle : file.currentInode < c.last
      · -- the extent ends before the file does
        have hsize := bytesBefore_succ_lt c hle
        have hsucc : bytesBefore info c.entry (file.currentInode + 1) =
          bytesBefore info c.entry file.currentInode + extentSize info c.entry file.currentInode :=
            rfl
        have hep : (file.extentPosition + len).toNat = file.extentPosition.toNat + len.toNat :=
          toNat_add_of_le (n := extentSize info c.entry file.currentInode) (by omega)
            h.extentSize_lt
        rw [if_pos hle, if_pos (lt_def.mpr (by omega))]
        obtain ⟨out, hout, hreads⟩ := ih
          (hadvance.next hle (by dsimp only [ReadFile.advance]; omega)) (remaining - len)
          (numBytesRead + len) partReads' (by dsimp only [ReadFile.advance, ReadFile.next]; omega)
        obtain ⟨hreading, hnum, hplaces', hposition, -⟩ := hreads
        have hn : min remaining.toNat (c.entry.fileSize.toNat - file.filePosition.toNat) =
            len.toNat + min (remaining.toNat - len.toNat)
              (c.entry.fileSize.toNat - (file.filePosition.toNat + len.toNat)) := by omega
        dsimp only [ReadFile.advance, ReadFile.next] at hnum hplaces' hposition
        rw [hrem, hfp] at hnum hplaces' hposition
        refine ⟨out, hout, hreading, ?_, ?_, ?_, fun hend => by omega⟩
        · rw [hnum, hn, ofNat_add, hofNat, BitVec.add_assoc]
        · rw [hplaces', hplaces, hn, List.take_add, List.drop_drop, List.append_assoc]
        · rw [hposition, hn, Nat.add_assoc]
      · -- the file ends in the extent
        have hlasti : file.currentInode = c.last := by have := h.inode_le; omega
        have hend := c.fileSize_le
        rw [bytesBefore, ← hlasti] at hend
        rw [if_neg hle]
        exact ⟨_, rfl, hdone _ (by omega) fun _ _ => rfl⟩
    · have hle : remaining.toNat ≤ len.toNat := by
        have := mt lt_def.mpr hmore
        rw [hrem, show (0 : BitVec 32).toNat = 0 from rfl] at this
        omega
      rw [if_neg hmore]
      refine ⟨_, rfl, hdone _ (by omega) fun hend hne => ?_⟩
      exact absurd (eq_of_toNat_eq (show remaining.toNat = 0 by omega)) hne

theorem doRead_spec (h : Reading c file) (numBytes : BitVec 32) :
    ReadRight info file (.read numBytes) ∧
      ∀ out, doRead info numBytes file = some out → Reading c out.file := by
  have hple := h.position_le
  obtain ⟨out, hout, hreading, hnum, hplaces, hposition, hresult⟩ :=
    readLoop_spec h numBytes 0 [] (Nat.le_add_left maxInodes _)
  have hnum' : out.numBytesRead.toNat =
      min numBytes.toNat (c.entry.fileSize.toNat - file.filePosition.toNat) := by
    rw [hnum, show (0 : BitVec 32) = 0#32 from rfl, BitVec.zero_add,
      toNat_ofNat, Nat.mod_eq_of_lt (by omega)]
  rw [← hnum'] at hplaces hposition
  have hentry : out.file.fileDirEntry = file.fileDirEntry := hreading.entry.trans h.entry.symm
  rw [ReadRight, doRead, hout, map_some, h.entry]
  rw [h.entry] at hentry
  by_cases hsome : out.numBytesRead > 0
  · have hsome' : 0 < out.numBytesRead.toNat := lt_def.mp hsome
    rw [if_pos hsome]
    refine ⟨⟨_, rfl, hnum', hplaces, hposition, hentry, fun _ => iff_of_false ?_ (by omega)⟩, ?_⟩
    · dsimp only
      decide
    · rintro _ ⟨⟩
      exact hreading
  · have hnone : out.numBytesRead.toNat = 0 :=
      Nat.eq_zero_of_not_pos fun hpos => hsome (lt_def.mpr hpos)
    rw [if_neg hsome]
    refine ⟨⟨_, rfl, hnum', hplaces, hposition, hentry, fun hpos => ?_⟩, ?_⟩
    · have hend : file.filePosition.toNat = c.entry.fileSize.toNat := by omega
      refine iff_of_true (hresult hend fun h0 => ?_) hend
      rw [h0] at hpos
      exact absurd hpos (Nat.lt_irrefl _)
    · rintro _ ⟨⟩
      exact hreading

/-! ## Seeking -/

theorem seekLoop_spec (extents : ℕ) (scan : BitVec 32)
    (hentry : file.fileDirEntry = c.entry) (hflags : file.flags = .rdonly)
    (hinode : file.currentInode ≤ c.last)
    (hextent : file.extentPosition = 0)
    (hscan : file.filePosition.toNat =
      bytesBefore info c.entry file.currentInode + scan.toNat)
    (hlt : file.filePosition.toNat < c.entry.fileSize.toNat)
    (hk : maxInodes ≤ file.currentInode + extents) :
    ∃ file', seekLoop info extents scan file = some file' ∧ Reading c file' ∧
      file'.filePosition = file.filePosition := by
  induction extents generalizing scan file with
  | zero => exact absurd hk (by unfold maxInodes; omega)
  | succ extents ih =>
    have hbytes := toNat_bytes_of_le c hinode
    have hsucc : bytesBefore info c.entry (file.currentInode + 1) =
      bytesBefore info c.entry file.currentInode + extentSize info c.entry file.currentInode := rfl
    have hinode? := inode?_of_le c hinode
    rw [← hentry] at hinode?
    rw [seekLoop, hinode?]
    simp only [bind_eq_bind, bind_some]
    by_cases hin : scan < info.bytes (c.inode file.currentInode hinode)
    · have hin' := lt_def.mp hin
      rw [if_pos hin]
      exact ⟨_, rfl, ⟨hentry, hflags, hinode, by dsimp only; omega, hscan,
        Nat.le_of_lt hlt⟩, rfl⟩
    · have hge := mt lt_def.mpr hin
      have hsub := toNat_sub_of_le (le_def.mpr (Nat.le_of_not_lt hge))
      -- the position is in the file, and the file ends in its last extent
      have hend := c.fileSize_le
      have hlast : file.currentInode < c.last := by
        refine Nat.lt_of_le_of_ne hinode fun he => ?_
        rw [← he] at hend
        omega
      rw [if_neg hin]
      by_cases hzero : scan - info.bytes (c.inode file.currentInode hinode) = 0
      · rw [if_neg (not_not_intro hzero)]
        rw [hzero, show (0 : BitVec 32).toNat = 0 from rfl] at hsub
        refine ⟨_, rfl, ⟨hentry, hflags, hlast, ?_, ?_, Nat.le_of_lt hlt⟩, rfl⟩ <;>
          dsimp only <;> rw [hextent, show (0 : BitVec 32).toNat = 0 from rfl] <;> omega
      · rw [if_pos hzero]
        exact ih _ hentry hflags hlast hextent (by dsimp only; omega) hlt (by dsimp only; omega)

theorem doSetPosition_spec (h : Reading c file) (position : BitVec 32) :
    ∃ result file', doSetPosition info position file = some (result, file') ∧ Reading c file' ∧
      (result = .ok ↔ position < c.entry.fileSize) ∧
        if result = .ok then file'.filePosition = position else file' = file := by
  rw [doSetPosition, if_neg (not_not_intro h.flags), ← h.entry]
  by_cases hlt : position < file.fileDirEntry.fileSize
  · let start := { file with filePosition := position, currentInode := 0, extentPosition := 0 }
    obtain ⟨file', hfile, hreading, hposition⟩ := seekLoop_spec maxInodes position
      (show start.fileDirEntry = c.entry from h.entry) h.flags (Nat.zero_le _) rfl
      (Nat.zero_add _).symm (by rw [← h.entry]; exact lt_def.mp hlt) (Nat.le_add_left _ _)
    rw [if_pos hlt]
    exact ⟨_, _, by rw [hfile]; rfl, hreading, iff_of_true rfl hlt, hposition⟩
  · rw [if_neg hlt]
    exact ⟨_, _, rfl, h, iff_of_false (by decide) hlt, rfl⟩

/-! ## Result -/

theorem reading_step (h : Reading c file) (call : ReadCall) :
    ReadRight info file call ∧ ∀ file', readStep info file call = some file' → Reading c file' := by
  cases call with
  | read numBytes =>
    obtain ⟨hright, hreading⟩ := doRead_spec h numBytes
    refine ⟨hright, fun file' hfile => ?_⟩
    obtain ⟨out, hout, rfl⟩ := map_eq_some_iff.mp hfile
    exact hreading out hout
  | setPosition position =>
    obtain ⟨result, file', hset, hreading, hresult, hfile⟩ := doSetPosition_spec h position
    rw [← h.entry] at hresult
    refine ⟨⟨result, file', hset, hresult, hreading.entry.trans h.entry.symm, hfile⟩,
      fun file'' hfile'' => ?_⟩
    rw [readStep, hset] at hfile''
    obtain rfl := some.inj hfile''
    exact hreading

end Invariant

/-- **The reading position.** In every run of reads and seeks on a closed file the position is that
of the extents, a read takes the bytes of the file from the position on and moves it behind them,
says that there is no more data at the end of the file only, and an accepted seek ends there. -/
theorem reading_position {info : PartitionInfo} (c : ClosedFile info) (calls : List ReadCall) :
    Throughout (readStep info) (Positioned info) (openForReading c.entry) calls ∧
      Meets (readStep info) (ReadRight info) (openForReading c.entry) calls := by
  have hopen := reading_open c
  constructor
  · intro ks file hks hfile
    have hreading : Reading c file :=
      invariant_of_run (fun s call s' hs ht => (reading_step hs call).2 s' ht) hopen hfile
    exact hreading.positioned
  · exact meets_of_run (fun file call (h : Reading c file) => reading_step h call) hopen

/-- A file of 12 bytes in two extents of 8 bytes. -/
def twoExtents : ClosedFile ⟨64, 4, 1⟩ where
  entry := ⟨fun _ => 0, 12, 1, 0, ![⟨9, 2⟩, ⟨5, 2⟩, ⟨0, 0⟩]⟩
  last := (Fin.last 1).castSucc
  valid_iff := by decide
  size_lt := by decide
  lt_fileSize := by decide
  fileSize_le := by decide

/-- Reads up to the end of the first extent, over it, and at the end of the file, with seeks in
between. -/
theorem reading_position_twoExtents :
    Throughout (readStep ⟨64, 4, 1⟩) (Positioned ⟨64, 4, 1⟩) (openForReading twoExtents.entry)
      [.read 8, .setPosition 6, .read 4, .read 5, .read 1, .setPosition 8, .read 1] ∧
    Meets (readStep ⟨64, 4, 1⟩) (ReadRight ⟨64, 4, 1⟩) (openForReading twoExtents.entry)
      [.read 8, .setPosition 6, .read 4, .read 5, .read 1, .setPosition 8, .read 1] :=
  reading_position twoExtents _

end Mh40.Rafs
