import Mathlib.Algebra.Order.Ring.Nat
import Mh40.Rafs.Integrity

/-!
# The sector map

`rafs_extent.c` and the sector map of `rafs_fat.c`: one bit for each block of the partition, set
while the block is free, in words of 32 bits. Blocks past the end of the last word are a
`PanicFalse`, which is `none` here; the bits of the last word past the end of the partition read as
in use.

* `SectorMap` — the map, `markUsedBlock`, `markFreeBlock`, `isBlockInUse` its accesses;
* `addExtents`, `removeExtents` — `Rafs_AddExtentsToSectorMap` and its counterpart, which stop at
  the first block that is marked already;
* `scanDirectory` — the directory read into the map at mount, up to the first erased slot.
-/

namespace Mh40.Rafs

/-- `INODE_UNUSED` is in both fields, or there is no data. -/
def isUnusedInode (inode : Inode) : Bool := inode == .unused || inode.length == 0

/-- `rafs_isDeletedInode`: `INODE_DELETED` in both fields. -/
def isDeletedInode (inode : Inode) : Bool := inode.offset == 0 && inode.length == 0

/-- `rafs_isValidInode`. -/
def isValidInode (inode : Inode) : Bool := !(isUnusedInode inode || isDeletedInode inode)

/-- `sector_in_use_map`, bit by bit, for a partition of `numBlocks` blocks. -/
structure SectorMap where
  numBlocks : ℕ
  free : ℕ → Bool

namespace SectorMap

/-- `sector_in_use_map_length`. -/
def mapLength (m : SectorMap) : ℕ := (m.numBlocks + 31) / 32

/-- The assertion of `Rafs_GetIndexAndMask`. -/
def InMap (m : SectorMap) (block : ℕ) : Prop := block / 32 < m.mapLength

instance (m : SectorMap) (block : ℕ) : Decidable (m.InMap block) :=
  inferInstanceAs (Decidable (_ < _))

/-- `Rafs_SectorMapMarkFreeBlock`. -/
def markFreeBlock (m : SectorMap) (block : ℕ) : Option SectorMap :=
  if m.InMap block then some { m with free := Function.update m.free block true } else none

/-- `Rafs_SectorMapMarkUsedBlock`. -/
def markUsedBlock (m : SectorMap) (block : ℕ) : Option SectorMap :=
  if m.InMap block then some { m with free := Function.update m.free block false } else none

/-- `Rafs_SectorMapIsBlockInUse`. -/
def isBlockInUse (m : SectorMap) (block : ℕ) : Option Bool :=
  if m.InMap block then some !m.free block else none

/-- `Rafs_InitialiseSectorMap`: every block of the partition is free, the bits behind are not. -/
def initialise (numBlocks : ℕ) : SectorMap where
  numBlocks := numBlocks
  free block := decide (block < numBlocks)

/-- The inner loop of `Rafs_AddExtentsToSectorMap`: `count` blocks from `page` on. -/
def addBlocks : ℕ → ℕ → SectorMap → Option (Bool × SectorMap)
  | 0, _, m => some (true, m)
  | count + 1, page, m => do
    if ← m.isBlockInUse page then some (false, m)
    else addBlocks count (page + 1) (← m.markUsedBlock page)

/-- `Rafs_AddExtentsToSectorMap`. -/
def addExtents : List Inode → SectorMap → Option (Bool × SectorMap)
  | [], m => some (true, m)
  | inode :: inodes, m =>
    if isValidInode inode then do
      let (ok, m) ← addBlocks inode.length.toNat inode.offset.toNat m
      if ok then addExtents inodes m else some (false, m)
    else addExtents inodes m

/-- The inner loop of `Rafs_RemoveExtentsFromSectorMap`. -/
def removeBlocks : ℕ → ℕ → SectorMap → Option (Bool × SectorMap)
  | 0, _, m => some (true, m)
  | count + 1, page, m => do
    if ← m.isBlockInUse page then removeBlocks count (page + 1) (← m.markFreeBlock page)
    else some (false, m)

/-- `Rafs_RemoveExtentsFromSectorMap`. -/
def removeExtents : List Inode → SectorMap → Option (Bool × SectorMap)
  | [], m => some (true, m)
  | inode :: inodes, m =>
    if isValidInode inode then do
      let (ok, m) ← removeBlocks inode.length.toNat inode.offset.toNat m
      if ok then removeExtents inodes m else some (false, m)
    else removeExtents inodes m

end SectorMap

/-! ## The scan of the directory -/

/-- The inodes of an entry, in order. -/
def Dirent.inodeList (d : Dirent) : List Inode := List.ofFn d.inodes

/-- The loop of `Rafs_ScanDirectory`, with `free_dir_slot` set to the end of the directory before
it. -/
def scanDirectoryFrom (fat : ℕ → Dirent) : List ℕ → SectorMap → ℕ → BitVec 16 →
    Option (SectorMap × ℕ × BitVec 16)
  | [], m, slot, sequence => some (m, slot, sequence)
  | d :: ds, m, slot, sequence =>
    let entry := fat d
    if isErasedData entry then some (m, d, sequence)
    else if isDeletedEntry entry then scanDirectoryFrom fat ds m slot sequence
    else do
      let (ok, m) ← m.addExtents entry.inodeList
      let sequence := if entry.sequenceCount > sequence then entry.sequenceCount else sequence
      if ok then scanDirectoryFrom fat ds m slot sequence else some (m, slot, sequence)

/-- `Rafs_InitialiseSectorMap` and `Rafs_ScanDirectory`: the map, the first slot that is free and
the highest sequence number. -/
def scanDirectory (numBlocks : ℕ) (fat : ℕ → Dirent) (sequence : BitVec 16) :
    Option (SectorMap × ℕ × BitVec 16) := do
  let (_, m) ← (SectorMap.initialise numBlocks).addExtents (getInitialRoot .priFat).inodeList
  let (_, m) ← m.addExtents (getInitialRoot .secFat).inodeList
  scanDirectoryFrom fat (List.range' 1 (maxDirEntries - 1)) m maxDirEntries sequence

end Mh40.Rafs
