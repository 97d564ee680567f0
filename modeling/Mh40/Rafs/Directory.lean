import Mathlib.Data.Fintype.Pi
import Mathlib.Data.Fin.VecNotation
import Mh40.Lib.Flash

/-!
# The directory of the file system on flash

`rafs_dirent.h`, `rafs_directory.c` and the entry tests of `rafs_fat.c`. A directory entry is the
cell of the flash: programming one takes the bitwise and with what it holds, erasing a block leaves
every bit set. The two file allocation tables are the blocks `PRI_FAT` and `SEC_FAT`, slot 0 of
each is its root entry.

* `Dirent` — `dir_entry_t`, a meet-semilattice under the bitwise and, with the erased entry on top;
* `Dirent.dataPart`, `Dirent.firstPart` — the two halves that `Rafs_DirEntryWrite` programs;
* `dirEntryWriteData`, `dirEntryWriteFirst`, `dirEntryWrite` — the writes of an entry;
* `classifyDirent` — what the first character of an entry says.
-/

namespace Mh40.Rafs

open Lib.Flash

/-- `inode_t`: a run of sectors. -/
@[ext] structure Inode where
  offset : BitVec 16
  length : BitVec 16
deriving DecidableEq, Repr

/-- `MAX_INODES`. -/
def maxInodes : ℕ := 3

/-- `DIRECTORY_SIZE`. -/
def directorySize : ℕ := 4096

/-- `MAX_DIR_ENTRIES`: `DIRECTORY_SIZE` over the 36 bytes of a `dir_entry_t`. -/
def maxDirEntries : ℕ := 113

/-- `ROOT_DIRENT_NUMBER`. -/
def rootDirentNumber : ℕ := 0

/-- `dir_entry_t`. -/
@[ext] structure Dirent where
  filename : Fin 16 → BitVec 8
  fileSize : BitVec 32
  sequenceCount : BitVec 16
  accessCount : BitVec 16
  inodes : Fin 3 → Inode
deriving DecidableEq

namespace Inode

def and (a b : Inode) : Inode := ⟨a.offset &&& b.offset, a.length &&& b.length⟩

/-- `INODE_UNUSED` in both fields: also what erased flash holds. -/
def unused : Inode := ⟨0xFFFF, 0xFFFF⟩

instance : Min Inode := ⟨and⟩

instance : Top Inode := ⟨unused⟩

end Inode

namespace Dirent

/-- What programming an entry over another leaves. -/
def and (a b : Dirent) : Dirent where
  filename i := a.filename i &&& b.filename i
  fileSize := a.fileSize &&& b.fileSize
  sequenceCount := a.sequenceCount &&& b.sequenceCount
  accessCount := a.accessCount &&& b.accessCount
  inodes i := (a.inodes i).and (b.inodes i)

/-- An entry of all FFs. -/
def erased : Dirent where
  filename _ := 0xFF
  fileSize := 0xFFFFFFFF
  sequenceCount := 0xFFFF
  accessCount := 0xFFFF
  inodes _ := .unused

instance : Min Dirent := ⟨and⟩

@[simp] theorem and_255 (b : BitVec 8) : b &&& 255#8 = b := BitVec.and_allOnes

@[simp] theorem and_65535 (b : BitVec 16) : b &&& 65535#16 = b := BitVec.and_allOnes

@[simp] theorem and_4294967295 (b : BitVec 32) : b &&& 4294967295#32 = b := BitVec.and_allOnes

theorem min_def (a b : Dirent) : a ⊓ b = a.and b := rfl

instance : SemilatticeInf Dirent :=
  SemilatticeInf.mk'
    (fun a b => by ext <;> simp [min_def, and, Inode.and, BitVec.and_comm])
    (fun a b c => by ext <;> simp [min_def, and, Inode.and, BitVec.and_assoc])
    (fun a => by ext <;> simp [min_def, and, Inode.and])

instance : OrderTop Dirent where
  top := erased
  le_top a := by
    refine inf_eq_left.mp (Dirent.ext (funext fun i => ?_) ?_ ?_ ?_ (funext fun i => ?_)) <;>
      simp [min_def, and, erased, Inode.and, Inode.unused]

/-- The first character of the file name, which says what the entry holds. -/
def first (d : Dirent) : BitVec 8 := d.filename 0

/-- Everything but the first character: `DIRENT_WRITE_TYPE_DATA`. -/
def dataPart (d : Dirent) : Dirent := { d with filename := Function.update d.filename 0 0xFF }

/-- A first character alone: `DIRENT_WRITE_TYPE_FIRST`. -/
def firstPart (ch : BitVec 8) : Dirent :=
  { erased with filename := Function.update erased.filename 0 ch }

/-- An access count alone. -/
def accessPart (count : BitVec 16) : Dirent := { erased with accessCount := count }

@[simp] theorem first_inf (a b : Dirent) : (a ⊓ b).first = a.first &&& b.first := rfl

@[simp] theorem first_top : (⊤ : Dirent).first = 0xFF := rfl

@[simp] theorem first_dataPart (d : Dirent) : d.dataPart.first = 0xFF := by
  simp [first, dataPart]

@[simp] theorem first_firstPart (ch : BitVec 8) : (firstPart ch).first = ch := by
  simp [first, firstPart]

@[simp] theorem first_accessPart (count : BitVec 16) : (accessPart count).first = 0xFF := rfl

/-- The two halves of an entry make the entry. -/
theorem dataPart_inf_firstPart (d : Dirent) : d.dataPart ⊓ firstPart d.first = d := by
  refine Dirent.ext (funext fun i => ?_) ?_ ?_ ?_ (funext fun i => ?_)
  · by_cases hi : i = 0
    · subst hi
      simp only [min_def, and, dataPart, firstPart, first, Function.update_self]
      exact BitVec.allOnes_and
    · simp [min_def, and, dataPart, firstPart, hi, erased]
  all_goals simp [min_def, and, dataPart, firstPart, erased, Inode.and, Inode.unused]

end Dirent

/-! ## Entries and what their first character says -/

/-- `safe_strncmp` gives 0: the same characters up to the terminator. -/
def sameName (a b : Fin 16 → BitVec 8) : Bool :=
  decide (∀ i, (∀ j, j < i → a j ≠ 0) → a i = b i)

/-- `Rafs_FindDirEntryByFilename` in the primary table. -/
def findDirEntryByFilename (fat : ℕ → Dirent) (freeDirSlot : ℕ) (filename : Fin 16 → BitVec 8) :
    Option ℕ :=
  (List.range' 1 (freeDirSlot - 1)).find? fun i => sameName (fat i).filename filename

/-- The bytes of a C string in a `char [16]`. -/
def charArray (s : String) : Fin 16 → BitVec 8 :=
  fun i => BitVec.ofNat 8 ((s.toList.map Char.toNat).getD i 0)

/-- `Rafs_IsErasedData` of a whole entry. -/
def isErasedData (d : Dirent) : Bool := d == ⊤

/-- `Rafs_IsDeletedEntry`. -/
def isDeletedEntry (d : Dirent) : Bool := d.first == 0

/-- `Rafs_IsValidFilenameCharacter`: `strchr` finds the terminator of the string as well. -/
def isValidFilenameCharacter (ch : BitVec 8) : Bool :=
  ch == 0 ||
    ("ABCDEFGHIJKLMNOPQRSTUVWXYZabcdefghijklmnopqrstuvwxyz0123456789_.".toList.any
      fun c => BitVec.ofNat 8 c.toNat == ch)

/-- `Rafs_IsValidFilename`: a name that is terminated, not empty, and of valid characters. -/
def isValidFilename (filename : Fin 16 → BitVec 8) : Bool :=
  decide ((∃ i, filename i = 0) ∧ filename 0 ≠ 0 ∧
    ∀ i, (∀ j, j ≤ i → filename j ≠ 0) → isValidFilenameCharacter (filename i) = true)

/-- `dirent_type`. -/
inductive DirentType where
  | unknown
  | erased
  | file
  | deleted
deriving DecidableEq, Repr

/-- `Rafs_ClassifyDirent`. -/
def classifyDirent (ch : BitVec 8) : DirentType :=
  if ch = 0xFF then .erased
  else if ch = 0 then .deleted
  else if isValidFilenameCharacter ch then .file
  else .unknown

theorem classifyDirent_erased {ch : BitVec 8} : classifyDirent ch = .erased ↔ ch = 0xFF := by
  unfold classifyDirent
  split_ifs <;> simp_all

theorem classifyDirent_deleted {ch : BitVec 8} : classifyDirent ch = .deleted ↔ ch = 0 := by
  unfold classifyDirent
  split_ifs <;> simp_all

/-- `block_id_t`: the blocks of the two tables. -/
inductive BlockId where
  | priFat
  | secFat
deriving DecidableEq, Repr

/-- Both tables, slot by slot. -/
abbrev Fats := Image BlockId ℕ Dirent

/-- The marks that the first character of a root entry takes: `fat_compact_state`. -/
def fcsCompactStart : BitVec 8 := 0x70

def fcsValid : BitVec 8 := 0x7E

def fcsSecondaryMaster : BitVec 8 := 0xFE

def fcsErased : BitVec 8 := 0xFF

/-- `Rafs_GetInitialRoot`: `pri_root_dirent` and `sec_root_dirent`. -/
def getInitialRoot (id : BlockId) : Dirent where
  filename := charArray "~QTIL-RAFS-V001"
  fileSize := BitVec.ofNat 32 directorySize
  sequenceCount := 0
  accessCount := 0
  inodes := ![⟨match id with | .priFat => 0 | .secFat => 1, 1⟩, .unused, .unused]

@[simp] theorem first_getInitialRoot (id : BlockId) : (getInitialRoot id).first = fcsValid := by
  cases id <;> decide

/-! ## The volume and the writes of an entry -/

/-- The part of `rafs_instance_t` that works on the tables: the flash itself, with what a loss of
power would have left of it, and the fields of `fileinfo_t` that the scans set. -/
structure Volume where
  flash : Log BlockId ℕ Dirent
  freeDirSlot : ℕ
  sequenceNumber : BitVec 16

namespace Volume

/-- `Rafs_CreateFilesStructure` at mount: all fields zero. -/
def boot (f : Fats) : Volume := ⟨.start f, 0, 0⟩

def now (v : Volume) : Fats := v.flash.now

/-- `RaPartitionErase` of the block of a table. -/
def partitionErase (v : Volume) (id : BlockId) : Volume :=
  { v with flash := v.flash.op (.erase id) }

/-- `Rafs_DirEntryWriteMember` of the bytes that differ from an erased entry. -/
def dirEntryWriteMember (v : Volume) (id : BlockId) (part : Dirent) (n : ℕ) : Volume :=
  { v with flash := v.flash.op (.program id n part) }

/-- `Rafs_DirEntryPartWrite` with `DIRENT_WRITE_TYPE_DATA`. -/
def dirEntryWriteData (v : Volume) (id : BlockId) (d : Dirent) (n : ℕ) : Volume :=
  v.dirEntryWriteMember id d.dataPart n

/-- `Rafs_DirEntryPartWrite` with `DIRENT_WRITE_TYPE_FIRST`. -/
def dirEntryWriteFirst (v : Volume) (id : BlockId) (d : Dirent) (n : ℕ) : Volume :=
  v.dirEntryWriteMember id (.firstPart d.first) n

/-- `Rafs_DirEntryWrite`: everything except the first char, then the first char by itself. -/
def dirEntryWrite (v : Volume) (id : BlockId) (d : Dirent) (n : ℕ) : Volume :=
  (v.dirEntryWriteData id d n).dirEntryWriteFirst id d n

end Volume

end Mh40.Rafs
