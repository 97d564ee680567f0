import Mh40.Rafs.Directory

/-!
# Compaction

`rafs_compact.c`: the worker copies the entries of the live files to the secondary table, makes
that one the master, and rebuilds the primary from it. Each state of the worker is one message; it
works on whole entries and leaves the flash in an image between any two of them. A failed
`PanicFalse` and a read past the end of the `resequence` array are `none`.

* `Qsort` — the sort of the C library, with what its documentation promises;
* `getNormalisedSequenceNumbers` — the files renumbered from 1 in the order of their sequence
  numbers;
* `progressCompactWorker` — one message of the worker;
* `compactRepairFromPrimary`, `compactRepairFromSecondary` — the same actions at mount.
-/

namespace Mh40.Rafs

open Lib.Flash

/-- `struct resequence`. -/
structure Resequence where
  fatIndex : ℕ
  sequenceNumber : BitVec 16

/-- `Rafs_SortSequenceNumberAscending`. -/
def sortSequenceNumberAscending (a b : Resequence) : Ordering :=
  compare a.sequenceNumber.toNat b.sequenceNumber.toNat

/-- `Rafs_SortFatIndexAscending`. -/
def sortFatIndexAscending (a b : Resequence) : Ordering := compare a.fatIndex b.fatIndex

/-- `qsort`: a permutation in ascending order of the comparison, when the comparison is that of a
key. The order among equal keys is left open. -/
structure Qsort where
  sort : (Resequence → Resequence → Ordering) → List Resequence → List Resequence
  perm : ∀ cmp l, (sort cmp l).Perm l
  ascending : ∀ (key : Resequence → ℕ) l,
    (sort (fun a b => compare (key a) (key b)) l).Pairwise fun a b => key a ≤ key b

/-- A sort that keeps equal keys in place is one such `qsort`. -/
def Qsort.stable : Qsort where
  sort cmp l := l.mergeSort fun a b => (cmp a b).isLE
  perm _ l := List.mergeSort_perm l _
  ascending key l := by
    have := @List.pairwise_mergeSort _ (fun a b => (compare (key a) (key b)).isLE)
      (fun a b c hab hbc => by rw [Nat.isLE_compare] at *; exact hab.trans hbc)
      (fun a b => by
        rw [Bool.or_eq_true, Nat.isLE_compare, Nat.isLE_compare]
        exact le_total _ _) l
    exact this.imp fun h => Nat.isLE_compare.mp h

/-- `Rafs_GetNumberOfDirEntries`: all of them when the directory has not been scanned yet. -/
def getNumberOfDirEntries (v : Volume) : ℕ :=
  if v.freeDirSlot = 0 then maxDirEntries else v.freeDirSlot

/-- The slots that the loops of the worker visit: from 1 up to the limit. -/
def scanSlots (v : Volume) : List ℕ := List.range' 1 (getNumberOfDirEntries v - 1)

/-- The loop of `Rafs_CountValidFiles`. -/
def countValidFilesFrom (fat : ℕ → Dirent) : List ℕ → ℕ
  | [] => 0
  | i :: is =>
    if isErasedData (fat i) then 0
    else if isDeletedEntry (fat i) then countValidFilesFrom fat is
    else countValidFilesFrom fat is + 1

/-- `Rafs_CountValidFiles`. -/
def countValidFiles (v : Volume) : ℕ := countValidFilesFrom (v.now .priFat) (scanSlots v)

/-- The loop that fills the array of `Rafs_GetNormalisedSequenceNumbers`, room for `room` more. -/
def gatherSequenceNumbers (fat : ℕ → Dirent) : ℕ → List ℕ → List Resequence
  | 0, _ => []
  | _, [] => []
  | room + 1, i :: is =>
    if isErasedData (fat i) then []
    else if isDeletedEntry (fat i) then gatherSequenceNumbers fat (room + 1) is
    else ⟨i, (fat i).sequenceCount⟩ :: gatherSequenceNumbers fat room is

/-- The renumbering loop: `resequence[i].sequence_number = i + 1`. -/
def renumber (rs : List Resequence) : List Resequence :=
  rs.mapIdx fun i r => { r with sequenceNumber := BitVec.ofNat 16 (i + 1) }

/-- `Rafs_GetNormalisedSequenceNumbers`. -/
def getNormalisedSequenceNumbers (qsort : Qsort) (v : Volume) (nFiles : ℕ) :
    Option (List Resequence) :=
  let rs := gatherSequenceNumbers (v.now .priFat) nFiles (scanSlots v)
  if rs.length = nFiles then
    some (qsort.sort sortFatIndexAscending
      (renumber (qsort.sort sortSequenceNumberAscending rs)))
  else none

/-! ## The actions -/

/-- `Rafs_CompactWorkerStartAction`. -/
def compactWorkerStartAction (v : Volume) : Volume :=
  v.dirEntryWriteMember .priFat (.firstPart fcsCompactStart) rootDirentNumber

/-- `Rafs_CompactWorkerEraseBackupFatAction`. -/
def compactWorkerEraseBackupFatAction (v : Volume) : Volume := v.partitionErase .secFat

/-- The copying loop of `Rafs_CompactWorkerCopyToBackupAction`: `j` is the next slot to fill. -/
def copyToBackupLoop (rs : List Resequence) : List ℕ → ℕ → Volume → Option (ℕ × Volume)
  | [], j, v => some (j, v)
  | i :: is, j, v =>
    let d := v.now .priFat i
    if isErasedData d then some (j, v)
    else if isDeletedEntry d then copyToBackupLoop rs is j v
    else do
      let r ← rs[j - 1]?
      copyToBackupLoop rs is (j + 1)
        (v.dirEntryWrite .secFat { d with sequenceCount := r.sequenceNumber } j)

/-- `Rafs_CompactWorkerCopyToBackupAction`. -/
def compactWorkerCopyToBackupAction (qsort : Qsort) (v : Volume) : Option Volume := do
  let nFiles := countValidFiles v
  let rs ← getNormalisedSequenceNumbers qsort v nFiles
  let (j, v) ← copyToBackupLoop rs (scanSlots v) 1 v
  if j - 1 = nFiles then
    let last ← if nFiles > 0 then (rs[nFiles - 1]?).map Resequence.sequenceNumber
      else some v.sequenceNumber
    some { v with sequenceNumber := last, freeDirSlot := j }
  else none

/-- `Rafs_CompactWorkerSecondaryIsMasterAction`. -/
def compactWorkerSecondaryIsMasterAction (v : Volume) : Volume :=
  v.dirEntryWriteMember .secFat (.firstPart fcsSecondaryMaster) rootDirentNumber

/-- `Rafs_CompactWorkerErasePrimaryFatAction`. -/
def compactWorkerErasePrimaryFatAction (v : Volume) : Volume := v.partitionErase .priFat

/-- The copying loop of `Rafs_CompactWorkerCopyToPrimaryAction`. -/
def copyToPrimaryLoop : List ℕ → Volume → Volume
  | [], v => v
  | i :: is, v =>
    let d := v.now .secFat i
    if isErasedData d then v else copyToPrimaryLoop is (v.dirEntryWrite .priFat d i)

/-- `Rafs_CompactWorkerCopyToPrimaryAction`. -/
def compactWorkerCopyToPrimaryAction (v : Volume) : Volume := copyToPrimaryLoop (scanSlots v) v

/-- `Rafs_CompactWorkerWriteFatHeaderdataAction`. -/
def compactWorkerWriteFatHeaderdataAction (v : Volume) : Volume :=
  (v.dirEntryWriteData .priFat (getInitialRoot .priFat) rootDirentNumber).dirEntryWriteData
    .secFat (getInitialRoot .secFat) rootDirentNumber

/-- `Rafs_CompactWorkerSetFatsValidAction`: marking the primary valid is the very last step. -/
def compactWorkerSetFatsValidAction (v : Volume) : Volume :=
  (v.dirEntryWriteFirst .secFat (getInitialRoot .secFat) rootDirentNumber).dirEntryWriteFirst
    .priFat (getInitialRoot .priFat) rootDirentNumber

/-! ## The worker and the repairs -/

/-- `rafs_compact_states_t`. -/
inductive CompactState where
  | start
  | eraseSecondaryFat
  | copyDirentsToBackup
  | setSecondaryAsMaster
  | erasePrimaryFat
  | copyDirentsToPrimary
  | writeFatHeaderData
  | setFatsValid
  | sendCompletionMessage
deriving DecidableEq, Repr

/-- `Rafs_CreateCompactWorker`: the state of the first message. -/
def createCompactWorker (v : Volume) : CompactState :=
  if v.freeDirSlot > 1 then .start else .sendCompletionMessage

/-- `Rafs_ProgressCompactWorker`: what one message does, and the state of the next message. -/
def progressCompactWorker (qsort : Qsort) :
    CompactState → Volume → Option (CompactState × Volume)
  | .start, v => some (.eraseSecondaryFat, compactWorkerStartAction v)
  | .eraseSecondaryFat, v => some (.copyDirentsToBackup, compactWorkerEraseBackupFatAction v)
  | .copyDirentsToBackup, v =>
    (compactWorkerCopyToBackupAction qsort v).map (.setSecondaryAsMaster, ·)
  | .setSecondaryAsMaster, v => some (.erasePrimaryFat, compactWorkerSecondaryIsMasterAction v)
  | .erasePrimaryFat, v => some (.copyDirentsToPrimary, compactWorkerErasePrimaryFatAction v)
  | .copyDirentsToPrimary, v => some (.writeFatHeaderData, compactWorkerCopyToPrimaryAction v)
  | .writeFatHeaderData, v => some (.setFatsValid, compactWorkerWriteFatHeaderdataAction v)
  | .setFatsValid, v => some (.sendCompletionMessage, compactWorkerSetFatsValidAction v)
  | .sendCompletionMessage, v => some (.sendCompletionMessage, v)

/-- The worker after `n` of its messages. -/
def compactWorker (qsort : Qsort) : ℕ → CompactState × Volume → Option (CompactState × Volume)
  | 0, w => some w
  | n + 1, w => (progressCompactWorker qsort w.1 w.2).bind (compactWorker qsort n)

/-- `Rafs_CompactRepairFromSecondary`. -/
def compactRepairFromSecondary (v : Volume) : Volume :=
  compactWorkerSetFatsValidAction (compactWorkerWriteFatHeaderdataAction
    (compactWorkerCopyToPrimaryAction (compactWorkerErasePrimaryFatAction v)))

/-- `Rafs_CompactRepairFromPrimary`. -/
def compactRepairFromPrimary (qsort : Qsort) (v : Volume) : Option Volume :=
  (compactWorkerCopyToBackupAction qsort (compactWorkerEraseBackupFatAction v)).map fun v =>
    compactRepairFromSecondary (compactWorkerSecondaryIsMasterAction v)

end Mh40.Rafs
