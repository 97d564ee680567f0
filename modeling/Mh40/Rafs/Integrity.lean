import Mh40.Rafs.Compact

/-!
# The integrity check of mount

`rafs_integrity.c`. The first character of the two root entries says how far a compaction had come
when the power was lost; entry by entry, the first characters in the two tables say which write of
a close or a removal was the last one.

* `checkDirectoryEntries` — interrupted closes and removals;
* `checkAndRepairFileAllocationTables` — interrupted compactions, in two passes;
* `checkIntegrity` — what mount runs before it scans the directory.
-/

namespace Mh40.Rafs

/-- The results of `rafs_errors_t` that the check gives. -/
inductive RafsErrors where
  | ok
  | invalidFat
deriving DecidableEq, Repr

/-- The loop of `Rafs_CheckDirectoryEntries`. -/
def checkDirectoryEntriesFrom : List ℕ → Volume → RafsErrors × Volume
  | [], v => (.ok, v)
  | d :: ds, v =>
    let priCh := (v.now .priFat d).first
    let priType := classifyDirent priCh
    let secType := classifyDirent (v.now .secFat d).first
    if priType = .erased ∧ secType = .erased then (.ok, v)
    else if priType = .unknown ∨ secType = .unknown then (.invalidFat, v)
    else
      match priType with
      | .erased => (.invalidFat, v)
      | .file =>
        if secType = .erased then
          -- an interrupted file close: the primary is copied to the secondary
          checkDirectoryEntriesFrom ds (v.dirEntryWrite .secFat (v.now .priFat d) d)
        else if secType = .deleted then (.invalidFat, v)
        else checkDirectoryEntriesFrom ds v
      | .deleted =>
        if secType ≠ .deleted then
          -- an interrupted file removal: the file is marked deleted in the secondary as well
          checkDirectoryEntriesFrom ds (v.dirEntryWriteMember .secFat (.firstPart priCh) d)
        else checkDirectoryEntriesFrom ds v
      | .unknown => (.invalidFat, v)

/-- `Rafs_CheckDirectoryEntries`. -/
def checkDirectoryEntries (v : Volume) : RafsErrors × Volume :=
  checkDirectoryEntriesFrom (List.range' 1 (maxDirEntries - 1)) v

/-- `Rafs_CheckAndRepairFileAllocationTables`, with the number of passes that are left. -/
def checkAndRepairFileAllocationTables (qsort : Qsort) : ℕ → Volume → Option (Bool × Volume)
  | 0, v => some (false, v)
  | pass + 1, v =>
    let priStatus := (v.now .priFat rootDirentNumber).first
    let secStatus := (v.now .secFat rootDirentNumber).first
    if priStatus = fcsValid ∧ secStatus = fcsValid then some (true, v)
    else if priStatus = fcsErased ∧ secStatus = fcsErased then some (false, v)
    else if priStatus = fcsCompactStart ∧ (secStatus = fcsValid ∨ secStatus = fcsErased) then
      -- compaction just started, the primary is still master
      (compactRepairFromPrimary qsort v).bind (checkAndRepairFileAllocationTables qsort pass)
    else if secStatus = fcsSecondaryMaster then
      -- about half-way through, the secondary is the master
      checkAndRepairFileAllocationTables qsort pass (compactRepairFromSecondary v)
    else if priStatus = fcsErased ∧ secStatus = fcsValid then
      -- just missing the final step of marking the primary as valid
      checkAndRepairFileAllocationTables qsort pass
        (v.dirEntryWriteMember .priFat (.firstPart fcsValid) rootDirentNumber)
    else checkAndRepairFileAllocationTables qsort pass v

/-- `Rafs_CheckFileAllocationTables`. -/
def checkFileAllocationTables (qsort : Qsort) (v : Volume) : Option (Bool × Volume) :=
  if v.now .priFat rootDirentNumber = getInitialRoot .priFat ∧
      v.now .secFat rootDirentNumber = getInitialRoot .secFat then some (true, v)
  else checkAndRepairFileAllocationTables qsort 2 v

/-- `Rafs_CheckIntegrity`. -/
def checkIntegrity (qsort : Qsort) (v : Volume) : Option (RafsErrors × Volume) :=
  (checkFileAllocationTables qsort v).map fun r =>
    if r.1 then checkDirectoryEntries r.2 else (.invalidFat, r.2)

end Mh40.Rafs
