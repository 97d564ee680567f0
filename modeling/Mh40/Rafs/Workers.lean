import Mathlib.Data.Fintype.Option
import Mh40.Lib.Run
import Mh40.Rafs.Compact

/-!
# The background work of the file system

The API of `rafs.c` with the messages that its task sends to itself (`rafs_message.c`). Mounting,
compacting and removing set `busy` until their last message is processed, and every entry point
refuses work while it is set. `Rafs_WriteBackground` queues its message without setting it, so
`Rafs_Close` does not know of a write that is still queued.

What the flash answers (a file is found, there is room, a write succeeds) is part of an event. Each
file gets a serial number when it is opened, and a queued write carries that of its file: this is
how the model tells a file from a later one under the same id. Reading through `files` while nothing
is mounted is `none`.

* `step` — one call of the API, or the delivery of any queued message;
* `Processed.Right` — a worker ran on the file it was queued for, while mounted;
* `Allowed` — no close of a file with a write of its own in the queue;
* `workers_own_file` — every run that keeps to it is right throughout.
-/

namespace Mh40.Rafs.Workers

open Lib List Option

/-- What the model keeps of an `open_file_t`. -/
structure OpenFile where
  serial : ℕ
  forWriting : Bool
deriving DecidableEq, Repr

/-- `RAFS_MAX_OPEN_FILES` ids. -/
abbrev FileId := Fin 4

/-- The messages of the task: `mount_work_t`, `compact_work_t`, `write_work_t` (with the serial
number of its file) and `remove_work_t`, with the blocks that are left of each inode, the last inode
first. -/
inductive Work where
  | mount
  | compact (state : CompactState)
  | write (fileId : FileId) (serial : ℕ)
  | remove (lengths : List (BitVec 16))
deriving DecidableEq

/-- What a delivery of a message found. -/
structure Processed where
  work : Work
  file : Option ℕ
  mounted : Bool

/-- `rafs_instance_t`. While nothing is mounted there is no `files` structure. -/
structure State where
  busy : Bool
  mounted : Bool
  openFiles : FileId → Option OpenFile
  numOpenFiles : ℕ
  fileIsOpenForWriting : Bool
  compactIsNeeded : Bool
  directory : Bool
  queue : List Work
  opened : ℕ
  processed : List Processed

/-- After `Rafs_Init`. -/
def start : State where
  busy := false
  mounted := false
  openFiles _ := none
  numOpenFiles := 0
  fileIsOpenForWriting := false
  compactIsNeeded := false
  directory := false
  queue := []
  opened := 0
  processed := []

/-- The calls of the API, with what the flash and the arguments make of their checks, and the
delivery of a queued message. -/
inductive Event where
  /-- `Rafs_Mount`: whether the directory is intact. -/
  | mount (intact : Bool)
  /-- `Rafs_Unmount`: whether the name is that of the mounted partition. -/
  | unmount (nameOk : Bool)
  /-- `Rafs_Open`: the path is valid, the file is found, the directory or the blocks are used up. -/
  | openFile (forWriting pathOk found full : Bool)
  /-- `Rafs_Close`. -/
  | close (fileId : ℤ)
  /-- `Rafs_WriteBackground`. -/
  | writeBackground (fileId : ℤ)
  /-- `Rafs_Remove`: the path is valid, the file is open, is found, and both writes succeed. -/
  | remove (pathOk isOpen found written : Bool) (lengths : List (BitVec 16))
  /-- `Rafs_Compact`, also from the idle timer: the name is right, there is more than the root. -/
  | compact (nameOk inUse : Bool)
  /-- `Rafs_OpenDirectory` and `Rafs_CloseDirectory`. -/
  | openDirectory (pathOk : Bool)
  | closeDirectory (idOk : Bool)
  /-- The message at a place of the queue; whether there is more to clean, and whether the flash
  operation of a compaction succeeds. -/
  | deliver (place : ℕ) (more : Bool) (ok : Bool)

/-! ## The calls -/

/-- `Rafs_FindFreeFileSlot`. -/
def findFreeFileSlot (s : State) : Option FileId :=
  (List.finRange 4).find? fun i => (s.openFiles i).isNone

/-- The bounds of `Rafs_FindOpenFileInstanceById`. -/
def fileIdOf (fileId : ℤ) : Option FileId :=
  if h : 0 ≤ fileId ∧ fileId < 4 then some ⟨fileId.toNat, by omega⟩ else none

/-- `Rafs_FindOpenFileInstanceById`: `files` is read for an id in range. -/
def findOpenFileInstanceById (s : State) (fileId : ℤ) : Option (Option (FileId × OpenFile)) :=
  match fileIdOf fileId with
  | none => some none
  | some i => if s.mounted then some ((s.openFiles i).map (i, ·)) else none

/-- `Rafs_ValidateFileIdentifier`: the open file when the call goes on. -/
def validateFileIdentifier (s : State) (fileId : ℤ) : Option (Option (FileId × OpenFile)) :=
  if s.busy then some none else findOpenFileInstanceById s fileId

/-- `rafs_doOpenRead` and `rafs_doOpenWrite` on a free id. -/
def doOpen (s : State) (i : FileId) (forWriting : Bool) : State :=
  { s with
    openFiles := Function.update s.openFiles i (some ⟨s.opened, forWriting⟩)
    numOpenFiles := s.numOpenFiles + 1
    fileIsOpenForWriting := s.fileIsOpenForWriting || forWriting
    opened := s.opened + 1 }

/-- `Rafs_Open`. -/
def openFile (s : State) (forWriting pathOk found full : Bool) : State :=
  if s.busy || !s.mounted || !pathOk then s
  else if forWriting then
    if found || s.fileIsOpenForWriting || full then s
    else match findFreeFileSlot s with
      | some i => doOpen s i true
      | none => s
  else if !found then s
  else match findFreeFileSlot s with
    | some i => doOpen s i false
    | none => s

/-- `Rafs_DoClose`. -/
def doClose (s : State) (i : FileId) (f : OpenFile) : State :=
  { s with
    openFiles := Function.update s.openFiles i none
    numOpenFiles := s.numOpenFiles - 1
    fileIsOpenForWriting := s.fileIsOpenForWriting && !f.forWriting }

/-- `Rafs_CreateWriteWorker`. -/
def createWriteWorker (s : State) (i : FileId) (f : OpenFile) : State :=
  { s with queue := s.queue ++ [.write i f.serial] }

/-- A worker that holds the `busy` flag. -/
def createWorker (s : State) (w : Work) : State := { s with busy := true, queue := s.queue ++ [w] }

/-- `Rafs_Remove` with `Rafs_DoRemove`. -/
def remove (s : State) (pathOk isOpen found written : Bool) (lengths : List (BitVec 16)) : State :=
  if s.busy || !s.mounted || !pathOk || isOpen || !found then s
  else
    let s := { s with compactIsNeeded := true }
    if written then createWorker s (.remove lengths) else s

/-- `Rafs_Compact`. -/
def compact (s : State) (nameOk inUse : Bool) : State :=
  if s.busy || !s.mounted || !nameOk || s.numOpenFiles != 0 || s.directory || !s.compactIsNeeded
  then s
  else createWorker { s with compactIsNeeded := false }
    (.compact (if inUse then .start else .sendCompletionMessage))

/-- `Rafs_Mount`. -/
def mount (s : State) (intact : Bool) : State :=
  if s.busy || s.mounted || !intact then s
  else createWorker { s with mounted := true } .mount

/-- `Rafs_Unmount`, with `Rafs_FreeFilesStructure`. -/
def unmount (s : State) (nameOk : Bool) : State :=
  if s.busy || !s.mounted || s.numOpenFiles != 0 || s.directory || !nameOk then s
  else { s with
    mounted := false
    openFiles := fun _ => none
    numOpenFiles := 0
    fileIsOpenForWriting := false
    compactIsNeeded := false }

/-! ## The workers -/

/-- The state that follows a state of the compaction, when its flash operations succeed. -/
def nextCompactState : CompactState → CompactState
  | .start => .eraseSecondaryFat
  | .eraseSecondaryFat => .copyDirentsToBackup
  | .copyDirentsToBackup => .setSecondaryAsMaster
  | .setSecondaryAsMaster => .erasePrimaryFat
  | .erasePrimaryFat => .copyDirentsToPrimary
  | .copyDirentsToPrimary => .writeFatHeaderData
  | .writeFatHeaderData => .setFatsValid
  | .setFatsValid => .sendCompletionMessage
  | .sendCompletionMessage => .sendCompletionMessage

/-- What `Rafs_ProgressRemoveWorker` leaves of the inodes after it has erased one block. -/
def eraseOne : List (BitVec 16) → List (BitVec 16)
  | [] => []
  | n :: ns => if n - 1 = 0 then ns else (n - 1) :: ns

/-- The message that a worker sends to itself; without one it clears `busy`. -/
def progress (w : Work) (more ok : Bool) : Option Work :=
  match w with
  | .mount => if more then some .mount else none
  | .compact .sendCompletionMessage => none
  | .compact state => some (.compact (if ok then nextCompactState state else .sendCompletionMessage))
  | .remove lengths =>
    if eraseOne lengths = [] then none else some (.remove (eraseOne lengths))
  | .write _ _ => none

/-- The file that `Rafs_ProgressWriteWorker` finds under its id. -/
def fileOf (s : State) : Work → Option ℕ
  | .write i _ => (s.openFiles i).map OpenFile.serial
  | _ => none

/-- `Rafs_MessageHandler`: the worker of the message that was taken from the queue. -/
def handle (s : State) (w : Work) (more ok : Bool) : State :=
  let s := { s with processed := ⟨w, fileOf s w, s.mounted⟩ :: s.processed }
  match w with
  | .write _ _ => s
  | w =>
    match progress w more ok with
    | some next => { s with queue := s.queue ++ [next] }
    | none => { s with busy := false }

/-- One event. -/
def step (s : State) : Event → Option State
  | .mount intact => some (mount s intact)
  | .unmount nameOk => some (unmount s nameOk)
  | .openFile forWriting pathOk found full => some (openFile s forWriting pathOk found full)
  | .close fileId =>
    (validateFileIdentifier s fileId).map fun
      | some (i, f) => doClose s i f
      | none => s
  | .writeBackground fileId =>
    (validateFileIdentifier s fileId).map fun
      | some (i, f) => createWriteWorker s i f
      | none => s
  | .remove pathOk isOpen found written lengths =>
    some (remove s pathOk isOpen found written lengths)
  | .compact nameOk inUse => some (compact s nameOk inUse)
  | .openDirectory pathOk =>
    some (if s.busy || !s.mounted || !pathOk || s.directory then s else { s with directory := true })
  | .closeDirectory idOk =>
    some (if s.busy || !idOk || !s.directory then s else { s with directory := false })
  | .deliver place more ok =>
    (s.queue[place]?).map fun w => handle { s with queue := s.queue.eraseIdx place } w more ok

/-! ## What is claimed, and the discipline -/

/-- The worker ran while a partition was mounted, a write on the file it was queued for. -/
def Processed.Right (p : Processed) : Prop :=
  p.mounted = true ∧ ∀ i serial, p.work = .write i serial → p.file = some serial

/-- A close that the API accepts finds no write of its file in the queue. -/
def Allowed (s : State) : Event → Prop
  | .close fileId => s.busy = false → ∀ i, fileIdOf fileId = some i →
      ∀ serial, .write i serial ∉ s.queue
  | _ => True

/-! ## The invariant -/

/-- The workers that run with `busy` set. -/
def Work.holdsBusy : Work → Bool
  | .write _ _ => false
  | _ => true

structure Inv (s : State) : Prop where
  /-- One of them is queued while `busy` is set, none otherwise. -/
  workers : s.queue.countP Work.holdsBusy = if s.busy then 1 else 0
  /-- A queued write belongs to the file that is open under its id. -/
  writes : ∀ i serial, Work.write i serial ∈ s.queue →
    ∃ f, s.openFiles i = some f ∧ f.serial = serial
  /-- The number of open files is kept. -/
  count : s.numOpenFiles = (Finset.univ.filter fun i => (s.openFiles i).isSome).card
  /-- Nothing runs and nothing is open while nothing is mounted. -/
  unmounted : s.mounted = false → s.busy = false ∧ ∀ i, s.openFiles i = none
  /-- Whatever was processed was right. -/
  right : ∀ p ∈ s.processed, p.Right

theorem inv_start : Inv start where
  workers := rfl
  writes i serial h := by simp [start] at h
  count := by simp [start]
  unmounted _ := ⟨rfl, fun _ => rfl⟩
  right p h := by simp [start] at h

section Steps

variable {s : State} {i : FileId} {f : OpenFile} {w : Work}

theorem openFiles_eq_none (h : Inv s) (hn : s.numOpenFiles = 0) (i : FileId) :
    s.openFiles i = none := by
  have hcard := h.count
  rw [hn, eq_comm, Finset.card_eq_zero, Finset.filter_eq_empty_iff] at hcard
  simpa using hcard (Finset.mem_univ i)

theorem inv_createWorker (h : Inv s) (hb : s.busy = false) (hm : s.mounted = true)
    (hw : w.holdsBusy = true) : Inv (createWorker s w) where
  workers := by
    have := h.workers
    rw [hb] at this
    simp [createWorker, hw, this]
  writes i serial hmem := by
    rcases mem_append.mp hmem with hmem | hmem
    · exact h.writes i serial hmem
    · obtain rfl := mem_singleton.mp hmem
      cases hw
  count := h.count
  unmounted hu := by
    rw [show (createWorker s w).mounted = s.mounted from rfl, hm] at hu
    cases hu
  right := h.right

theorem inv_mount (h : Inv s) (intact : Bool) : Inv (mount s intact) := by
  unfold mount
  split_ifs with hc
  · exact h
  · simp only [Bool.or_eq_true, Bool.not_eq_true', not_or, Bool.not_eq_true, Bool.not_eq_false]
      at hc
    have hs : Inv { s with mounted := true } :=
      ⟨h.workers, h.writes, h.count, fun hu => absurd hu (by simp), h.right⟩
    exact inv_createWorker hs hc.1.1 rfl rfl

theorem inv_unmount (h : Inv s) (nameOk : Bool) : Inv (unmount s nameOk) := by
  unfold unmount
  split_ifs with hc
  · exact h
  · simp only [Bool.or_eq_true, Bool.not_eq_true', bne_iff_ne, ne_eq, not_or, not_not,
      Bool.not_eq_true, Bool.not_eq_false] at hc
    obtain ⟨⟨⟨⟨hb, -⟩, hn⟩, -⟩, -⟩ := hc
    refine ⟨h.workers, fun i serial hmem => ?_, ?_, fun _ => ⟨hb, fun _ => rfl⟩, h.right⟩
    · obtain ⟨f, hf, -⟩ := h.writes i serial hmem
      rw [openFiles_eq_none h hn] at hf
      cases hf
    · simp

/-- The number of open files when one more slot is taken, or one is freed. -/
theorem card_update_some (openFiles : FileId → Option OpenFile) (f : OpenFile)
    (hi : openFiles i = none) :
    (Finset.univ.filter fun j => (Function.update openFiles i (some f) j).isSome).card
      = (Finset.univ.filter fun j => (openFiles j).isSome).card + 1 := by
  rw [← Finset.card_insert_of_notMem (a := i) (by simp [hi])]
  congr 1
  ext j
  by_cases hj : j = i
  · subst hj
    simp
  · simp [hj]

theorem card_update_none (openFiles : FileId → Option OpenFile) (hi : openFiles i = some f) :
    (Finset.univ.filter fun j => (Function.update openFiles i none j).isSome).card
      = (Finset.univ.filter fun j => (openFiles j).isSome).card - 1 := by
  rw [← Finset.card_erase_of_mem (a := i) (by simp [hi])]
  congr 1
  ext j
  by_cases hj : j = i
  · subst hj
    simp
  · simp [hj]

theorem inv_doOpen (h : Inv s) (hm : s.mounted = true) (hi : s.openFiles i = none)
    (forWriting : Bool) : Inv (doOpen s i forWriting) where
  workers := h.workers
  writes j serial hmem := by
    obtain ⟨f, hf, hserial⟩ := h.writes j serial hmem
    have hji : j ≠ i := by
      rintro rfl
      rw [hi] at hf
      cases hf
    exact ⟨f, by simpa [doOpen, hji] using hf, hserial⟩
  count := by
    rw [doOpen, card_update_some _ _ hi, h.count]
  unmounted hu := by
    rw [show (doOpen s i forWriting).mounted = s.mounted from rfl, hm] at hu
    cases hu
  right := h.right

theorem findFreeFileSlot_some (h : findFreeFileSlot s = some i) :
    s.openFiles i = none := by
  simpa using find?_some h

theorem inv_openFile (h : Inv s) (forWriting pathOk found full : Bool) :
    Inv (openFile s forWriting pathOk found full) := by
  unfold openFile
  split_ifs with hc
  · exact h
  all_goals
    simp only [Bool.or_eq_true, Bool.not_eq_true', not_or, Bool.not_eq_true, Bool.not_eq_false]
      at hc
  · exact h
  · cases hs : findFreeFileSlot s with
    | none => exact h
    | some i => exact inv_doOpen h hc.1.2 (findFreeFileSlot_some hs) true
  · exact h
  · cases hs : findFreeFileSlot s with
    | none => exact h
    | some i => exact inv_doOpen h hc.1.2 (findFreeFileSlot_some hs) false

/-- A close keeps the writes of the other files in place; this is where the discipline is needed. -/
theorem inv_doClose (h : Inv s) (hi : s.openFiles i = some f)
    (hq : ∀ serial, Work.write i serial ∉ s.queue) : Inv (doClose s i f) where
  workers := h.workers
  writes j serial hmem := by
    obtain ⟨g, hg, hserial⟩ := h.writes j serial hmem
    have hji : j ≠ i := by
      rintro rfl
      exact hq serial hmem
    exact ⟨g, by simpa [doClose, hji] using hg, hserial⟩
  count := by
    rw [doClose, card_update_none _ hi, h.count]
  unmounted hu := by
    obtain ⟨hb, hnone⟩ := h.unmounted hu
    rw [hnone] at hi
    cases hi
  right := h.right

theorem inv_createWriteWorker (h : Inv s) (hi : s.openFiles i = some f) :
    Inv (createWriteWorker s i f) where
  workers := by
    rw [createWriteWorker, countP_append]
    exact h.workers
  writes j serial hmem := by
    rcases mem_append.mp hmem with hmem | hmem
    · exact h.writes j serial hmem
    · cases mem_singleton.mp hmem
      exact ⟨f, hi, rfl⟩
  count := h.count
  unmounted := h.unmounted
  right := h.right

theorem inv_remove (h : Inv s) (pathOk isOpen found written : Bool) (lengths : List (BitVec 16)) :
    Inv (remove s pathOk isOpen found written lengths) := by
  unfold remove
  split_ifs with hc
  · exact h
  all_goals
    simp only [Bool.or_eq_true, Bool.not_eq_true', not_or, Bool.not_eq_true, Bool.not_eq_false]
      at hc
  · have hs : Inv { s with compactIsNeeded := true } :=
      ⟨h.workers, h.writes, h.count, h.unmounted, h.right⟩
    exact inv_createWorker hs hc.1.1.1.1 hc.1.1.1.2 rfl
  · exact ⟨h.workers, h.writes, h.count, h.unmounted, h.right⟩

theorem inv_compact (h : Inv s) (nameOk inUse : Bool) : Inv (compact s nameOk inUse) := by
  unfold compact
  by_cases hc : (s.busy || !s.mounted || !nameOk || s.numOpenFiles != 0 || s.directory ||
      !s.compactIsNeeded) = true
  · rw [if_pos hc]
    exact h
  · rw [if_neg hc]
    simp only [Bool.or_eq_true, Bool.not_eq_true', not_or, Bool.not_eq_true, Bool.not_eq_false]
      at hc
    have hs : Inv { s with compactIsNeeded := false } :=
      ⟨h.workers, h.writes, h.count, h.unmounted, h.right⟩
    exact inv_createWorker hs hc.1.1.1.1.1 hc.1.1.1.1.2 rfl

/-- A call that goes on finds the file open under the id. -/
theorem validate_some {fileId : ℤ} (h : validateFileIdentifier s fileId = some (some (i, f))) :
    s.busy = false ∧ fileIdOf fileId = some i ∧ s.openFiles i = some f := by
  unfold validateFileIdentifier at h
  split_ifs at h with hb
  · cases h
  · unfold findOpenFileInstanceById at h
    cases hid : fileIdOf fileId with
    | none =>
      rw [hid] at h
      cases h
    | some j =>
      simp only [hid] at h
      obtain ⟨-, h⟩ := ite_none_right_eq_some.mp h
      obtain ⟨g, hg, heq⟩ := map_eq_some_iff.mp (some.inj h)
      obtain ⟨rfl, rfl⟩ := Prod.mk.inj heq
      exact ⟨by simpa using hb, rfl, hg⟩

/-- A message in the queue says that a partition is mounted. -/
theorem mounted_of_mem (h : Inv s) (hw : w ∈ s.queue) : s.mounted = true := by
  by_contra hm
  obtain ⟨hb, hnone⟩ := h.unmounted (by simpa using hm)
  have hcount := h.workers
  rw [hb] at hcount
  cases w with
  | write i serial =>
    obtain ⟨f, hf, -⟩ := h.writes i serial hw
    rw [hnone] at hf
    cases hf
  | mount | compact | remove => exact absurd rfl (countP_eq_zero.mp hcount _ hw)

/-- A worker that goes on sends itself another message of its kind. -/
theorem holdsBusy_of_progress {w next : Work} {more ok : Bool}
    (hp : progress w more ok = some next) : next.holdsBusy = true := by
  cases w with
  | mount =>
    obtain ⟨-, h⟩ := ite_none_right_eq_some.mp hp
    cases h
    rfl
  | compact state => cases state <;> cases hp <;> rfl
  | write => cases hp
  | remove lengths =>
    obtain ⟨-, h⟩ := ite_none_left_eq_some.mp hp
    cases h
    rfl

/-- The delivery of a message: a write leaves the rest as it was, a worker sends its next message or
clears `busy`. -/
theorem inv_deliver (h : Inv s) {place : ℕ} (hw : s.queue[place]? = some w) (more ok : Bool) :
    Inv (handle { s with queue := s.queue.eraseIdx place } w more ok) := by
  obtain ⟨hlt, hget⟩ := List.getElem?_eq_some_iff.mp hw
  have hmem : w ∈ s.queue := mem_of_getElem? hw
  have hm := mounted_of_mem h hmem
  have hperm : s.queue.Perm (w :: s.queue.eraseIdx place) := by
    rw [← hget]
    exact (getElem_cons_eraseIdx_perm hlt).symm
  have hwrites : ∀ i serial, Work.write i serial ∈ s.queue.eraseIdx place →
      ∃ f, s.openFiles i = some f ∧ f.serial = serial :=
    fun i serial hx => h.writes i serial (mem_of_mem_eraseIdx hx)
  have hcount := h.workers
  rw [hperm.countP_eq, countP_cons] at hcount
  have hright : ∀ p ∈ (⟨w, fileOf s w, s.mounted⟩ : Processed) :: s.processed, p.Right := by
    intro p hp
    rcases mem_cons.mp hp with rfl | hp
    · refine ⟨hm, fun i serial hwork => ?_⟩
      obtain rfl : w = .write i serial := hwork
      obtain ⟨f, hf, rfl⟩ := h.writes i serial hmem
      simp [fileOf, hf]
    · exact h.right p hp
  cases hb : w.holdsBusy with
  | false =>
    cases w with
    | write i serial =>
      rw [hb] at hcount
      exact ⟨hcount, hwrites, h.count, h.unmounted, hright⟩
    | mount | compact | remove => cases hb
  | true =>
    -- it was the one worker that holds the flag
    rw [hb] at hcount
    obtain ⟨hbusy, hzero⟩ : s.busy = true ∧
        (s.queue.eraseIdx place).countP Work.holdsBusy = 0 := by
      cases hbs : s.busy <;> rw [hbs] at hcount <;> simp at hcount ⊢
      exact hcount
    have hhandle : handle { s with queue := s.queue.eraseIdx place } w more ok =
        match progress w more ok with
        | some next => { s with
            queue := s.queue.eraseIdx place ++ [next]
            processed := ⟨w, fileOf s w, s.mounted⟩ :: s.processed }
        | none => { s with
            queue := s.queue.eraseIdx place
            busy := false
            processed := ⟨w, fileOf s w, s.mounted⟩ :: s.processed } := by
      cases w with
      | write => cases hb
      | mount | compact | remove => rfl
    rw [hhandle]
    cases hp : progress w more ok with
    | some next =>
      have hnext := holdsBusy_of_progress hp
      refine ⟨?_, fun i serial hx => ?_, h.count, h.unmounted, hright⟩
      · simp [hzero, hnext, hbusy]
      · rcases mem_append.mp hx with hx | hx
        · exact hwrites i serial hx
        · obtain rfl := mem_singleton.mp hx
          cases hnext
    | none =>
      exact ⟨by simp [hzero], hwrites, h.count, fun hu => ⟨rfl, (h.unmounted hu).2⟩, hright⟩

/-- **The step.** An event that the discipline allows keeps the invariant. -/
theorem inv_step (h : Inv s) {e : Event} (ha : Allowed s e) {s' : State}
    (hs : step s e = some s') : Inv s' := by
  cases e with
  | mount intact =>
    obtain rfl := some.inj hs
    exact inv_mount h intact
  | unmount nameOk =>
    obtain rfl := some.inj hs
    exact inv_unmount h nameOk
  | openFile forWriting pathOk found full =>
    obtain rfl := some.inj hs
    exact inv_openFile h forWriting pathOk found full
  | close fileId =>
    obtain ⟨r, hr, rfl⟩ := map_eq_some_iff.mp hs
    cases r with
    | none => exact h
    | some r =>
      obtain ⟨i, f⟩ := r
      obtain ⟨hb, hid, hf⟩ := validate_some hr
      exact inv_doClose h hf (ha hb i hid)
  | writeBackground fileId =>
    obtain ⟨r, hr, rfl⟩ := map_eq_some_iff.mp hs
    cases r with
    | none => exact h
    | some r =>
      obtain ⟨i, f⟩ := r
      exact inv_createWriteWorker h (validate_some hr).2.2
  | remove pathOk isOpen found written lengths =>
    obtain rfl := some.inj hs
    exact inv_remove h pathOk isOpen found written lengths
  | compact nameOk inUse =>
    obtain rfl := some.inj hs
    exact inv_compact h nameOk inUse
  | openDirectory pathOk | closeDirectory idOk =>
    obtain rfl := some.inj hs
    split_ifs
    · exact h
    · exact ⟨h.workers, h.writes, h.count, h.unmounted, h.right⟩
  | deliver place more ok =>
    obtain ⟨w, hw, rfl⟩ := map_eq_some_iff.mp hs
    exact inv_deliver h hw more ok

end Steps

/-- **Background work stays on its own file.** In every run whose closes find no write of their file in
the queue, every worker ran while a partition was mounted, and every write on the open file for which
it was queued. -/
theorem workers_own_file {es : List Event} {s : State} (hm : Meets step Allowed start es)
    (hr : run step start es = some s) : ∀ p ∈ s.processed, p.Right :=
  (invariant_of_meets (fun _ _ _ h ha hs => inv_step h ha hs) inv_start hm hr).right

/-- A file that is written in the background, and closed once the write is processed. -/
def sampleEvents : List Event :=
  [.mount true, .deliver 0 false true, .openFile true true false false, .writeBackground 0,
    .deliver 0 false true, .close 0, .remove true false true true [2], .deliver 0 false true,
    .openFile true true false false, .deliver 0 false true, .unmount true]

theorem own_file_sampleEvents : ∃ s, run step start sampleEvents = some s ∧
    ∀ p ∈ s.processed, p.Right :=
  ⟨_, rfl, @workers_own_file sampleEvents _
    (by
      refine ⟨trivial, trivial, trivial, trivial, trivial, fun _ i _ serial => ?_, ?_⟩
      · exact List.not_mem_nil
      · exact ⟨trivial, trivial, trivial, trivial, trivial, trivial⟩) rfl⟩

/-- The close of a file with a write in the queue, and the next file takes its id: the write is
processed on that one. -/
theorem not_own_file_reusedId : ∃ s p, run step start
    [.mount true, .deliver 0 false true, .openFile true true false false, .writeBackground 0,
      .close 0, .openFile true true false false, .deliver 0 false true] = some s ∧
    p ∈ s.processed ∧ ¬p.Right :=
  ⟨_, ⟨.write 0 0, some 1, true⟩, rfl, List.mem_cons_self, fun h => by simpa using h.2 0 0 rfl⟩

/-- The same with the partition unmounted instead: the worker runs after that, and finds no file. -/
example : ∃ s p, run step start
    [.mount true, .deliver 0 false true, .openFile true true false false, .writeBackground 0,
      .close 0, .unmount true, .deliver 0 false true] = some s ∧
    p ∈ s.processed ∧ p.mounted = false ∧ p.file = none :=
  ⟨_, _, rfl, mem_cons_self, rfl, rfl⟩

end Mh40.Rafs.Workers
