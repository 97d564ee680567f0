import Mathlib.Algebra.Order.Ring.Nat
import Mathlib.Data.List.Basic

/-!
# Scratch memory

`mem_utils/scratch_memory.c`: tasks of one priority share a base block for each memory preference.
A task reserves what it will need, which makes the block as long as the largest reservation, and
commits pieces of the block while it runs.

* `Scratch`: the list of registered tasks, the records of the priorities and the heap.
* `scratchRegister`, `scratchDeregister`, `scratchReserve`, `scratchRelease`, `scratchCommit`,
  `scratchFree`: the six functions, `none` when they panic.

A block of the heap is a number that is never used again, with the length that `psizeof` returns.
What the heap answers to a request is an argument: `none` when it has no block, otherwise by how
much the block is longer than requested. Calls are atomic: the list of tasks is walked with
interrupts blocked, and the records of a priority are used by one task at a time.
-/

namespace Mh40.ScratchMemory

/-- `taskid`. -/
abbrev TaskId := ℕ

/-- `NO_TASK`. -/
def noTask : TaskId := 0xFFFFFF

/-- `GET_TASK_PRIORITY`. -/
def getTaskPriority (x : TaskId) : ℕ := x / 2 ^ 16 % 2 ^ 5

/-- Which of the three records a call is about. -/
inductive Preference
  | dm1
  | dm2
  | none
deriving DecidableEq, Repr

/-- The `switch` on `preference`: `MALLOC_PREFERENCE_DM1`, `MALLOC_PREFERENCE_DM2`, and all other
values. -/
def Preference.ofMalloc (preference : ℕ) : Preference :=
  if preference = 1 then .dm1 else if preference = 2 then .dm2 else .none

/-! ## The heap -/

/-- The blocks of the heap, with their lengths. -/
structure Heap where
  next : ℕ
  size : ℕ → Option ℕ

/-- `pfree`, of `NULL` too. -/
def Heap.pfree (h : Heap) (p : Option ℕ) : Heap :=
  { h with size := fun b => if p = some b then none else h.size b }

/-- `xppmalloc`, with `psizeof` of the block. -/
def Heap.xppmalloc (h : Heap) (numBytes : ℕ) (answer : Option ℕ) : Option (ℕ × ℕ × Heap) :=
  answer.map fun slack =>
    (h.next, numBytes + slack, ⟨h.next + 1, Function.update h.size h.next (some (numBytes + slack))⟩)

/-! ## The records -/

/-- `mem_alloc_info`. -/
structure MemAllocInfo where
  base : Option ℕ
  maxReserved : ℕ
  totalCommitted : ℕ
  allocSize : ℕ
deriving DecidableEq, Repr

/-- `scratch_per_task_data`. -/
structure PerTaskData where
  taskId : TaskId
  taskPriority : ℕ
  totalReserved : Preference → ℕ

/-- `scratch_per_prio_data`. -/
structure PerPrioData where
  refcount : ℤ
  allocInfo : Preference → MemAllocInfo
  lastTask : TaskId

/-- `first_scratch_mem`, `per_prio_data` and the heap. -/
structure Scratch where
  firstScratchMem : List PerTaskData
  perPrioData : ℕ → PerPrioData
  heap : Heap

/-- Static data is zero at the start: `last_task` too, which is not `NO_TASK`. -/
def Scratch.init : Scratch where
  firstScratchMem := []
  perPrioData := fun _ => ⟨0, fun _ => ⟨none, 0, 0, 0⟩, 0⟩
  heap := ⟨0, fun _ => none⟩

/-- The allocation record of a priority and a preference. -/
def Scratch.info (m : Scratch) (priority : ℕ) (p : Preference) : MemAllocInfo :=
  (m.perPrioData priority).allocInfo p

/-- The allocation record of a priority and a preference set. -/
def Scratch.setInfo (m : Scratch) (priority : ℕ) (p : Preference) (info : MemAllocInfo) : Scratch :=
  let prio := m.perPrioData priority
  let prio := { prio with allocInfo := Function.update prio.allocInfo p info }
  { m with perPrioData := Function.update m.perPrioData priority prio }

/-- `lookup_per_task_data`. -/
def lookupPerTaskData (m : Scratch) (task : TaskId) : Option PerTaskData :=
  m.firstScratchMem.find? fun ptd => ptd.taskId = task

/-! ## Registration -/

/-- `scratch_register`. `created` says whether the record of the task could be allocated. -/
def scratchRegister (m : Scratch) (task : TaskId) (created : Bool) : Option (Bool × Scratch) :=
  let priority := getTaskPriority task
  match lookupPerTaskData m task with
  | none =>
    if created then
      let prio := m.perPrioData priority
      some (true, { m with
        firstScratchMem := ⟨task, priority, fun _ => 0⟩ :: m.firstScratchMem
        perPrioData :=
          Function.update m.perPrioData priority { prio with refcount := prio.refcount + 1 } })
    else some (false, m)
  | some _ => none

/-- `free_base_alloc`. -/
def freeBaseAlloc (m : Scratch) (priority : ℕ) (p : Preference) : Scratch :=
  { m.setInfo priority p ⟨none, 0, 0, 0⟩ with heap := m.heap.pfree (m.info priority p).base }

/-- `realloc_base`. `ppmalloc` panics when there is no block. -/
def reallocBase (m : Scratch) (priority : ℕ) (p : Preference) (size : ℕ) (answer : Option ℕ) :
    Option Scratch :=
  let info := m.info priority p
  let heap := m.heap.pfree info.base
  if 0 < size then
    (heap.xppmalloc size answer).map fun (block, length, heap) =>
      { m.setInfo priority p
          { info with base := some block, allocSize := length, maxReserved := size } with
        heap := heap }
  else
    some { m.setInfo priority p { info with base := none, allocSize := 0, maxReserved := size } with
      heap := heap }

/-- The largest reservation of a task at the priority, as `deregister_update` finds it. -/
def maxTotalReserved (tasks : List PerTaskData) (priority : ℕ) (p : Preference) : ℕ :=
  tasks.foldl (fun most ptd =>
    if ptd.taskPriority = priority then
      if most < ptd.totalReserved p then ptd.totalReserved p else most
    else most) 0

/-- What `deregister_update` does for one preference. -/
def deregisterUpdateOne (m : Scratch) (priority : ℕ) (p : Preference) (answer : Option ℕ) :
    Option Scratch :=
  let most := maxTotalReserved m.firstScratchMem priority p
  if most < (m.info priority p).maxReserved then reallocBase m priority p most answer else some m

/-- `deregister_update`. -/
def deregisterUpdate (m : Scratch) (priority : ℕ) (answers : Preference → Option ℕ) :
    Option Scratch := do
  let m ← deregisterUpdateOne m priority .dm1 (answers .dm1)
  let m ← deregisterUpdateOne m priority .dm2 (answers .dm2)
  deregisterUpdateOne m priority .none (answers .none)

/-- `last_task` of a priority set to `NO_TASK`. -/
def Scratch.clearLastTask (m : Scratch) (priority : ℕ) : Scratch :=
  { m with perPrioData :=
      Function.update m.perPrioData priority { m.perPrioData priority with lastTask := noTask } }

/-- The record of the task taken out of the list, and `refcount` one less. -/
def Scratch.unlink (m : Scratch) (task : TaskId) : Scratch :=
  let priority := getTaskPriority task
  let prio := m.perPrioData priority
  { m with
    firstScratchMem := m.firstScratchMem.eraseP fun ptd => ptd.taskId = task
    perPrioData :=
      Function.update m.perPrioData priority { prio with refcount := prio.refcount - 1 } }

/-- `scratch_deregister`, which returns `TRUE` when it does not panic. -/
def scratchDeregister (m : Scratch) (task : TaskId) (answers : Preference → Option ℕ) :
    Option Scratch :=
  let priority := getTaskPriority task
  if (m.perPrioData priority).refcount ≤ 0 then none
  else match lookupPerTaskData m task with
    | some _ =>
      let m := m.unlink task
      let m :=
        if (m.perPrioData priority).refcount = 0 then
          some (freeBaseAlloc (freeBaseAlloc (freeBaseAlloc m priority .dm1) priority .dm2)
            priority .none)
        else deregisterUpdate m priority answers
      m.map fun m => m.clearLastTask priority
    | none => none

/-! ## Reservations -/

/-- The record of the task with its reservation of one preference changed. -/
def PerTaskData.setReserved (ptd : PerTaskData) (p : Preference) (n : ℕ) : PerTaskData :=
  { ptd with totalReserved := Function.update ptd.totalReserved p n }

/-- `*reserved = n` in the record that `lookup_per_task_data` found. -/
def Scratch.setReserved (m : Scratch) (task : TaskId) (p : Preference) (n : ℕ) : Scratch :=
  { m with firstScratchMem := m.firstScratchMem.map fun ptd =>
      if ptd.taskId = task then ptd.setReserved p n else ptd }

/-- The test that is to stop a task that has committed scratch. -/
def Scratch.HasCommitted (m : Scratch) (task : TaskId) (priority : ℕ) (p : Preference) : Prop :=
  task = (m.perPrioData priority).lastTask ∧ (m.info priority p).totalCommitted ≠ 0

instance (m : Scratch) (task : TaskId) (priority : ℕ) (p : Preference) :
    Decidable (m.HasCommitted task priority p) := inferInstanceAs (Decidable (_ ∧ _))

/-- `scratch_reserve`: `MALLOC_PREFERENCE_NONE` is taken as `MALLOC_PREFERENCE_FAST`, which has the
same record. -/
def scratchReserve (m : Scratch) (task : TaskId) (size : BitVec 32) (preference : ℕ)
    (answer : Option ℕ) : Option (Bool × Scratch) :=
  match lookupPerTaskData m task with
  | none => none
  | some ptd =>
    let priority := getTaskPriority ptd.taskId
    let p := Preference.ofMalloc (if preference = 3 then 4 else preference)
    let info := m.info priority p
    if m.HasCommitted task priority p then none
    else
      let newSize := (ptd.totalReserved p + size.toNat) % 2 ^ 32
      if info.maxReserved < newSize then
        if info.allocSize < newSize then
          match m.heap.xppmalloc newSize answer with
          | none => some (false, m)
          | some (temp, length, heap) =>
            let m := { m.setInfo priority p
                { info with base := some temp, allocSize := length, maxReserved := newSize } with
              heap := heap.pfree info.base }
            some (true, m.setReserved task p newSize)
        else
          let m := m.setInfo priority p { info with maxReserved := newSize }
          some (true, m.setReserved task p newSize)
      else some (true, m.setReserved task p newSize)

/-- `scratch_release`, which returns `TRUE` when it does not panic. The difference is tested as a
signed number. -/
def scratchRelease (m : Scratch) (task : TaskId) (size : BitVec 32) (preference : ℕ) :
    Option Scratch :=
  match lookupPerTaskData m task with
  | none => none
  | some ptd =>
    let priority := getTaskPriority ptd.taskId
    let p := Preference.ofMalloc preference
    if m.HasCommitted task priority p then none
    else
      let newSize := (ptd.totalReserved p + 2 ^ 32 - size.toNat) % 2 ^ 32
      if newSize < 2 ^ 31 then some (m.setReserved task p newSize) else none

/-! ## Commits -/

/-- `scratch_commit`: the base block and the offset of what it returns. -/
def scratchCommit (m : Scratch) (task : TaskId) (size : BitVec 32) (preference : ℕ) :
    Option ((Option ℕ × ℕ) × Scratch) :=
  let priority := getTaskPriority task
  let p := Preference.ofMalloc preference
  let info := m.info priority p
  let newCommit := (info.totalCommitted + size.toNat) % 2 ^ 32
  if info.allocSize < newCommit then none
  else some ((info.base, info.totalCommitted),
    m.setInfo priority p { info with totalCommitted := newCommit })

/-- `scratch_free`. -/
def scratchFree (m : Scratch) (task : TaskId) : Scratch :=
  let priority := getTaskPriority task
  let prio := m.perPrioData priority
  let prio := { prio with
    allocInfo := fun p => { prio.allocInfo p with totalCommitted := 0 }
    lastTask := noTask }
  { m with perPrioData := Function.update m.perPrioData priority prio }

end Mh40.ScratchMemory
