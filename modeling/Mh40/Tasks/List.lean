import Mathlib.Algebra.Order.Ring.Nat
import Mh40.Lib.HeapArray

/-!
# Task list

Model of `task_list.c`. The tasks of a list lie in the flexible array behind the list, then in the
word `u` of the list. When there are more tasks, `u` points to an array on the heap, which then
holds the task that was in `u` too.

* A task is its address, `NULL` is 0. `Words.task 0` is also the `NULL` pointer in `u.tasks`.
* The size of the list is a bit field of `TASK_LIST_SIZE_BITS` bits.
* An access outside of the flexible array and of the array on the heap, a use of `u` as what it is
  not, and a panic are `none`.
* Only a list with data has `data`; it has no flexible array.
-/

namespace Mh40.Tasks

open Lib.HeapArray

/-- The address of a task. -/
abbrev Task := ℕ

/-- The 64 bits of `task_list_data_t`. -/
abbrev TaskListData := UInt64

def taskListSizeBits : ℕ := 4

def taskListMaxTasks : ℕ := 2 ^ taskListSizeBits - 1

/-- `task_list_type_t`. -/
inductive TaskListType where
  | standard
  | withData
  deriving DecidableEq

/-- The union `u`: a task, or a pointer to an array of tasks. -/
inductive Words where
  | task (task : Task)
  | tasks (tasks : List Task)
  deriving DecidableEq

/-- `task_list_t` with the flexible array and the data behind it. -/
structure TaskList where
  sizeList : ℕ
  sizeFlexibleTasks : ℕ
  listType : TaskListType
  u : Words
  flexibleTasks : List Task
  data : List TaskListData
  deriving DecidableEq

/-- `TaskList_InitialiseWithCapacity`. -/
def initialiseWithCapacity (capacity : ℕ) : Option TaskList :=
  if capacity ≤ taskListMaxTasks then
    some ⟨0, capacity - 1, .standard, .task 0, List.replicate (capacity - 1) 0, []⟩
  else none

/-- `TaskList_WithDataInitialise`. -/
def withDataInitialise : TaskList := ⟨0, 0, .withData, .task 0, [], []⟩

/-- `taskList_SizeSet`. -/
def sizeSet (list : TaskList) (size : ℕ) : TaskList :=
  { list with sizeList := size % 2 ^ taskListSizeBits }

/-! ## Tasks at indexes -/

/-- The write of one cell. -/
def writeCell (tasks : List Task) (index : ℕ) (task : Task) : Option (List Task) :=
  if index < tasks.length then some (tasks.set index task) else none

/-- `taskList_GetTaskAtIndex`. -/
def getTaskAtIndex (list : TaskList) (index : ℕ) : Option Task :=
  if index < list.sizeFlexibleTasks then list.flexibleTasks[index]?
  else if index = list.sizeFlexibleTasks ∧ list.sizeList = index + 1 then
    match list.u with
    | .task task => some task
    | .tasks _ => none
  else
    match list.u with
    | .task _ => none
    | .tasks tasks => tasks[index - list.sizeFlexibleTasks]?

/-- `taskList_SetTaskAtIndex`. -/
def setTaskAtIndex (list : TaskList) (task : Task) (index : ℕ) : Option TaskList :=
  if index < list.sizeFlexibleTasks then
    (writeCell list.flexibleTasks index task).map fun flexibleTasks => { list with flexibleTasks }
  else if index = list.sizeFlexibleTasks ∧ index + 1 = list.sizeList then
    match list.u with
    | .task _ => some { list with u := .task task }
    | .tasks _ => none
  else
    match list.u with
    | .task _ => none
    | .tasks tasks =>
      (writeCell tasks (index - list.sizeFlexibleTasks) task).map fun tasks =>
        { list with u := .tasks tasks }

/-- The loop of `taskList_FindTaskIndex` over the first `size` indexes: the last match counts. -/
def findTaskIndexUpTo (list : TaskList) (searchTask : Task) : (size : ℕ) → Option (Option ℕ)
  | 0 => some none
  | iter + 1 => do
    let found ← findTaskIndexUpTo list searchTask iter
    let task ← getTaskAtIndex list iter
    some (if task = searchTask then some iter else found)

/-- `taskList_FindTaskIndex`. -/
def findTaskIndex (list : TaskList) (searchTask : Task) : Option (Option ℕ) :=
  findTaskIndexUpTo list searchTask list.sizeList

/-! ## Resizing -/

/-- The union after `taskList_Resize`. -/
def resizeWords (u : Words) (flexSize oldSize newSize : ℕ) : Option Words :=
  let staticSize := flexSize + 1
  if newSize = staticSize then
    if oldSize > staticSize then
      match u with
      | .tasks tasks => tasks[0]?.map .task
      | .task _ => none
    else if oldSize < staticSize then some (.task 0)
    else some u
  else if newSize > staticSize then
    if oldSize = staticSize then
      match u with
      | .task moveTask => (writeCell (realloc [] (newSize - flexSize)) 0 moveTask).map .tasks
      | .tasks _ => none
    else
      match u with
      | .tasks tasks => some (.tasks (realloc tasks (newSize - flexSize)))
      | .task pointer =>
        if pointer = 0 then some (.tasks (realloc [] (newSize - flexSize))) else none
  else if oldSize > staticSize then
    match u with
    | .tasks _ => some (.task 0)
    | .task _ => none
  else if oldSize = staticSize then some (.task 0)
  else some u

/-- The data after `taskList_Resize`. -/
def resizeData (list : TaskList) (newSize : ℕ) : List TaskListData :=
  match list.listType with
  | .withData => if newSize ≠ 0 then realloc list.data newSize else []
  | .standard => list.data

/-- `taskList_Resize`. -/
def resize (list : TaskList) (newSize : ℕ) : Option TaskList :=
  (resizeWords list.u list.sizeFlexibleTasks list.sizeList newSize).map fun u =>
    sizeSet { list with u, data := resizeData list newSize } newSize

/-! ## Operations -/

/-- `TaskList_IsTaskListWithData`. -/
def isTaskListWithData (list : TaskList) : Bool := list.listType = .withData

/-- `taskList_Size(list) - 1` as a `uint16`: with no task it is no index of any array. -/
def lastIndex (list : TaskList) : ℕ := if list.sizeList = 0 then 0xFFFF else list.sizeList - 1

/-- `TaskList_AddTask`. -/
def addTask (list : TaskList) (task : Task) : Option (Bool × TaskList) :=
  if task = 0 then none
  else do
    let found ← findTaskIndex list task
    if found.isSome then some (false, list)
    else
      let list ← resize list (list.sizeList + 1)
      let list ← setTaskAtIndex list task (lastIndex list)
      some (true, list)

/-- The write of the data at an index. -/
def writeData (list : TaskList) (index : ℕ) (data : TaskListData) : Option TaskList :=
  if index < list.data.length then some { list with data := list.data.set index data } else none

/-- `TaskList_AddTaskWithData`. -/
def addTaskWithData (list : TaskList) (task : Task) (data : TaskListData) :
    Option (Bool × TaskList) :=
  if isTaskListWithData list then do
    let (added, list) ← addTask list task
    if added then (writeData list (lastIndex list) data).map (true, ·)
    else some (false, list)
  else some (false, list)

/-- The loop of `TaskList_RemoveTask`: `n` tasks move down by one, the first of them to `iter`. -/
def moveTasks : (n iter : ℕ) → TaskList → Option TaskList
  | 0, _, list => some list
  | n + 1, iter, list => do
    let next ← getTaskAtIndex list (iter + 1)
    let list ← setTaskAtIndex list next iter
    moveTasks n (iter + 1) list

/-- The data with the gap at `index` closed. -/
def moveData (list : TaskList) (index : ℕ) : List TaskListData :=
  match list.listType with
  | .withData => memmove list.data index (index + 1) (list.sizeList - index - 1)
  | .standard => list.data

/-- `TaskList_RemoveTask`. -/
def removeTask (list : TaskList) (task : Task) : Option (Bool × TaskList) :=
  if task = 0 then none
  else do
    match ← findTaskIndex list task with
    | none => some (false, list)
    | some index =>
      let list ← moveTasks (list.sizeList - 1 - index) index list
      let list ← resize { list with data := moveData list index } (list.sizeList - 1)
      some (true, list)

/-- `TaskList_SetDataForTask`. -/
def setDataForTask (list : TaskList) (task : Task) (data : TaskListData) :
    Option (Bool × TaskList) :=
  if isTaskListWithData list then do
    match ← findTaskIndex list task with
    | none => some (false, list)
    | some index => (writeData list index data).map (true, ·)
  else some (false, list)

/-- `TaskList_RemoveAllTasks`. -/
def removeAllTasks (list : TaskList) : Option TaskList :=
  if list.listType = .withData then none else resize list 0

/-! ## Copies -/

/-- `TaskList_CreateWithCapacity`. -/
def createWithCapacity (capacity : ℕ) : Option TaskList :=
  initialiseWithCapacity (if capacity = 0 then 1 else capacity)

/-- The loop of `TaskList_Duplicate` over the indexes from `index` on. -/
def copyTasks (list : TaskList) : (n index : ℕ) → TaskList → Option TaskList
  | 0, _, newList => some newList
  | n + 1, index, newList => do
    let copytask ← getTaskAtIndex list index
    let newList ← setTaskAtIndex newList copytask index
    copyTasks list n (index + 1) newList

/-- The `memcpy` of the data, from as many as the list has. -/
def copyData (list newList : TaskList) : Option TaskList :=
  match newList.listType with
  | .withData =>
    if list.sizeList ≤ list.data.length ∧ list.sizeList ≤ newList.data.length then
      some { newList with
        data := list.data.take list.sizeList ++ newList.data.drop list.sizeList }
    else none
  | .standard => some newList

/-- The new list of `TaskList_Duplicate`: it is created with as many tasks as the flexible array
has. -/
def createDuplicate (list : TaskList) : Option TaskList :=
  match list.listType with
  | .standard => createWithCapacity list.sizeFlexibleTasks
  | .withData => some withDataInitialise

/-- `TaskList_Duplicate`: the new list gets the sizes and the type of the old one. -/
def duplicate (list : TaskList) : Option TaskList := do
  let newList ← createDuplicate list
  let newList := { newList with
    sizeList := list.sizeList
    sizeFlexibleTasks := list.sizeFlexibleTasks
    listType := list.listType }
  let newList ← resize newList list.sizeList
  let newList ← copyTasks list list.sizeList 0 newList
  copyData list newList

/-! ## Runs -/

/-- An operation on a list. -/
inductive Op where
  | addTask (task : Task)
  | addTaskWithData (task : Task) (data : TaskListData)
  | removeTask (task : Task)
  | setDataForTask (task : Task) (data : TaskListData)
  | removeAllTasks

/-- One operation: the list after it and what it returns; `TaskList_RemoveAllTasks` returns
nothing. -/
def step (list : TaskList) : Op → Option (TaskList × Bool)
  | .addTask task => (addTask list task).map Prod.swap
  | .addTaskWithData task data => (addTaskWithData list task data).map Prod.swap
  | .removeTask task => (removeTask list task).map Prod.swap
  | .setDataForTask task data => (setDataForTask list task data).map Prod.swap
  | .removeAllTasks => (removeAllTasks list).map (·, true)

end Mh40.Tasks
