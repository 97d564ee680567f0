import Mathlib.Algebra.Order.Ring.Nat
import Mh40.Lib.Mask

/-!
# The scheduler

`sched_oxygen.c` and `sched_oxygen_cancel.c`: tasks with message queues, background interrupts, and
the counts of the work that is left.

* The tasks and the background interrupts are lists of structures; an address is an index. The
  static ones come first, and a dynamic one that is not linked any more was freed.
* `check_context_switch` is open: it may serve any priority, so `first_message` is not there.
* A `Sched` is only what the counts depend on; message bodies are addresses that nobody follows.
-/

namespace Mh40.SchedOxygen

/-! ## Identifiers -/

/-- `NUM_PRIORITIES`. -/
def numPriorities : ℕ := 5

/-- `TIMED_EVENT_PRIORITY`. -/
def timedEventPriority : ℕ := 2

/-- `MAX_NUM_MESSAGES`. -/
def maxNumMessages : ℕ := 100

/-- `MAX_NUM_OF_BG_INTS`. -/
def maxNumOfBgInts : ℕ := 16

/-- `TASK_ID_START_LOCAL`, which is also `SCHED_TASK_ID_START`. -/
def taskIdStartLocal : ℕ := 128

/-- `MAX_TASK_INDEX`. -/
def maxTaskIndex : ℕ := 255

/-- `NO_TASK`. -/
def noTask : ℕ := 0xFFFFFF

/-- `MAX_SCHED_ID`. -/
def maxSchedId : ℕ := 0xFFFFFF

/-- `RESTART_SCHED_ID_BASE`. -/
def restartSchedIdBase : ℕ := maxSchedId / 32

/-- `BG_INT_FLAG_BIT`. -/
def bgIntFlagBit : ℕ := 2 ^ 22

/-- `BG_INT_TASK_IS_COUPLED_FLAG_BIT`. -/
def coupledFlagBit : ℕ := 2 ^ 21

/-- `GET_TASK_PRIORITY`. -/
def getTaskPriority (x : ℕ) : ℕ := x >>> 16 &&& 0x1F

/-- `QID_TO_QINDEX`. -/
def qidToQindex (q : ℕ) : ℕ := (q &&& 0xFF00) >>> 8

/-- `QID_TO_TSKID`. -/
def qidToTskid (q : ℕ) : ℕ := q &&& 0xFF

/-- `QID_TO_TASKID`. -/
def qidToTaskid (q : ℕ) : ℕ := q &&& 0xFF00FF

/-- `QID_IS_REMOTE`. -/
def qidIsRemote (q : ℕ) : Bool := qidToTskid q < taskIdStartLocal

/-- `ID_IS_BG_INT_ID`. -/
def idIsBgIntId (id : ℕ) : Bool := id &&& bgIntFlagBit ≠ 0

/-- `IS_COUPLED`. -/
def isCoupled (id : ℕ) : Bool := id &&& coupledFlagBit ≠ 0

/-- `~BG_INT_FLAG_BIT` in the 24 bits of an ID. -/
def withoutBgIntFlag (id : ℕ) : ℕ := id &&& 0xBFFFFF

/-- `IDS_SAME_OR_COUPLED`. -/
def idsSameOrCoupled (id1 id2 : ℕ) : Bool := withoutBgIntFlag id1 = withoutBgIntFlag id2

theorem getTaskPriority_or {m : ℕ} (hm : getTaskPriority m = 0) (x : ℕ) :
    getTaskPriority (x ||| m) = getTaskPriority x := by
  unfold getTaskPriority at *
  rw [Nat.shiftRight_or_distrib, Nat.and_or_distrib_right, hm, Nat.or_zero]

/-- `SET_PRIORITY_TASK_ID`, with the flags of the ID. -/
def setPriorityTaskId (priority index flags : ℕ) : ℕ := priority <<< 16 ||| index ||| flags

theorem getTaskPriority_setPriorityTaskId {priority index flags : ℕ} (hp : priority < numPriorities)
    (hindex : index < 2 ^ 16) (hflags : getTaskPriority flags = 0) :
    getTaskPriority (setPriorityTaskId priority index flags) = priority := by
  have hi : getTaskPriority index = 0 := by
    unfold getTaskPriority
    rw [Nat.shiftRight_eq_div_pow, Nat.div_eq_of_lt hindex, Nat.zero_and]
  unfold setPriorityTaskId
  rw [getTaskPriority_or hflags, getTaskPriority_or hi]
  unfold getTaskPriority
  rw [Nat.shiftLeft_shiftRight]
  unfold numPriorities at hp
  exact Nat.and_two_pow_sub_one_of_lt_two_pow (n := 5) (by omega)

/-! ## State -/

/-- The panics of the scheduler, and an access to a structure that was freed. -/
inductive Fault where
  | invalidMessageCount
  | invalidTaskId
  | invalidQueueNumber
  | tooManyMessages
  | nullHandler
  | invalidBackgroundInterruptBitPosition
  | dynamicTaskInvalidParams
  | tooManyDynamicTasks
  | unknownQueue
  | freed
  deriving DecidableEq

/-- `MSG`. -/
structure Msg where
  mi : ℕ
  mv : ℕ
  id : ℕ
  deriving DecidableEq

/-- `TASK`. -/
structure Task where
  id : ℕ
  handler : BitVec 32
  mqueues : List (List Msg)
  prunable : Bool
  /-- Whether it is in the list of its priority. -/
  linked : Bool
  priority_lt : getTaskPriority id < numPriorities

/-- `BGINT`. -/
structure BgInt where
  id : ℕ
  handler : BitVec 32
  raised : BitVec 16
  prunable : Bool
  /-- Whether it is in the list of its priority. -/
  linked : Bool
  priority_lt : getTaskPriority id < numPriorities

/-- What `current_id` points to. -/
inductive Activity where
  | task (a : ℕ)
  | bgInt (a : ℕ)
  deriving DecidableEq

/-- The variables of the scheduler. -/
structure Sched where
  tasks : List Task
  /-- `N_TASKS`. -/
  nTasks : ℕ
  bgInts : List BgInt
  /-- `N_BG_INTS`. -/
  nBgInts : ℕ
  /-- `num_msgs` of each priority. -/
  numMsgs : ℕ → ℕ
  /-- `num_raised` of each priority. -/
  numRaised : ℕ → ℕ
  totalNumMessages : ℕ
  currentPriorityMask : BitVec 32
  nextSchedulerIdentifier : ℕ
  housekeeping : Bool
  current : Option Activity
  /-- The `orig_id` of every call of `check_context_switch` that has not returned. -/
  origIds : List (Option Activity)

/-! ## Counts -/

/-- The checks and decrements for a message that goes. -/
def takeMsg (s : Sched) (priority : ℕ) : Except Fault Sched :=
  if s.totalNumMessages = 0 ∨ s.numMsgs priority = 0 then .error .invalidMessageCount
  else .ok { s with
    totalNumMessages := s.totalNumMessages - 1
    numMsgs := Function.update s.numMsgs priority (s.numMsgs priority - 1) }

/-- The checks and decrements for a raised bit that goes. -/
def takeRaised (s : Sched) (priority : ℕ) : Except Fault Sched :=
  if s.totalNumMessages = 0 ∨ s.numRaised priority = 0 then .error .invalidMessageCount
  else .ok { s with
    totalNumMessages := s.totalNumMessages - 1
    numRaised := Function.update s.numRaised priority (s.numRaised priority - 1) }

/-- The bit of a priority without work goes out of the mask. -/
def clearPriority (s : Sched) (priority : ℕ) : Sched :=
  if s.numMsgs priority = 0 ∧ s.numRaised priority = 0 then
    { s with currentPriorityMask := s.currentPriorityMask &&& ~~~(1#32 <<< priority) }
  else s

/-! ## Lookup -/

/-- `sched_find_task`. -/
def schedFindTask (s : Sched) (taskId : ℕ) : Option (ℕ × Task) :=
  let index := qidToTskid taskId
  let a := index - (taskIdStartLocal + 1)
  match if taskIdStartLocal < index ∧ a < s.nTasks then
      s.tasks[a]?.filter (·.id = taskId) else none with
  | some task => some (a, task)
  | none =>
    if getTaskPriority taskId ≥ numPriorities then none
    else
      (s.tasks.findIdx? fun task => task.linked && task.id = taskId).bind fun a =>
        s.tasks[a]?.map fun task => (a, task)

/-- `sched_find_bgint`. -/
def schedFindBgint (s : Sched) (bgIntId : ℕ) : Option (ℕ × BgInt) :=
  let index := qidToTskid bgIntId
  match if index < s.nBgInts then s.bgInts[index]?.filter (·.id = bgIntId) else none with
  | some bgInt => some (index, bgInt)
  | none =>
    if getTaskPriority bgIntId ≥ numPriorities then none
    else
      (s.bgInts.findIdx? fun bgInt => bgInt.linked && bgInt.id = bgIntId).bind fun a =>
        s.bgInts[a]?.map fun bgInt => (a, bgInt)

/-! ## Messages -/

/-- `get_scheduler_identifier`. -/
def getSchedulerIdentifier (s : Sched) : ℕ × Sched :=
  let next := s.nextSchedulerIdentifier + 1
  (s.nextSchedulerIdentifier,
    { s with nextSchedulerIdentifier := if next = maxSchedId then restartSchedIdBase else next })

/-- `put_allocated_message`, up to the context switch. -/
def putAllocatedMessage (s : Sched) (queueId mi mv : ℕ) : Except Fault Sched :=
  match schedFindTask s (qidToTaskid queueId) with
  | none => .error .invalidTaskId
  | some (a, task) =>
    if qidToQindex queueId ≥ task.mqueues.length then .error .invalidQueueNumber
    else
      let (id, s) := getSchedulerIdentifier s
      if task.prunable then .ok s
      else
        let priority := getTaskPriority queueId
        let mqueues := task.mqueues.modify (qidToQindex queueId) (· ++ [⟨mi, mv, id⟩])
        .ok { s with
          tasks := s.tasks.set a { task with mqueues }
          totalNumMessages := s.totalNumMessages + 1
          numMsgs := Function.update s.numMsgs priority (s.numMsgs priority + 1)
          currentPriorityMask := s.currentPriorityMask ||| 1#32 <<< priority }

/-- `put_message`. A message for the other processor goes to `ipc_send_sched`. -/
def putMessage (s : Sched) (queueId mi mv : ℕ) : Except Fault Sched :=
  if qidIsRemote queueId then .ok s
  else if s.totalNumMessages ≥ maxNumMessages then .error .tooManyMessages
  else putAllocatedMessage s queueId mi mv

/-- `get_message`. The ID of a background interrupt has the flag that the check refuses. -/
def getMessage (s : Sched) (queueId : ℕ) : Except Fault Sched :=
  match s.current with
  | some (.task a) =>
    match s.tasks[a]? with
    | none => .error .freed
    | some task =>
      if s.nTasks ≤ a ∧ !task.linked then .error .freed
      else if qidToTaskid queueId ≠ task.id ∨ idIsBgIntId queueId then .error .invalidTaskId
      else match task.mqueues[qidToQindex queueId]? with
        | none => .error .invalidQueueNumber
        | some [] => .ok s
        | some (_ :: rest) => do
          let s ← takeMsg s (getTaskPriority queueId)
          return { s with
            tasks := s.tasks.set a
              { task with mqueues := task.mqueues.set (qidToQindex queueId) rest } }
  | _ => .error .invalidTaskId

/-- `cancel_message_impl`, with the comparison of either mode. -/
def cancelMessageImpl (s : Sched) (q : ℕ) (cmp : Msg → Bool) : Except Fault Sched :=
  match schedFindTask s (qidToTaskid q) with
  | none => .ok s
  | some (a, task) =>
    match task.mqueues[qidToQindex q]? with
    | none => .error .unknownQueue
    | some queue =>
      if queue.any cmp then do
        let s ← takeMsg s (getTaskPriority q)
        return { s with
          tasks := s.tasks.set a
            { task with mqueues := task.mqueues.set (qidToQindex q) (queue.eraseP cmp) } }
      else .ok s

/-- `cancel_message`. -/
def cancelMessage (s : Sched) (q mid : ℕ) : Except Fault Sched :=
  cancelMessageImpl s q fun msg => mid = msg.id

/-- `cancel_message_cmp`. -/
def cancelMessageCmp (s : Sched) (q : ℕ) (msgCmp : ℕ → ℕ → Bool) : Except Fault Sched :=
  cancelMessageImpl s q fun msg => msgCmp msg.mi msg.mv

/-! ## Background interrupts -/

/-- `unsafe_raise_bg_int`. -/
def unsafeRaiseBgInt (s : Sched) (taskId : ℕ) (bgIntStatus : BitVec 16) (a : ℕ) (bgInt : BgInt) :
    Except Fault Sched :=
  if bgInt.raised &&& bgIntStatus = 0 ∧ !bgInt.prunable then
    if bgInt.handler = 0 then .error .nullHandler
    else
      let priority := getTaskPriority taskId
      .ok { s with
        bgInts := s.bgInts.set a { bgInt with raised := bgInt.raised ||| bgIntStatus }
        totalNumMessages := s.totalNumMessages + 1
        numRaised := Function.update s.numRaised priority (s.numRaised priority + 1)
        currentPriorityMask := s.currentPriorityMask ||| 1#32 <<< priority }
  else .ok s

/-- `raise_static_bg_int`. -/
def raiseStaticBgInt (s : Sched) (index : ℕ) : Except Fault Sched :=
  if s.nBgInts ≤ index then .ok s
  else match s.bgInts[index]? with
    | none => .ok s
    | some bgInt => unsafeRaiseBgInt s bgInt.id (1#16 <<< 0) index bgInt

/-- `raise_bg_int`. -/
def raiseBgInt (s : Sched) (taskId bgIntBitPos : ℕ) : Except Fault Sched :=
  let taskId := taskId ||| bgIntFlagBit
  if s.totalNumMessages ≥ maxNumMessages then .error .tooManyMessages
  else if bgIntBitPos ≥ maxNumOfBgInts then .error .invalidBackgroundInterruptBitPosition
  else match schedFindBgint s taskId with
    | none => .error .invalidTaskId
    | some (a, bgInt) => unsafeRaiseBgInt s taskId (1#16 <<< bgIntBitPos) a bgInt

/-- The least significant bit that is set. -/
def lowestBit (x : BitVec 16) : BitVec 16 := x &&& ~~~(x - 1)

/-- The shifts that find the position of a bit. -/
def bitPosition : ℕ → BitVec 16 → ℕ
  | 0, _ => 0
  | n + 1, x => if x = 1 then 0 else bitPosition n (x >>> 1) + 1

/-- The half of a task that `get_highest_bg_int` takes for `raised` when the current activity is a
task: `raised` has the place in a `BGINT` that the low half of `handler` has in a `TASK`. -/
def Task.raised (task : Task) : BitVec 16 := task.handler.setWidth 16

/-- A store into that half. -/
def Task.setRaised (task : Task) (raised : BitVec 16) : Task :=
  { task with handler := (task.handler &&& 0xFFFF0000#32) ||| raised.setWidth 32 }

/-- `get_highest_bg_int`: the position, if there is one. -/
def getHighestBgInt (s : Sched) (bgIntId : ℕ) : Except Fault (Option ℕ × Sched) :=
  match s.current with
  | none => .error .invalidTaskId
  | some (.bgInt a) =>
    match s.bgInts[a]? with
    | none => .error .freed
    | some bgInt =>
      if s.nBgInts ≤ a ∧ !bgInt.linked then .error .freed
      else if !idsSameOrCoupled bgIntId bgInt.id then .error .invalidTaskId
      else if bgInt.raised = 0 then .ok (none, s)
      else do
        let s ← takeRaised s (getTaskPriority bgIntId)
        let bgIntStatus := lowestBit bgInt.raised
        return (some (bitPosition 16 bgIntStatus), { s with
          bgInts := s.bgInts.set a { bgInt with raised := bgInt.raised &&& ~~~bgIntStatus } })
  | some (.task a) =>
    match s.tasks[a]? with
    | none => .error .freed
    | some task =>
      if s.nTasks ≤ a ∧ !task.linked then .error .freed
      else if !idsSameOrCoupled bgIntId task.id then .error .invalidTaskId
      else if task.raised = 0 then .ok (none, s)
      else do
        let s ← takeRaised s (getTaskPriority bgIntId)
        let bgIntStatus := lowestBit task.raised
        return (some (bitPosition 16 bgIntStatus), { s with
          tasks := s.tasks.set a (task.setRaised (task.raised &&& ~~~bgIntStatus)) })

/-- A round of `cancel_all_bg_ints`: one count goes for a background interrupt that is raised. -/
def cancelBgInt (s : Sched) (a : ℕ) : Except Fault Sched :=
  match s.bgInts[a]? with
  | none => .ok s
  | some bgInt => do
    let s ← if bgInt.raised ≠ 0 then takeRaised s (getTaskPriority bgInt.id) else pure s
    return { s with bgInts := s.bgInts.set a { bgInt with raised := 0 } }

/-- `cancel_all_bg_ints`. -/
def cancelAllBgInts (s : Sched) : Except Fault Sched :=
  (List.range s.nBgInts).foldlM cancelBgInt s

/-! ## Deletion -/

/-- The loop of `flush_bg_ints` over the bits from the lowest on. -/
def flushRaised (priority : ℕ) : ℕ → BitVec 16 → Sched → Except Fault Sched
  | 0, _, s => .ok s
  | n + 1, raised, s =>
    if raised = 0 then .ok s
    else do
      let s ← if raised &&& 1 ≠ 0 then takeRaised s priority else pure s
      flushRaised priority n (raised >>> 1) s

/-- `flush_bg_ints`. -/
def flushBgInts (s : Sched) (a : ℕ) (bgInt : BgInt) : Except Fault Sched := do
  let priority := getTaskPriority bgInt.id
  let s ← flushRaised priority maxNumOfBgInts bgInt.raised s
  return clearPriority { s with bgInts := s.bgInts.set a { bgInt with raised := 0 } } priority

/-- The loop of `flush_task_messages` over one queue. -/
def flushQueue (priority : ℕ) : List Msg → Sched → Except Fault Sched
  | [], s => .ok s
  | _ :: queue, s => do flushQueue priority queue (← takeMsg s priority)

/-- The loop of `flush_task_messages` over the queues. -/
def flushQueues (priority : ℕ) : List (List Msg) → Sched → Except Fault Sched
  | [], s => .ok s
  | queue :: mqueues, s => do flushQueues priority mqueues (← flushQueue priority queue s)

/-- `flush_task_messages`. -/
def flushTaskMessages (s : Sched) (a : ℕ) (task : Task) : Except Fault Sched := do
  let priority := getTaskPriority task.id
  let s ← flushQueues priority task.mqueues s
  return clearPriority { s with
    tasks := s.tasks.set a { task with mqueues := task.mqueues.map fun _ => [] } } priority

/-- A round of `prune_bg_ints`. -/
def pruneBgInt (priority : ℕ) (s : Sched) (a : ℕ) : Except Fault Sched :=
  match s.bgInts[a]? with
  | none => .ok s
  | some bgInt =>
    if bgInt.linked ∧ getTaskPriority bgInt.id = priority ∧ bgInt.prunable then do
      let s ← flushBgInts s a bgInt
      return { s with bgInts := s.bgInts.set a { bgInt with raised := 0, linked := false } }
    else .ok s

/-- A round of `prune_tasks`. -/
def pruneTask (priority : ℕ) (s : Sched) (a : ℕ) : Except Fault Sched :=
  match s.tasks[a]? with
  | none => .ok s
  | some task =>
    if task.linked ∧ getTaskPriority task.id = priority ∧ task.prunable then do
      let s ← flushTaskMessages s a task
      return { s with
        tasks := s.tasks.set a { task with mqueues := task.mqueues.map fun _ => [], linked := false } }
    else .ok s

/-- `prune_bg_ints` and `prune_tasks` of a priority. -/
def prune (s : Sched) (priority : ℕ) : Except Fault Sched := do
  let s ← (List.range s.bgInts.length).foldlM (pruneBgInt priority) s
  (List.range s.tasks.length).foldlM (pruneTask priority) s

/-- `do_housekeeping`. -/
def doHousekeeping (s : Sched) : Except Fault Sched :=
  (List.range numPriorities).foldlM prune { s with housekeeping := false }

/-- The tasks, once one is up for deletion. -/
def markTask (s : Sched) (taskId : ℕ) : List Task :=
  match schedFindTask s taskId with
  | some (a, task) => s.tasks.set a { task with prunable := true }
  | none => s.tasks

/-- The background interrupts, once one is up for deletion. -/
def markBgInt (s : Sched) (bgIntId : ℕ) : List BgInt :=
  match schedFindBgint s bgIntId with
  | some (a, bgInt) => s.bgInts.set a { bgInt with prunable := true }
  | none => s.bgInts

/-- `delete_task`. -/
def deleteTask (s : Sched) (id : ℕ) : Except Fault Sched :=
  if getTaskPriority id ≥ numPriorities then .error .dynamicTaskInvalidParams
  else
    let (taskId, bgIntId) :=
      if idIsBgIntId id then (if isCoupled id then withoutBgIntFlag id else noTask, id)
      else (id, if isCoupled id then id ||| bgIntFlagBit else noTask)
    .ok { s with
      tasks := markTask s taskId
      bgInts := markBgInt s bgIntId
      housekeeping := true }

/-- The first index that no linked task, when there is to be a task, and no linked background
interrupt, when there is to be one, of the priority has. -/
def freeIndex (s : Sched) (priority : ℕ) (isTask isBgInt : Bool) : Option ℕ :=
  (List.range' taskIdStartLocal (maxTaskIndex + 1 - taskIdStartLocal)).find? fun index =>
    !(isTask && s.tasks.any fun task =>
      task.linked && getTaskPriority task.id = priority && qidToTskid task.id = index) &&
    !(isBgInt && s.bgInts.any fun bgInt =>
      bgInt.linked && getTaskPriority bgInt.id = priority && qidToTskid bgInt.id = index)

theorem freeIndex_lt {s : Sched} {priority index : ℕ} {isTask isBgInt : Bool}
    (h : freeIndex s priority isTask isBgInt = some index) : index < 2 ^ 16 := by
  have hmem := List.mem_of_find?_eq_some h
  obtain ⟨i, hi, rfl⟩ := List.mem_range'.mp hmem
  unfold taskIdStartLocal maxTaskIndex at *
  omega

/-- The flag of a coupled pair. -/
def coupledFlag (isTask isBgInt : Bool) : ℕ := if isTask && isBgInt then coupledFlagBit else 0

theorem getTaskPriority_coupledFlag (isTask isBgInt : Bool) :
    getTaskPriority (coupledFlag isTask isBgInt) = 0 := by
  cases isTask <;> cases isBgInt <;> decide

theorem getTaskPriority_coupledFlag_bgInt (isTask isBgInt : Bool) :
    getTaskPriority (coupledFlag isTask isBgInt ||| bgIntFlagBit) = 0 := by
  cases isTask <;> cases isBgInt <;> decide

/-- `create_task`; the memory for it is there. -/
def createTask (s : Sched) (priority numOfQueues : ℕ) (msgHandler bgIntHandler : Option (BitVec 32)) :
    Except Fault Sched :=
  if hp : priority < numPriorities then
    if msgHandler = none ∧ (numOfQueues ≠ 0 ∨ bgIntHandler = none) then
      .error .dynamicTaskInvalidParams
    else match hindex : freeIndex s priority msgHandler.isSome bgIntHandler.isSome with
      | none => .error .tooManyDynamicTasks
      | some index =>
        let flag := coupledFlag msgHandler.isSome bgIntHandler.isSome
        let tasks := msgHandler.toList.map fun handler =>
          { id := setPriorityTaskId priority index flag
            handler
            mqueues := List.replicate numOfQueues []
            prunable := false
            linked := true
            priority_lt := by
              rwa [getTaskPriority_setPriorityTaskId hp (freeIndex_lt hindex)
                (getTaskPriority_coupledFlag _ _)] }
        let bgInts := bgIntHandler.toList.map fun handler =>
          { id := setPriorityTaskId priority index (flag ||| bgIntFlagBit)
            handler
            raised := 0
            prunable := false
            linked := true
            priority_lt := by
              rwa [getTaskPriority_setPriorityTaskId hp (freeIndex_lt hindex)
                (getTaskPriority_coupledFlag_bgInt _ _)] }
        .ok { s with tasks := s.tasks ++ tasks, bgInts := s.bgInts ++ bgInts }
  else .error .dynamicTaskInvalidParams

/-! ## Context switches -/

/-- `service_bg_int`, up to the call of the handler. -/
def serviceBgInt (s : Sched) (a : ℕ) : Except Fault Sched :=
  match s.bgInts[a]? with
  | none => .ok s
  | some bgInt =>
    if !bgInt.linked ∨ bgInt.raised = 0 then .ok s
    else if bgInt.prunable then flushBgInts s a bgInt
    else if bgInt.handler = 0 then .error .nullHandler
    else .ok { s with current := some (.bgInt a) }

/-- `service_task`, up to the call of the handler. -/
def serviceTask (s : Sched) (a : ℕ) : Except Fault Sched :=
  match s.tasks[a]? with
  | none => .ok s
  | some task =>
    if !task.linked then .ok s
    else if task.prunable then flushTaskMessages s a task
    else if task.mqueues.any (· ≠ []) then .ok { s with current := some (.task a) }
    else .ok s

/-- The end of `check_context_switch`. -/
def restore (s : Sched) : Sched :=
  match s.origIds with
  | [] => s
  | origId :: origIds => { s with current := origId, origIds }

/-- What the scheduler is asked to do, or does by itself. -/
inductive Event where
  | putMessage (queueId mi mv : ℕ)
  | getMessage (queueId : ℕ)
  | cancelMessage (q mid : ℕ)
  | cancelMessageCmp (q : ℕ) (msgCmp : ℕ → ℕ → Bool)
  | raiseBgInt (taskId bgIntBitPos : ℕ)
  | raiseStaticBgInt (index : ℕ)
  | getHighestBgInt (bgIntId : ℕ)
  | cancelAllBgInts
  | deleteTask (id : ℕ)
  | createTask (priority numOfQueues : ℕ) (msgHandler bgIntHandler : Option (BitVec 32))
  | housekeeping
  /-- A call of `check_context_switch`. -/
  | checkContextSwitch
  | serviceBgInt (a : ℕ)
  | serviceTask (a : ℕ)
  /-- The end of the work of a priority. -/
  | priorityDone (priority : ℕ)
  /-- The return of `check_context_switch`. -/
  | restore
  | wakeupFromTimers

/-- What happens at an event. -/
def perform (s : Sched) : Event → Except Fault Sched
  | .putMessage queueId mi mv => putMessage s queueId mi mv
  | .getMessage queueId => getMessage s queueId
  | .cancelMessage q mid => cancelMessage s q mid
  | .cancelMessageCmp q msgCmp => cancelMessageCmp s q msgCmp
  | .raiseBgInt taskId bgIntBitPos => raiseBgInt s taskId bgIntBitPos
  | .raiseStaticBgInt index => raiseStaticBgInt s index
  | .getHighestBgInt bgIntId => (getHighestBgInt s bgIntId).map Prod.snd
  | .cancelAllBgInts => cancelAllBgInts s
  | .deleteTask id => deleteTask s id
  | .createTask priority numOfQueues msgHandler bgIntHandler =>
    createTask s priority numOfQueues msgHandler bgIntHandler
  | .housekeeping => if s.housekeeping then doHousekeeping s else .ok s
  | .checkContextSwitch => .ok { s with origIds := s.current :: s.origIds }
  | .serviceBgInt a => serviceBgInt s a
  | .serviceTask a => serviceTask s a
  | .priorityDone priority => .ok (clearPriority s priority)
  | .restore => .ok (restore s)
  | .wakeupFromTimers =>
    .ok { s with currentPriorityMask := s.currentPriorityMask ||| 1#32 <<< timedEventPriority }

/-- The scheduler, and the fault that ended it. -/
structure System where
  sched : Sched
  fault : Option Fault

/-- An event; there are no more after a fault. -/
def step (s : System) (event : Event) : Option System :=
  if s.fault ≠ none then none
  else match perform s.sched event with
    | .ok sched => some { s with sched }
    | .error fault => some { s with fault := some fault }

/-! ## Start -/

end Mh40.SchedOxygen
