import Mathlib.Data.List.FinRange

/-!
# The goals engine

The functions of `goals_engine.c` over one goal set: `GoalsEngine_ActivateGoal` with everything it
calls, and `GoalsEngine_ClearGoal`.

* `Engine` is the goal set together with what lies outside it: the decisions waiting on
  `queue_task` and the log of the procedures started and cancelled. A waiting decision was sent
  with `MessageSendConditionally` on the lock word of a pending entry, so it carries the index of
  that entry and is delivered once the lock is zero.
* Procedures are outside the engine. `Procedures` says what they do inside one call: whether the
  one that is started reports its completion before its start function returns, and which ones
  confirm a cancellation before their cancel function returns. A procedure reports its own goal.
* `none` is `Panic`: `goalsEngine_QueueGoal` without a free entry.
-/

namespace Mh40.GoalsEngine

/-- `goal_mask`. -/
abbrev GoalMask := BitVec 64

/-- `goal_id`: an index into the goal table, 0 for none. -/
abbrev GoalId := ℕ

abbrev MessageId := UInt16

abbrev goalIdNone : GoalId := 0

/-- `GOAL_ID_MAX`. -/
def goalIdMax : GoalId := 63

/-- `INITIAL_GOAL_QUEUE_COUNT`, the number of pending entries. -/
abbrev initialGoalQueueCount : ℕ := 8

/-- `goal_contention_t`. -/
inductive GoalContention where
  | wait
  | cancel
  | concurrent
  deriving Repr, DecidableEq

/-- `goal_entry_t`: what the engine reads of it. `concurrentGoals` is the list before its
terminator, empty for a NULL pointer. -/
structure GoalEntry where
  contention : GoalContention
  exclusiveGoal : GoalId
  concurrentGoals : List GoalId
  deriving Repr, DecidableEq

/-- The goal table, with the count that `goalsEngine_ValidateInitParams` accepts. -/
structure GoalTable where
  goals : GoalId → GoalEntry
  goalsCount : ℕ
  validated : 1 ≤ goalsCount ∧ goalsCount ≤ goalIdMax

/-- `pending_goal_entry_t`. -/
structure PendingGoalEntry where
  id : GoalId
  ruleId : MessageId
  lock : UInt16
  lockMask : GoalMask
  deriving Repr, DecidableEq

/-- `goalsEngine_ClearGoalEntry`. -/
def clearedEntry : PendingGoalEntry := ⟨goalIdNone, 0, 0, 0⟩

/-- A decision on `queue_task`, conditional on the lock of the entry `slot`. -/
structure QueuedDecision where
  ruleId : MessageId
  goalData : Option (List UInt8)
  slot : Fin initialGoalQueueCount
  deriving Repr, DecidableEq

/-- A call into a procedure. `active` records the active goals at a start. -/
inductive ProcedureCall where
  | start (goal : GoalId) (goalData : Option (List UInt8)) (active : GoalMask)
  | cancel (goal : GoalId)
  deriving Repr, DecidableEq

/-- `goal_set_tag` and `pending_goals_t`, the messages on `queue_task` and the calls made. -/
structure Engine where
  activeGoalsMask : GoalMask
  queueMsgCount : UInt8
  queueMsgCountMax : UInt8
  pendingGoals : Fin initialGoalQueueCount → PendingGoalEntry
  queueTask : List QueuedDecision
  calls : List ProcedureCall

/-- What the procedures do inside one call of the engine. -/
structure Procedures where
  startCompletes : Bool
  cancelConfirms : GoalId → Bool

/-- `GoalsEngine_CreateGoalSet`. -/
def createGoalSet : Engine where
  activeGoalsMask := 0
  queueMsgCount := 0
  queueMsgCountMax := 0
  pendingGoals := fun _ => clearedEntry
  queueTask := []
  calls := []

/-! ## Masks and locks -/

/-- `GOAL_MASK`. -/
def goalMask (goal : GoalId) : GoalMask := 1#64 <<< goal

/-- `REMOVE_GOAL_FROM_MASK`. -/
def removeGoalFromMask (mask : GoalMask) (goal : GoalId) : GoalMask := mask &&& ~~~goalMask goal

/-- `SET_LOCK_FROM_MASK`, with a new lock mask. -/
def PendingGoalEntry.setLock (entry : PendingGoalEntry) (lockMask : GoalMask) : PendingGoalEntry :=
  { entry with lockMask, lock := if lockMask ≠ 0 then 1 else 0 }

/-- `GoalsEngine_IsGoalActive`. -/
def isGoalActive (e : Engine) (goal : GoalId) : Bool :=
  e.activeGoalsMask &&& goalMask goal == goalMask goal

variable (T : GoalTable)

/-- `goalsEngine_GoalCancelsActive`. -/
def goalCancelsActive (goal : GoalId) : Bool := (T.goals goal).contention == .cancel

/-- `goalsEngine_GoalRunsConcurrently`. -/
def goalRunsConcurrently (goal : GoalId) : Bool := (T.goals goal).contention == .concurrent

/-- `goalsEngine_GetConcurrentGoalsMask`. -/
def getConcurrentGoalsMask (goal : GoalId) : GoalMask :=
  (T.goals goal).concurrentGoals.foldl (fun mask g => mask ||| goalMask g) 0

/-! ## The queue -/

/-- `MessagePendingFirst` on `queue_task`. -/
def messagePending (e : Engine) (ruleId : MessageId) : Bool :=
  e.queueTask.any fun m => m.ruleId == ruleId

/-- `goalsEngine_ResetPendingQueueIfEmpty`. -/
def resetPendingQueueIfEmpty (e : Engine) : Engine :=
  if e.queueMsgCount = 0 then { e with pendingGoals := fun _ => clearedEntry } else e

/-- `goalsEngine_ClearPendingGoalsQueue`. -/
def clearPendingGoalsQueue (e : Engine) : Engine :=
  resetPendingQueueIfEmpty { e with queueTask := [], queueMsgCount := 0 }

/-- The entry of a goal already queued, else the first unused one. -/
def findSlot (e : Engine) (newGoal : GoalId) : Option (Fin initialGoalQueueCount) :=
  let slots := List.finRange initialGoalQueueCount
  (slots.find? fun i => (e.pendingGoals i).id == newGoal).or
    (slots.find? fun i => (e.pendingGoals i).id == goalIdNone)

/-- `goalsEngine_QueueGoal`. -/
def queueGoal (e : Engine) (ruleId : MessageId) (goalData : Option (List UInt8))
    (goalDataSize : ℕ) (waitMask : GoalMask) (newGoal : GoalId) : Option Engine :=
  (findSlot e newGoal).map fun slot =>
    let count := e.queueMsgCount + 1
    { e with
      pendingGoals := fun i => if i = slot then
          PendingGoalEntry.setLock { e.pendingGoals i with id := newGoal, ruleId } waitMask
        else e.pendingGoals i
      queueTask := e.queueTask ++ [⟨ruleId, goalData.map (List.take goalDataSize), slot⟩]
      queueMsgCount := count
      queueMsgCountMax := if e.queueMsgCountMax < count then count else e.queueMsgCountMax }

/-- `goalsEngine_DequeGoal`. -/
def dequeGoal (e : Engine) (goal : GoalId) : Engine :=
  match (List.finRange initialGoalQueueCount).find? fun i => (e.pendingGoals i).id == goal with
  | none => e
  | some slot =>
    let ruleId := (e.pendingGoals slot).ruleId
    { e with
      pendingGoals := fun i => if i = slot then clearedEntry else e.pendingGoals i
      -- MessageCancelAll
      queueTask := e.queueTask.filter fun m => m.ruleId != ruleId
      queueMsgCount := e.queueMsgCount -
        UInt8.ofNat (e.queueTask.countP fun m => m.ruleId == ruleId) }

/-- `goalsEngine_UpdateQueueMasks`, on one entry. -/
def updateEntry (e : Engine) (entry : PendingGoalEntry) : PendingGoalEntry :=
  if !messagePending e entry.ruleId then clearedEntry
  else if entry.ruleId ≠ 0 then
    let waitMask := if (T.goals entry.id).contention = .concurrent then
        e.activeGoalsMask &&& ~~~getConcurrentGoalsMask T entry.id
      else e.activeGoalsMask
    if waitMask ≠ entry.lockMask then entry.setLock waitMask else entry
  else entry

/-- `goalsEngine_UpdateQueueMasks`. -/
def updateQueueMasks (e : Engine) : Engine :=
  if e.queueMsgCount ≠ 0 then { e with pendingGoals := fun i => updateEntry T e (e.pendingGoals i) }
  else e

/-! ## Clearing, cancelling and starting goals -/

/-- `GoalsEngine_ClearGoal`. -/
def clearGoal (e : Engine) (goal : GoalId) : Engine :=
  { e with
    activeGoalsMask := removeGoalFromMask e.activeGoalsMask goal
    pendingGoals := fun i =>
      let entry := e.pendingGoals i
      if entry.id ≠ goalIdNone then entry.setLock (removeGoalFromMask entry.lockMask goal)
      else entry }

/-- `goalsEngine_CancelGoal`, of a procedure or of a script. -/
def cancelGoal (o : Procedures) (e : Engine) (goal : GoalId) : Engine :=
  let e := { e with calls := e.calls ++ [.cancel goal] }
  if o.cancelConfirms goal then clearGoal e goal else e

/-- `goalsEngine_StartGoal`. -/
def startGoal (o : Procedures) (e : Engine) (goal : GoalId) (goalData : Option (List UInt8)) :
    Engine :=
  let e := { e with
    activeGoalsMask := e.activeGoalsMask ||| goalMask goal
    calls := e.calls ++ [.start goal goalData e.activeGoalsMask] }
  updateQueueMasks T (if o.startCompletes then clearGoal e goal else e)

/-- `goalsEngine_GoalCanRunNow`. -/
def goalCanRunNow (e : Engine) (isNewGoal : Bool) : Bool :=
  e.activeGoalsMask == 0 && (e.queueMsgCount == 0 || !isNewGoal)

/-- `goalsEngine_HandleExclusiveGoals`, on the engine and the wait mask. -/
def handleExclusiveGoals (o : Procedures) (e : Engine) (newGoal : GoalId) (waitMask : GoalMask) :
    Engine × GoalMask :=
  let exclusiveGoal := (T.goals newGoal).exclusiveGoal
  if exclusiveGoal ≠ goalIdNone ∧ exclusiveGoal < T.goalsCount ∧ isGoalActive e exclusiveGoal then
    let e := cancelGoal o (dequeGoal e exclusiveGoal) exclusiveGoal
    (e, if isGoalActive e exclusiveGoal then waitMask else removeGoalFromMask waitMask exclusiveGoal)
  else (e, waitMask)

/-- The goals of a mask in the order in which `goalsEngine_FirstGoalFromMask` takes them out. -/
def goalsOfMask (mask : GoalMask) : List GoalId :=
  (List.range 64).filter fun goal => mask.getLsbD goal

/-- The cancellations of `goalsEngine_CheckIfNewGoalCancelsActiveGoals`. -/
def cancelActiveGoals (o : Procedures) (e : Engine) : Engine :=
  (goalsOfMask e.activeGoalsMask).foldl (cancelGoal o) (clearPendingGoalsQueue e)

/-- `goalsEngine_HandleDuplicateCancellationGoal`: the goal cancels and is running already. -/
def isDuplicateCancellationGoal (e : Engine) (newGoal : GoalId) : Bool :=
  goalCancelsActive T newGoal && isGoalActive e newGoal

/-- `goalsEngine_HandleConcurrentGoals`, on the wait mask. -/
def handleConcurrentGoals (newGoal : GoalId) (waitMask : GoalMask) : GoalMask :=
  if goalRunsConcurrently T newGoal then waitMask &&& ~~~getConcurrentGoalsMask T newGoal
  else waitMask

/-- A decision as `GoalsEngine_ActivateGoal` gets it. -/
structure Decision where
  goal : GoalId
  ruleId : MessageId
  goalData : Option (List UInt8)
  goalDataSize : ℕ
  deriving Repr, DecidableEq

/-- Start the goal of a decision, or queue it on the wait mask. -/
def startOrQueue (o : Procedures) (e : Engine) (d : Decision) (canStart : Bool)
    (waitMask : GoalMask) : Option Engine :=
  if canStart then some (startGoal T o e d.goal d.goalData)
  else queueGoal e d.ruleId d.goalData d.goalDataSize waitMask d.goal

/-- The part of `GoalsEngine_ActivateGoal` that starts or queues the goal. -/
def admitGoal (o : Procedures) (e : Engine) (isNewGoal : Bool) (d : Decision) : Option Engine :=
  if goalCanRunNow e isNewGoal then some (startGoal T o e d.goal d.goalData)
  else if goalCancelsActive T d.goal then
    let e := cancelActiveGoals o e
    startOrQueue T o e d (e.activeGoalsMask == 0 && goalCanRunNow e isNewGoal) e.activeGoalsMask
  else
    let waitMask := handleConcurrentGoals T d.goal e.activeGoalsMask
    let r := handleExclusiveGoals T o e d.goal waitMask
    startOrQueue T o r.1 d
      (goalRunsConcurrently T d.goal && r.2 == 0 || goalCanRunNow r.1 isNewGoal) r.2

/-- The message count when a decision has come in, from `queue_task` or not. -/
def countDecision (e : Engine) (isNewGoal : Bool) : Engine :=
  if isNewGoal then e else { e with queueMsgCount := e.queueMsgCount - 1 }

/-- `GoalsEngine_ActivateGoal`. `isNewGoal` says that the decision does not come from
`queue_task`. -/
def activateGoal (o : Procedures) (e : Engine) (isNewGoal : Bool) (d : Decision) : Option Engine :=
  if d.goal = goalIdNone then some e
  else if isDuplicateCancellationGoal T (countDecision e isNewGoal) d.goal then
    some (clearPendingGoalsQueue (countDecision e isNewGoal))
  else (admitGoal T o (countDecision e isNewGoal) isNewGoal d).map resetPendingQueueIfEmpty

/-! ## The engine and its queue as a machine -/

/-- What happens to the engine: a new decision, the delivery of the `k`-th decision waiting on
`queue_task` to the handler, which activates a goal with it, or a goal reported complete or
cancelled. -/
inductive Label where
  | decide (d : Decision) (o : Procedures)
  | deliver (k : ℕ) (goal : GoalId) (goalDataSize : ℕ) (o : Procedures)
  | clear (goal : GoalId)

/-- The message leaves `queue_task`. -/
def takeMessage (e : Engine) (k : ℕ) : Engine := { e with queueTask := e.queueTask.eraseIdx k }

/-- One step. A waiting decision is delivered only while its lock is zero, and a goal is an index
of the table. -/
def step (e : Engine) : Label → Option Engine
  | .decide d o => if d.goal < T.goalsCount then activateGoal T o e true d else none
  | .deliver k goal goalDataSize o =>
    match e.queueTask[k]? with
    | none => none
    | some m =>
      if (e.pendingGoals m.slot).lock = 0 ∧ goal < T.goalsCount then
        activateGoal T o (takeMessage e k) false ⟨goal, m.ruleId, m.goalData, goalDataSize⟩
      else none
  | .clear goal => if goal < T.goalsCount then some (clearGoal e goal) else none

end Mh40.GoalsEngine
