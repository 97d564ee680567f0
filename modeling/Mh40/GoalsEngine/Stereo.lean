import Mh40.GoalsEngine.Locks

/-!
# The stereo topology's decision handler and the count of waiting decisions

`stereo_topology_goals.c` over the goals engine: the goal table, the handler
`StereoTopology_HandleGoalDecision`, which gets the decisions of the rules engine and those
delivered from `pending_goal_queue_task`, and the confirmations of the procedures.

The handler passes a decision on only in the topology state the goal belongs to. A decision
delivered from the queue in another state has left the queue, but `GoalsEngine_ActivateGoal` is not
called and nothing takes it off `queue_msg_count` (`dropped_delivery_miscounts`).

* **`queue_accounting`**: in a run where no delivered decision is dropped and at most 255 decisions
  wait at any time, the count is the number of waiting decisions, it is not 0 when one is delivered,
  and each decision waits on the lock of its goal's entry.
-/

namespace Mh40.GoalsEngine

open Lib Option

/-! ## `stereo_topology_goals.c` -/

/-- `stereo_topology_sm_t`. -/
inductive TopologyState where
  | stopped
  | stopping
  | started
  | starting
  deriving Repr, DecidableEq

/-! `stereo_topology_goal_id_t`. -/

abbrev goalConnectableHandset : GoalId := 1
abbrev goalAllowHandsetConnect : GoalId := 2
abbrev goalConnectHandset : GoalId := 3
abbrev goalDisconnectHandset : GoalId := 4
abbrev goalAllowLeConnection : GoalId := 5
abbrev goalSystemStop : GoalId := 6
abbrev goalDisconnectLruHandset : GoalId := 7

/-- `stereogoals`. -/
def stereoGoals : GoalTable where
  goals
    | 1 => ⟨.concurrent, goalIdNone, [goalAllowHandsetConnect, goalAllowLeConnection]⟩
    | 2 => ⟨.concurrent, goalIdNone, [goalConnectableHandset, goalAllowLeConnection]⟩
    | 3 => ⟨.wait, goalDisconnectHandset, []⟩
    | 4 => ⟨.wait, goalConnectHandset, []⟩
    | 5 => ⟨.concurrent, goalIdNone, [goalConnectableHandset, goalAllowHandsetConnect]⟩
    | 6 => ⟨.cancel, goalIdNone, []⟩
    | 7 => ⟨.wait, goalConnectHandset, []⟩
    | _ => ⟨.wait, goalIdNone, []⟩
  goalsCount := 8
  validated := by decide

/-! The decision messages of `stereo_topology_rules.h`, from `STEREOTOP_INTERNAL_RULE_MSG_BASE`. -/

abbrev ruleConnectableHandset : MessageId := 0x100
abbrev ruleConnectHandset : MessageId := 0x101
abbrev ruleAllowHandsetConnect : MessageId := 0x102
abbrev ruleDisconnectHandset : MessageId := 0x103
abbrev ruleAllowLeConnection : MessageId := 0x104
abbrev ruleSystemStop : MessageId := 0x105
abbrev ruleDisconnectLruHandset : MessageId := 0x106

/-- The size of the payload types, each of one `bool`. -/
def sizeofBool : ℕ := 4

/-- The topology: its goal set and its state. -/
structure Topology where
  engine : Engine
  state : TopologyState

/-- `StereoTopology_GoalsInit`, in the state of `StereoTopology_Init`. -/
def initTopology : Topology := ⟨createGoalSet, .stopped⟩

/-- The switch of `StereoTopology_HandleGoalDecision`: the call of `GoalsEngine_ActivateGoal` that
it makes in this state, if any. -/
def goalDecision (state : TopologyState) (id : MessageId) (message : Option (List UInt8)) :
    Option Decision :=
  if id = ruleConnectableHandset then
    if state = .starting then some ⟨goalConnectableHandset, id, message, sizeofBool⟩ else none
  else if id = ruleConnectHandset then
    if state = .started then some ⟨goalConnectHandset, id, message, sizeofBool⟩ else none
  else if id = ruleAllowHandsetConnect then
    if state = .starting then some ⟨goalAllowHandsetConnect, id, message, sizeofBool⟩ else none
  else if id = ruleDisconnectHandset then
    if state = .started then some ⟨goalDisconnectHandset, id, message, 0⟩ else none
  else if id = ruleDisconnectLruHandset then
    if state = .started then some ⟨goalDisconnectLruHandset, id, message, 0⟩ else none
  else if id = ruleAllowLeConnection then
    if state = .starting then some ⟨goalAllowLeConnection, id, message, sizeofBool⟩ else none
  else if id = ruleSystemStop then some ⟨goalSystemStop, id, none, 0⟩
  else none

/-- The state after a goal is complete, in `stereoTopology_GoalProcComplete`. -/
def stateAfterComplete (state : TopologyState) (goal : GoalId) : TopologyState :=
  if state = .starting ∧ goal = goalAllowHandsetConnect then .started else state

/-- The call has started the goal. -/
def startedGoal (before after : Engine) (goal : GoalId) : Bool :=
  (after.calls.drop before.calls.length).any fun
    | .start g _ _ => g == goal
    | .cancel _ => false

/-- `StereoTopology_HandleGoalDecision`. A procedure that completes while it is started reports that
to `stereoTopology_GoalProcComplete` too. -/
def handleGoalDecision (o : Procedures) (t : Topology) (isNewGoal : Bool) (id : MessageId)
    (message : Option (List UInt8)) : Option Topology :=
  match goalDecision t.state id message with
  | none => some t
  | some d => (activateGoal stereoGoals o t.engine isNewGoal d).map fun e =>
    { engine := e
      state := if o.startCompletes && startedGoal t.engine e d.goal then
          stateAfterComplete t.state d.goal
        else t.state }

/-- What happens to the topology: a decision of the rules engine, the delivery of the `k`-th
decision waiting on `pending_goal_queue_task`, a change of the topology state, and a procedure that
reports its completion or its cancellation. -/
inductive StereoLabel where
  | decide (id : MessageId) (message : Option (List UInt8)) (o : Procedures)
  | deliver (k : ℕ) (o : Procedures)
  | setState (state : TopologyState)
  | procComplete (goal : GoalId)
  | procCancelCfm (goal : GoalId)

def stereoStep (t : Topology) : StereoLabel → Option Topology
  | .decide id message o => handleGoalDecision o t true id message
  | .deliver k o =>
    match t.engine.queueTask[k]? with
    | none => none
    | some m =>
      if (t.engine.pendingGoals m.slot).lock = 0 then
        handleGoalDecision o { t with engine := takeMessage t.engine k } false m.ruleId m.goalData
      else none
  | .setState state => some { t with state }
  | .procComplete goal => some ⟨clearGoal t.engine goal, stateAfterComplete t.state goal⟩
  | .procCancelCfm goal => some { t with engine := clearGoal t.engine goal }

/-! ## The count -/

/-- The decision message of a goal. -/
def stereoRuleOf : GoalId → MessageId
  | 1 => ruleConnectableHandset
  | 2 => ruleAllowHandsetConnect
  | 3 => ruleConnectHandset
  | 4 => ruleDisconnectHandset
  | 5 => ruleAllowLeConnection
  | 6 => ruleSystemStop
  | 7 => ruleDisconnectLruHandset
  | _ => 0

/-- At most 255 decisions are waiting, and a delivered one is not dropped: the topology is in the
state its goal belongs to. -/
def NotDropped (t : Topology) (l : StereoLabel) : Prop :=
  t.engine.queueTask.length ≤ 255 ∧
    match l with
    | .deliver k _ => ∀ m ∈ t.engine.queueTask[k]?,
        (goalDecision t.state m.ruleId m.goalData).isSome = true
    | _ => True

instance (t : Topology) : ∀ l, Decidable (NotDropped t l)
  | .deliver k _ => inferInstanceAs (Decidable (_ ∧ ∀ m ∈ t.engine.queueTask[k]?, _ = true))
  | .decide _ _ _ | .setState _ | .procComplete _ | .procCancelCfm _ =>
    inferInstanceAs (Decidable (_ ∧ True))

theorem stereoRuleOf_ne_zero (g : GoalId) (hg : g ≠ 0) (hlt : g < stereoGoals.goalsCount) :
    stereoRuleOf g ≠ 0 := by
  have : ∀ g < 8, g ≠ 0 → stereoRuleOf g ≠ 0 := by decide
  exact this g hlt hg

/-- The handler takes a message to the goal whose decision message it is. -/
theorem goalDecision_goal {state : TopologyState} {id : MessageId}
    {message : Option (List UInt8)} {d : Decision} (h : goalDecision state id message = some d) :
    d.goal ≠ 0 ∧ d.goal < stereoGoals.goalsCount ∧ d.ruleId = id ∧ id = stereoRuleOf d.goal := by
  unfold goalDecision at h
  repeat' split at h
  all_goals cases h
  all_goals
    subst_vars
    exact ⟨Nat.succ_ne_zero _, Nat.le_of_ble_eq_true rfl, rfl, rfl⟩

theorem wellQueued_handleGoalDecision {o : Procedures} {t t' : Topology} {isNewGoal : Bool}
    {id : MessageId} {message : Option (List UInt8)}
    (h : WellQueued stereoGoals stereoRuleOf (countDecision t.engine isNewGoal))
    (hd : isNewGoal = true ∨ (goalDecision t.state id message).isSome = true)
    (hs : handleGoalDecision o t isNewGoal id message = some t')
    (hlen : t'.engine.queueTask.length ≤ 255) :
    WellQueued stereoGoals stereoRuleOf t'.engine := by
  unfold handleGoalDecision at hs
  split at hs
  · rename_i hnone
    cases hs
    rcases hd with rfl | hd
    · exact h
    · rw [hnone] at hd
      cases hd
  · rename_i d hsome
    obtain ⟨e, he, rfl⟩ := map_eq_some_iff.mp hs
    obtain ⟨hg, hlt, hrule, hid⟩ := goalDecision_goal hsome
    exact wellQueued_activateGoal stereoRuleOf_ne_zero h hg hlt (hrule.trans hid) he hlen

theorem wellQueued_stereoStep (t : Topology) (l : StereoLabel) (t' : Topology)
    (h : t.engine.queueTask.length ≤ 255 → WellQueued stereoGoals stereoRuleOf t.engine)
    (hl : NotDropped t l) (hs : stereoStep t l = some t')
    (hlen : t'.engine.queueTask.length ≤ 255) :
    WellQueued stereoGoals stereoRuleOf t'.engine := by
  have hw := h hl.1
  cases l with
  | decide id message o =>
    have hw1 : WellQueued stereoGoals stereoRuleOf (countDecision t.engine true) := hw
    exact wellQueued_handleGoalDecision hw1 (.inl rfl) hs hlen
  | deliver k o =>
    simp only [stereoStep] at hs
    split at hs
    · cases hs
    · rename_i m hm
      split at hs
      · have hw1 : WellQueued stereoGoals stereoRuleOf
            (countDecision (takeMessage t.engine k) false) := wellQueued_takeMessage hw hm
        exact @wellQueued_handleGoalDecision o ⟨takeMessage t.engine k, t.state⟩ t' false _ _ hw1
          (.inr (hl.2 m (mem_def.mpr hm))) hs hlen
      · cases hs
  | setState state =>
    cases hs
    exact hw
  | procComplete goal | procCancelCfm goal =>
    cases hs
    exact wellQueued_clearGoal hw

/-- **The count of waiting decisions is right**, in a run where no delivered decision is dropped and
at most 255 decisions wait at any time: it is their number, it is not 0 before a delivery and right
after it, and each decision waits on the lock of the entry of its goal. -/
theorem queue_accounting {ls : List StereoLabel} {t : Topology}
    (hm : Meets stereoStep NotDropped initTopology ls)
    (hr : run stereoStep initTopology ls = some t) (hlen : t.engine.queueTask.length ≤ 255) :
    t.engine.queueMsgCount.toNat = t.engine.queueTask.length ∧
      (∀ k < t.engine.queueTask.length, t.engine.queueMsgCount ≠ 0 ∧
        (t.engine.queueMsgCount - 1).toNat = (takeMessage t.engine k).queueTask.length) ∧
      ∀ m ∈ t.engine.queueTask, (t.engine.pendingGoals m.slot).id ≠ 0 ∧
        (t.engine.pendingGoals m.slot).id < stereoGoals.goalsCount ∧
        m.ruleId = stereoRuleOf (t.engine.pendingGoals m.slot).id := by
  have hw : WellQueued stereoGoals stereoRuleOf t.engine :=
    @invariant_of_meets _ _ _ _
      (fun t => t.engine.queueTask.length ≤ 255 → WellQueued stereoGoals stereoRuleOf t.engine)
      wellQueued_stereoStep _ _ _ (fun _ => wellQueued_create) hm hr hlen
  refine ⟨hw.counted, fun k hk => ⟨?_, ?_⟩, fun m hm => ?_⟩
  · intro hz
    rw [queueTask_eq_nil hw.counted hz] at hk
    exact absurd hk (Nat.not_lt_zero k)
  · exact (wellQueued_takeMessage hw (List.getElem?_eq_getElem hk)).counted
  · obtain ⟨hid, hrule⟩ := hw.slots.sent m hm
    exact ⟨hid, hw.slots.bound _, hrule.trans (hw.slots.rule _ hid)⟩

/-- A disconnection is running, and a connection has been decided and waits for it. -/
def connectWaits : List StereoLabel :=
  [.setState .started, .decide ruleDisconnectHandset none ⟨false, fun _ => false⟩,
    .decide ruleConnectHandset (some [0, 0, 0, 0]) ⟨false, fun _ => false⟩]

/-- The topology stops before the connection is delivered: its decision is dropped, no decision is
waiting and the count is 1. -/
theorem dropped_delivery_miscounts :
    ∃ t, run stereoStep initTopology (connectWaits ++ [.setState .stopping,
        .procComplete goalDisconnectHandset, .deliver 0 ⟨false, fun _ => false⟩]) = some t ∧
      t.engine.queueTask = [] ∧ t.engine.queueMsgCount = 1 :=
  ⟨_, rfl, rfl, rfl⟩

/-- The connection waits on the entry of its goal. -/
theorem queue_accounting_connect :
    ∃ t, run stereoStep initTopology connectWaits = some t ∧ t.engine.queueMsgCount.toNat = 1 ∧
      (t.engine.pendingGoals 0).id = goalConnectHandset :=
  ⟨_, rfl, (@queue_accounting connectWaits _ (by decide) rfl (by decide)).1, rfl⟩

end Mh40.GoalsEngine
