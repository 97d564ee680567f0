import Mathlib.Data.List.FinRange

/-!
# The rules engine

The functions of `rules_engine.c` over one rule set: `RulesEngine_SetEvent`,
`RulesEngine_ResetEvent`, `RulesEngine_SetRuleWithEventComplete` and the loop of
`RulesEngine_RunRules` that the first and the last of them start.

* The table is `rules : Fin n → RuleEntry`; `RuleSet` is what `rule_set_tag` holds beside it.
* A rule function is outside the engine. `RuleOutcome` is what one call of it does: the action it
  returns and the parameters it hands to `RulesEngine_CopyRunParams` before that.
* `none` is `Panic`.
-/

namespace Mh40.RulesEngine

/-- `rule_events_t`. -/
abbrev RuleEvents := BitVec 64

abbrev MessageId := UInt16

/-- `rule_action_t`. -/
inductive RuleAction where
  | run
  | complete
  | ignore
  | defer
  | runWithParam
  deriving Repr, DecidableEq

/-- `rule_flags_t`. -/
inductive RuleFlags where
  | noFlags
  | alwaysEvaluate
  | progressMatters
  deriving Repr, DecidableEq

/-- `rule_status_t`. -/
inductive RuleStatus where
  | notDone
  | ignored
  | inProgress
  | complete
  | deferred
  deriving Repr, DecidableEq

/-- `rule_entry_t`, less the rule function. -/
structure RuleEntry where
  events : RuleEvents
  flags : RuleFlags
  message : MessageId
  deriving Repr, DecidableEq

/-- One call of a rule function. -/
structure RuleOutcome where
  action : RuleAction
  param : Option (List UInt8)
  deriving Repr, DecidableEq

/-- `rule_set_tag`: the active events, the state of each rule and the message data waiting. -/
structure RuleSet (n : ℕ) where
  events : RuleEvents
  rulesState : Fin n → RuleStatus
  ruleMessageData : Option (List UInt8)

/-- A message of the engine: to `event_task`, or `nop_message_id` to every task of `nop_tasks`. -/
inductive Output where
  | message (id : MessageId) (data : Option (List UInt8))
  | nop
  deriving Repr, DecidableEq

variable {n : ℕ} (rules : Fin n → RuleEntry)

/-- `RulesEngine_CreateRuleSet`. -/
def createRuleSet : RuleSet n where
  events := 0
  rulesState := fun _ => .notDone
  ruleMessageData := none

/-- `RulesEngine_SetRuleStatus`. -/
def setRuleStatus (rulesState : Fin n → RuleStatus) (i : Fin n) (newStatus : RuleStatus) :
    Option (Fin n → RuleStatus) :=
  if (rules i).flags = .alwaysEvaluate then none
  else some (Function.update rulesState i newStatus)

/-- `RulesEngine_ResetEvent`. The guard of its loop keeps `RulesEngine_SetRuleStatus` from
panicking. -/
def resetEvent (rs : RuleSet n) (event : RuleEvents) : RuleSet n :=
  { rs with
    events := rs.events &&& ~~~event
    rulesState := (List.finRange n).foldl (fun rulesState i =>
      Function.update rulesState i
        (if (rules i).events &&& event ≠ 0 ∧ (rules i).flags ≠ .alwaysEvaluate then .notDone
        else rulesState i)) rs.rulesState }

/-! ## `RulesEngine_UpdateRuleStatus` -/

/-- The arguments that choose the rules `RulesEngine_UpdateRuleStatus` completes. -/
structure Selector where
  message : MessageId
  status : RuleStatus
  event : RuleEvents
  deriving Repr, DecidableEq

/-- The accumulators of the first loop. -/
structure Marking (n : ℕ) where
  rulesState : Fin n → RuleStatus
  eventMask : RuleEvents
  didSetStatus : Bool

/-- The test of the first loop. -/
def Selector.Selects (sel : Selector) (rulesState : Fin n → RuleStatus) (i : Fin n) : Prop :=
  (rules i).message = sel.message ∧ rulesState i = sel.status ∧ (rules i).events &&& sel.event ≠ 0

instance (sel : Selector) (rulesState : Fin n → RuleStatus) (i : Fin n) :
    Decidable (sel.Selects rules rulesState i) := by
  unfold Selector.Selects
  infer_instance

/-- One iteration of the first loop. -/
def markRule (sel : Selector) (newStatus : RuleStatus) (m : Marking n) (i : Fin n) :
    Option (Marking n) :=
  if sel.Selects rules m.rulesState i then
    (setRuleStatus rules m.rulesState i newStatus).map fun rulesState =>
      { rulesState, eventMask := m.eventMask ||| (rules i).events, didSetStatus := true }
  else some m

/-- The first loop: set the status of the selected rules and collect their events. -/
def markRules (sel : Selector) (newStatus : RuleStatus) (rulesState : Fin n → RuleStatus) :
    Option (Marking n) :=
  (List.finRange n).foldlM (markRule rules sel newStatus)
    { rulesState, eventMask := 0, didSetStatus := false }

/-- The second loop: take the events of the rules that match `event` and are not complete out of
`event_mask`. -/
def completedEvents (event : RuleEvents) (m : Marking n) : RuleEvents :=
  (List.finRange n).foldl (fun eventMask i =>
    if (rules i).events &&& event ≠ 0 ∧ m.rulesState i ≠ .complete then
      eventMask &&& ~~~(rules i).events
    else eventMask) m.eventMask

/-- `RulesEngine_UpdateRuleStatus`, with the flag it returns. -/
def updateRuleStatus (sel : Selector) (newStatus : RuleStatus) (rs : RuleSet n) :
    Option (RuleSet n × Bool) :=
  (markRules rules sel newStatus rs.rulesState).map fun m =>
    let eventMask := completedEvents rules sel.event m
    let rs := { rs with rulesState := m.rulesState }
    (if eventMask ≠ 0 then resetEvent rules rs eventMask else rs, m.didSetStatus)

/-! ## `RulesEngine_RunRules` -/

/-- The state of the loop: the rule set, the local copy of the events and what has been sent. -/
structure Pass (n : ℕ) where
  ruleSet : RuleSet n
  events : RuleEvents
  sent : List Output

/-- `RulesEngine_CopyRunParams`, called by a rule function. -/
def copyRunParams (rs : RuleSet n) : Option (List UInt8) → Option (RuleSet n)
  | none => some rs
  | some param => if rs.ruleMessageData = none then
      some { rs with ruleMessageData := some param }
    else none

/-- The rule is checked: all its events are in the local copy, or it is always evaluated. -/
def Matches (events : RuleEvents) (i : Fin n) : Prop :=
  (rules i).events &&& events = (rules i).events ∨ (rules i).flags = .alwaysEvaluate

instance (events : RuleEvents) (i : Fin n) : Decidable (Matches rules events i) := by
  unfold Matches
  infer_instance

/-- The action message, with the parameters the rule function left. -/
def sendMessage (i : Fin n) (action : RuleAction) (rs : RuleSet n) : Option (RuleSet n × Output) :=
  match action, rs.ruleMessageData with
  | .runWithParam, some (byte :: param) =>
    some ({ rs with ruleMessageData := none }, .message (rules i).message (some (byte :: param)))
  | .runWithParam, _ => none
  | _, none => some (rs, .message (rules i).message none)
  | _, some _ => none

/-- `rule_action_run` and `rule_action_run_with_param`. -/
def startRule (i : Fin n) (action : RuleAction) (p : Pass n) : Option (Pass n) :=
  if (rules i).flags = .alwaysEvaluate then
    (sendMessage rules i action p.ruleSet).map fun r =>
      { p with ruleSet := r.1, sent := p.sent ++ [r.2] }
  else
    (setRuleStatus rules p.ruleSet.rulesState i .inProgress).bind fun rulesState =>
      (sendMessage rules i action { p.ruleSet with rulesState }).map fun r =>
        { ruleSet := r.1, events := p.events &&& ~~~(rules i).events, sent := p.sent ++ [r.2] }

/-- `rule_action_complete` and `rule_action_ignore`. -/
def finishRule (i : Fin n) (p : Pass n) : Option (Pass n) :=
  if (rules i).flags = .alwaysEvaluate then some p
  else
    (updateRuleStatus rules ⟨(rules i).message, p.ruleSet.rulesState i, (rules i).events⟩ .complete
      p.ruleSet).map fun r => { p with ruleSet := r.1 }

/-- `rule_action_defer`. -/
def deferRule (i : Fin n) (p : Pass n) : Option (Pass n) :=
  (setRuleStatus rules p.ruleSet.rulesState i .deferred).map fun rulesState =>
    { p with ruleSet := { p.ruleSet with rulesState } }

/-- Calling the rule function and handling its result. -/
def evaluateRule (i : Fin n) (o : RuleOutcome) (p : Pass n) : Option (Pass n) :=
  (copyRunParams p.ruleSet o.param).bind fun ruleSet =>
    let p := { p with ruleSet }
    match o.action with
    | .run => startRule rules i .run p
    | .runWithParam => startRule rules i .runWithParam p
    | .complete => finishRule rules i p
    | .ignore => finishRule rules i p
    | .defer => deferRule rules i p

/-- The loop body, on the rule `i`. `o` is what its function does if it is called. -/
def visitRule (i : Fin n) (o : RuleOutcome) (p : Pass n) : Option (Pass n) :=
  if Matches rules p.events i then
    match p.ruleSet.rulesState i with
    | .complete => some p
    | .inProgress => some { p with events := p.events &&& ~~~(rules i).events }
    | _ => evaluateRule rules i o p
  else some p

/-- `RulesEngine_RunRules`, where the function of the rule `i` behaves as `outcome i`. `sent` is
what the call has sent before. -/
def runRules (outcome : Fin n → RuleOutcome) (rs : RuleSet n) (sent : List Output) :
    Option (RuleSet n × List Output) :=
  ((List.finRange n).foldlM (fun p i => visitRule rules i (outcome i) p)
    { ruleSet := rs, events := rs.events, sent }).map fun p => (p.ruleSet, p.sent)

/-! ## The calls of the engine -/

/-- `RulesEngine_SetEvent`. -/
def setEvent (outcome : Fin n → RuleOutcome) (rs : RuleSet n) (eventMask : RuleEvents) :
    Option (RuleSet n × List Output) :=
  runRules rules outcome { rs with events := rs.events ||| eventMask } []

/-- `RulesEngine_InProgress`. -/
def inProgress (rs : RuleSet n) : Bool :=
  (List.finRange n).any fun i =>
    (rules i).flags == .progressMatters && rs.rulesState i == .inProgress

/-- What `RulesEngine_SetRuleWithEventComplete` does before it checks the rules: the rule set and
the message to `nop_tasks`. -/
def completeInProgress (rs : RuleSet n) (message : MessageId) (event : RuleEvents) :
    Option (RuleSet n × List Output) :=
  (updateRuleStatus rules ⟨message, .inProgress, event⟩ .complete rs).map fun r =>
    (r.1, if r.2 && !inProgress rules r.1 then [.nop] else [])

/-- `RulesEngine_SetRuleWithEventComplete`. -/
def setRuleWithEventComplete (outcome : Fin n → RuleOutcome) (rs : RuleSet n) (message : MessageId)
    (event : RuleEvents) : Option (RuleSet n × List Output) :=
  (completeInProgress rules rs message event).bind fun r => runRules rules outcome r.1 r.2

/-- `RulesEngine_SetRuleComplete`, with `RULE_EVENT_ALL_EVENTS_MASK`. -/
def setRuleComplete (outcome : Fin n → RuleOutcome) (rs : RuleSet n) (message : MessageId) :
    Option (RuleSet n × List Output) :=
  setRuleWithEventComplete rules outcome rs message (BitVec.allOnes 64)

end Mh40.RulesEngine
