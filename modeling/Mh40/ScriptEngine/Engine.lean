import Mathlib.Data.Finset.Prod

/-!
# Script engine

Model of `script_engine.c`, and of the delayed confirmations of `procedures.c`.

* Every function of the engine calls out at most once (a procedure or the client), and that call is
  the last thing it does. So the function returns what it calls (`Call`), and what the callee does
  before it returns (a procedure that completes in its start function, a client that starts another
  script in its callback) are the next events of the run.
* A script is the list of its procedures, each with its data. A procedure is the ID that it reports.
* Around the engine: `procedures_delay_cfm` with its queue of messages, the procedures that were
  started and what each of them reported, and a log of the calls.
* The `n`-th script is started with the callbacks numbered `n`.
* A panic, and what a procedure may not do (to report twice), are `none`.
-/

namespace Mh40.ScriptEngine

abbrev Task := ℕ
abbrev ProcedureId := ℕ
abbrev Message := ℕ

/-- `PROCEDURE_ID_MAX`. -/
def procedureIdMax : ProcedureId := 0xFF

/-- `procedure_result_t`. -/
inductive ProcedureResult where
  | success
  | failed
  | timeout
  deriving DecidableEq

/-- An entry of `script_procs` and of `script_procs_data`. -/
structure ScriptEntry where
  proc : ProcedureId
  data : Message
  deriving DecidableEq

/-- `procedure_script_t`. -/
abbrev ProcedureScript := List ScriptEntry

/-- `script_engine_state_t`. -/
inductive EngineState where
  | idle
  | active
  | cancelling
  deriving DecidableEq

/-- `ScriptEngineTaskData`; a callback of the client is a number. -/
structure TaskData where
  state : EngineState
  nextStep : ℕ
  script : Option ProcedureScript
  proc : ProcedureId
  scriptClient : Task
  completeFn : ℕ
  cancelFn : ℕ
  deriving DecidableEq

/-- A call out of the engine. -/
inductive Call where
  /-- `proc_start_fn` of the step, for the client, with the data. -/
  | startProcedure (step : ℕ) (client : Task) (data : Message)
  /-- `proc_cancel_fn` of the step. -/
  | cancelProcedure (step : ℕ)
  /-- `complete_fn`. -/
  | complete (fn : ℕ) (proc : ProcedureId) (result : ProcedureResult)
  /-- `cancel_fn`. -/
  | cancel (fn : ℕ) (proc : ProcedureId) (result : ProcedureResult)
  deriving DecidableEq

/-! ## The engine -/

/-- `scriptEngine_EngineReset`. -/
def engineReset (td : TaskData) : TaskData :=
  { td with state := .idle, nextStep := 0, script := none }

/-- `scriptEngine_StartCurrentStep`. -/
def startCurrentStep (td : TaskData) : Option (TaskData × Call) :=
  match td.script with
  | none => none
  | some script =>
    if h : td.nextStep < script.length then
      some (td, .startProcedure td.nextStep td.scriptClient script[td.nextStep].data)
    else if td.nextStep = script.length then
      some (engineReset td, .complete td.completeFn td.proc .success)
    else none

/-- `scriptEngine_ProcStartCfm`. -/
def procStartCfm (td : TaskData) (result : ProcedureResult) : Option TaskData :=
  if result = .success then some td else none

/-- `scriptEngine_ProcCompleteCfm`. -/
def procCompleteCfm (td : TaskData) (result : ProcedureResult) : Option (TaskData × Option Call) :=
  if td.state = .active then
    match result with
    | .success =>
      (startCurrentStep { td with nextStep := td.nextStep + 1 }).map fun r => (r.1, some r.2)
    | .timeout => some (engineReset td, some (.complete td.completeFn td.proc .timeout))
    | .failed => some (engineReset td, some (.complete td.completeFn td.proc .failed))
  else some (td, none)

/-- `scriptEngine_ProcCancelCfm`. -/
def procCancelCfm (td : TaskData) (result : ProcedureResult) : Option (TaskData × Call) :=
  if td.state = .cancelling then some (engineReset td, .cancel td.cancelFn td.proc result) else none

/-- `ScriptEngine_StartScript`. -/
def startScript (td : TaskData) (client : Task) (script : ProcedureScript) (proc : ProcedureId)
    (completeFn : ℕ) : Option (TaskData × Call) :=
  if td.state = .idle then
    startCurrentStep { td with
      completeFn, proc, scriptClient := client, state := .active, nextStep := 0
      script := some script }
  else none

/-- `ScriptEngine_CancelScript`; without a call it returns `FALSE`. -/
def cancelScript (td : TaskData) (client : Task) (cancelFn : ℕ) :
    Option (TaskData × Option Call) :=
  if td.scriptClient = client then
    if td.state ≠ .active then some (td, none)
    else
      match td.script with
      | none => none
      | some script =>
        if td.nextStep < script.length then
          some ({ td with state := .cancelling, cancelFn }, some (.cancelProcedure td.nextStep))
        else none
  else none

/-! ## The procedures around it -/

/-- A started procedure: the number of the script and its step. -/
abbrev Instance := ℕ × ℕ

/-- `DELAY_COMPLETE_CFM` and `DELAY_CANCEL_CFM`. -/
inductive DelayCfm where
  | complete
  | cancel
  deriving DecidableEq

/-- A message to `procedures_delay_cfm`, with the procedure that sent it. -/
structure DelayMessage where
  type : DelayCfm
  proc : ProcedureId
  inst : Instance
  result : ProcedureResult
  deriving DecidableEq

/-- What is seen from outside. -/
inductive LogEntry where
  /-- The start function of the procedure is called. -/
  | started (inst : Instance)
  /-- The completion callback of the procedure is called. -/
  | completed (inst : Instance) (result : ProcedureResult)
  /-- The client that started the script is told that it completed. -/
  | clientComplete (script : ℕ) (result : ProcedureResult)
  /-- The client that cancelled the script is told that it is cancelled. -/
  | clientCancel (script : ℕ) (result : ProcedureResult)
  deriving DecidableEq

/-- The engine and everything around it. -/
structure State where
  td : TaskData
  /-- The scripts that were started. -/
  scripts : List ProcedureScript
  queue : List DelayMessage
  started : Finset Instance
  /-- The procedures that reported completion. -/
  reported : Finset Instance
  /-- The procedures that were asked to cancel. -/
  asked : Finset Instance
  /-- The procedures that confirmed it. -/
  confirmed : Finset Instance
  /-- The procedures whose confirmation the engine has. -/
  cancelled : Finset Instance
  log : List LogEntry
  deriving DecidableEq

def init : State :=
  ⟨⟨.idle, 0, none, 0, 0, 0, 0⟩, [], [], ∅, ∅, ∅, ∅, ∅, []⟩

namespace State

/-- The number of the script that was started last. -/
def current (s : State) : ℕ := s.scripts.length - 1

/-- The ID that the procedure reports. -/
def procId (s : State) (inst : Instance) : Option ProcedureId :=
  (s.scripts[inst.1]?.bind (·[inst.2]?)).map (·.proc)

/-- The engine calls out. -/
def call (s : State) (td : TaskData) : Call → State
  | .startProcedure step _ _ =>
    { s with
      td, started := insert (s.current, step) s.started
      log := s.log ++ [.started (s.current, step)] }
  | .cancelProcedure step => { s with td, asked := insert (s.current, step) s.asked }
  | .complete fn _ result => { s with td, log := s.log ++ [.clientComplete fn result] }
  | .cancel fn _ result => { s with td, log := s.log ++ [.clientCancel fn result] }

/-- The engine calls out, or not. -/
def call? (s : State) (td : TaskData) : Option Call → State
  | none => { s with td }
  | some c => s.call td c

/-- The procedure calls the completion callback. -/
def completeCfm (s : State) (inst : Instance) (result : ProcedureResult) : Option State :=
  let s := { s with log := s.log ++ [LogEntry.completed inst result] }
  (procCompleteCfm s.td result).map fun r => s.call? r.1 r.2

/-- The procedure calls the cancel callback. -/
def cancelCfm (s : State) (inst : Instance) (result : ProcedureResult) : Option State :=
  let s := { s with cancelled := insert inst s.cancelled }
  (procCancelCfm s.td result).map fun r => s.call r.1 r.2

end State

/-- `Procedures_DelayedCompleteCfmCallback`. -/
def delayedCompleteCfmCallback (queue : List DelayMessage) (proc : ProcedureId) (inst : Instance)
    (result : ProcedureResult) : Option (List DelayMessage) :=
  if proc ≤ procedureIdMax then some (queue ++ [⟨.complete, proc, inst, result⟩]) else none

/-- `Procedures_DelayedCancelCfmCallback`. -/
def delayedCancelCfmCallback (queue : List DelayMessage) (proc : ProcedureId) (inst : Instance)
    (result : ProcedureResult) : Option (List DelayMessage) :=
  if proc ≤ procedureIdMax then
    let queue := queue ++ [⟨.cancel, proc, inst, result⟩]
    some (queue.filter fun m => ¬(m.type = .complete ∧ m.proc = proc))
  else none

/-- What can happen. -/
inductive Event where
  /-- A client starts a script. -/
  | startScript (client : Task) (script : ProcedureScript) (proc : ProcedureId)
  /-- A client cancels the running script. -/
  | cancelScript (client : Task)
  /-- A procedure confirms its start. -/
  | startCfm (result : ProcedureResult)
  /-- A procedure calls its completion callback. -/
  | complete (inst : Instance) (result : ProcedureResult)
  /-- A procedure completes by `Procedures_DelayedCompleteCfmCallback`. -/
  | delayComplete (inst : Instance) (result : ProcedureResult)
  /-- A procedure that was asked to cancel does so by `Procedures_DelayedCancelCfmCallback`. -/
  | delayCancel (inst : Instance) (result : ProcedureResult)
  /-- `Procedures_DelayCfmHandleMessage` gets the next message. -/
  | deliver
  deriving DecidableEq

/-- One event. -/
def step (s : State) : Event → Option State
  | .startScript client script proc =>
    let s := { s with scripts := s.scripts ++ [script] }
    (startScript s.td client script proc s.current).map fun r => s.call r.1 r.2
  | .cancelScript client =>
    (cancelScript s.td client s.current).map fun r => s.call? r.1 r.2
  | .startCfm result => (procStartCfm s.td result).map fun td => { s with td }
  | .complete inst result =>
    if inst ∈ s.started ∧ inst ∉ s.reported then
      { s with reported := insert inst s.reported }.completeCfm inst result
    else none
  | .delayComplete inst result =>
    if inst ∈ s.started ∧ inst ∉ s.reported then
      (s.procId inst).bind fun proc =>
        (delayedCompleteCfmCallback s.queue proc inst result).map fun queue =>
          { s with queue, reported := insert inst s.reported }
    else none
  | .delayCancel inst result =>
    if inst ∈ s.asked ∧ inst ∉ s.confirmed then
      (s.procId inst).bind fun proc =>
        (delayedCancelCfmCallback s.queue proc inst result).map fun queue =>
          { s with queue, confirmed := insert inst s.confirmed }
    else none
  | .deliver =>
    match s.queue with
    | [] => none
    | m :: queue =>
      let s := { s with queue }
      match m.type with
      | .complete => s.completeCfm m.inst m.result
      | .cancel => s.cancelCfm m.inst m.result

end Mh40.ScriptEngine
