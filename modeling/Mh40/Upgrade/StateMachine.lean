import Mh40.Rtime.Wallclock
import Mh40.Upgrade.PartitionData

/-!
# Host data in the upgrade state machine

`UPGRADE_HOST_DATA` in the states of `upgrade_sm.c` that pass it to the parser, with the clock that
the parser reads.

* `StateMachine` is the part of the state machine that these messages read or change. The messages
  to the host are the requests and the errors sent so far.
* A packet finds one reading of the clock: the parser reads it where it opens a section and where
  it has all data of one, never both for one packet.
* The power state changes at any time. The message that the battery is low comes later, and in
  the battery-low state it is an error like any other message.
* `UpgradeFatalError` also stores the resume point, which none of this reads.
-/

namespace Mh40.Upgrade

open Option

/-! ## State -/

/-- `UpgradeState`, as far as host data leads. -/
inductive UpgradeState where
  | aborting
  | batteryLow
  | dataTransfer
  | dataTransferSuspended
  | dataHashChecking
  | rebootToResume
  deriving DecidableEq

/-- `upgrade_power_state_t`. -/
inductive PowerState where
  | batteryOk
  | batteryLow
  | chargerConnected
  deriving DecidableEq

/-- What `SendErrorInd` reports. -/
inductive ErrorInd where
  | parser (rc : HostErrorCode)
  | fileTooSmall
  | fileTooBig
  | batteryLow
  deriving DecidableEq

/-- `UPGRADE_DATA_BYTES_REQ`. -/
structure Request where
  size : ℕ
  offset : ℕ
  deriving DecidableEq

/-- `UPGRADE_HOST_DATA_T`, and the time at which it is handled. -/
structure Packet where
  data : List UInt8
  lastPacket : Bool
  now : Rtime.RtimeT

/-- The upgrade state machine. -/
structure StateMachine where
  smState : UpgradeState
  powerState : PowerState
  parser : Parser
  /-- `time_start` of the parser. -/
  timeStart : Rtime.RtimeT
  requests : List Request
  errors : List ErrorInd

/-! ## Messages -/

/-- `UpgradePartitionDataParse` with the clock: `time_start` is set where
`UpgradePartitionDataHandleDataHeaderState` goes on to the data of a section. -/
def parsePacket (device : Device) (sm : StateMachine) (packet : Packet) :
    Option (HostErrorCode × StateMachine) :=
  (parse device sm.parser packet.data).map fun (rc, parser) =>
    let opened := sm.parser.ctx.state = .dataHeader ∧ parser.ctx.state = .data
    (rc, { sm with parser, timeStart := if opened then packet.now else sm.timeStart })

/-- `UpgradePartitionDataStopData`. -/
def stopData (ctx : PartitionData) : PartitionData :=
  { ctx with totalReqSize := 0, newReqSize := 0, totalReceivedSize := 0, chunkReceivedSize := 0 }

/-- `SendErrorInd`. -/
def sendErrorInd (sm : StateMachine) (error : ErrorInd) : StateMachine :=
  { sm with errors := sm.errors ++ [error] }

/-- `UpgradeFatalError`. -/
def fatalError (sm : StateMachine) (error : ErrorInd) : StateMachine :=
  { sendErrorInd sm error with smState := .aborting }

/-- The next request after a packet. With no more to request, the data of the case is not for the
upgrade library. -/
def requestNext (device : Device) (sm : StateMachine) : StateMachine :=
  let (size, ctx) := getNextReqSize device sm.parser.ctx
  let sm := { sm with parser.ctx := ctx }
  if size ≠ 0 then { sm with requests := sm.requests ++ [⟨size, ctx.offset⟩] }
  else if device.isCaseDfuSupported ∧ ctx.caseDfuStatus = .inProgress then
    { sm with smState := .dataTransferSuspended }
  else sm

/-- `upgradeSm_HandleDataTransfer` of `UPGRADE_HOST_DATA`, from the status of the parser on. -/
def finishPacket (device : Device) (lastPacket : Bool) (rc : HostErrorCode) (sm : StateMachine) :
    StateMachine :=
  if rc = .success then
    if lastPacket then fatalError sm .fileTooSmall else requestNext device sm
  else if rc = .dataTransferComplete then
    if !lastPacket then fatalError sm .fileTooBig
    else { sm with smState := .dataHashChecking, parser.ctx.isDataXferComplete := true }
  else if rc = .partitionCloseFailedPsSpace then
    { sendErrorInd sm (.parser rc) with smState := .rebootToResume }
  else fatalError sm (.parser rc)

/-- `upgradeSm_HandleDataTransfer` of `UPGRADE_HOST_DATA`. -/
def handleDataTransfer (device : Device) (sm : StateMachine) (packet : Packet) :
    Option StateMachine :=
  (parsePacket device sm packet).map fun (rc, sm) => finishPacket device packet.lastPacket rc sm

/-- `UPGRADE_PARTITION_DATA_XFER_ERROR`, when it is compared with the status of the parser: both
enumerations start at 0. -/
def partitionDataXferError : HostErrorCode := .success

/-- `upgradeSm_HandleBatteryLow` of `UPGRADE_HOST_DATA`. -/
def handleBatteryLow (device : Device) (sm : StateMachine) (packet : Packet) :
    Option StateMachine :=
  if sm.powerState ≠ .batteryLow then some sm
  else (parsePacket device sm packet).map fun (rc, sm) =>
    if partitionDataXferError = rc then sm
    else sendErrorInd { sm with parser.ctx := stopData sm.parser.ctx } .batteryLow

/-- `UPGRADE_INTERNAL_BATTERY_LOW`, in `upgradeSm_HandleBatteryLow` or in
`upgradeSm_DefaultHandler`. -/
def handleInternalBatteryLow (sm : StateMachine) : StateMachine :=
  if sm.smState = .batteryLow ∧ sm.powerState = .batteryLow then sendErrorInd sm .batteryLow
  else { sm with smState := .batteryLow }

/-- What happens to the state machine. -/
inductive Event where
  /-- `UPGRADE_HOST_DATA`. -/
  | hostData (packet : Packet)
  /-- `UpgradePowerManagementSetState`. -/
  | setPowerState (state : PowerState)
  /-- `UPGRADE_INTERNAL_BATTERY_LOW`. -/
  | internalBatteryLow

/-- `UpgradeSMHandleMsg`. It is `none` when the parser reads behind the bytes of a block. -/
def handleMsg (device : Device) (sm : StateMachine) : Event → Option StateMachine
  | .hostData packet =>
    match sm.smState with
    | .batteryLow => handleBatteryLow device sm packet
    | .dataTransfer => handleDataTransfer device sm packet
    | _ => some sm
  | .setPowerState state => some { sm with powerState := state }
  | .internalBatteryLow => some (handleInternalBatteryLow sm)

/-- Whether the next host data goes to the parser. -/
def Processes (sm : StateMachine) : Prop :=
  sm.smState = .dataTransfer ∨ sm.smState = .batteryLow ∧ sm.powerState = .batteryLow

instance (sm : StateMachine) : Decidable (Processes sm) := inferInstanceAs (Decidable (_ ∨ _))

/-! ## Blocks -/

/-- The block of bytes that a packet completes, if it does: the request has all of its bytes with
it, and what waits in `incompleteData` fits. -/
def completedBlock (parser : Parser) (data : List UInt8) : Option (List UInt8) :=
  if parser.ctx.totalReceivedSize + data.length ≠ parser.ctx.totalReqSize then none
  else if parser.incompleteData = [] then some data
  else if data.length > maxPartitionDataBlockSize - parser.incompleteData.length then none
  else some (parser.incompleteData ++ data)

variable {device : Device} {parser : Parser} {data block : List UInt8}

/-- A completed block goes to the handler of the parser's state. -/
theorem parse_of_completedBlock (h : completedBlock parser data = some block) :
    parse device parser data =
      (parseComplete device (received parser.ctx data.length) block).map fun (rc, ctx) =>
        (rc, ⟨ctx, []⟩) := by
  obtain ⟨ctx, incompleteData⟩ := parser
  have htotal : (received ctx data.length).totalReceivedSize =
      ctx.totalReceivedSize + data.length := rfl
  have hreq : (received ctx data.length).totalReqSize = ctx.totalReqSize := rfl
  unfold completedBlock at h
  dsimp only at h
  split_ifs at h with hall hinc hfit
  · subst hinc
    cases h
    have hall := not_not.mp hall
    rw [parse]
    dsimp only
    rw [htotal, hreq, if_neg (by omega), if_neg (by simp)]
    simp only [parseCompleteData, hall, decide_true, if_true]
  · cases h
    have hall := not_not.mp hall
    rw [parse]
    dsimp only
    rw [htotal, hreq, if_neg (by omega), if_pos hinc, parseIncomplete, storeIncomplete,
      if_neg hfit]
    dsimp only
    rw [if_pos (by rw [htotal, hreq]; exact hall)]
    simp only [parseCompleteData, if_true, bind_eq_bind, pure_def]
    cases parseComplete device (received ctx data.length) (incompleteData ++ data) <;> rfl

end Mh40.Upgrade
