import Mh40.GattManager.Server

/-!
# Connecting as a peripheral

The functions of `gatt_manager_server.c` and `gatt_manager_data.c` that advertise and cancel it, and
`handleGattConnectCfm` of `gatt_manager_handler.c`.

* `Peripheral`: the part of `gatt_manager_data` that they use, with the internal messages that wait
  for their condition.
* `connectAsPeripheral`, `cancelConnectAsPeripheral`, `gattConnectCfm`: what the application and the
  GATT library can call, with what is sent; `none` is a panic.
* `deliverCancelAdvertising`, `deliverConnectAsPeripheral`: the internal messages, which wait for
  `advertising_requested_flag` and for the handler of a connection as a central to be 0.

The manager is initialised and a server registered. Of the client side only its handler is here.
-/

namespace Mh40.GattManager

/-- `gatt_connection_type`. -/
inductive ConnectionType where
  | bredrMaster
  | bleMasterDirected
  | bleMasterWhitelist
  | bleSlaveDirected
  | bleSlaveWhitelist
  | bleSlaveUndirected
  | bleSlaveDirectedLowDuty
  deriving DecidableEq

/-- `gatt_status_t`; no function here tells the other ones apart. -/
inductive GattStatus where
  | success
  | initialising
  | failure
  | other
  deriving DecidableEq

/-- `gatt_manager_status_t`, as far as it is sent here. -/
inductive ManagerStatus where
  | success
  | wrongState
  | failed
  deriving DecidableEq

/-- `gatt_manager_advertising_state_t`. -/
inductive AdvertisingState where
  | idle
  | queued
  | requested
  | advertising
  deriving DecidableEq

/-- The arguments of `GattManagerConnectAsPeripheral`; an address is a number. -/
structure ConnectParams where
  task : Task
  taddr : Option ℕ
  connType : ConnectionType
  deriving DecidableEq

/-- The part of `struct __gatt_manager_data` for advertising, and the internal messages. -/
structure Peripheral where
  applicationTask : Task
  advertisingState : AdvertisingState
  /-- `connect_as_peripheral`. -/
  task : Task
  cid : ℕ
  /-- `connect_as_central.task`. -/
  centralHandler : Task
  cancelPendingConnection : Bool
  /-- How many messages `CANCEL_ADVERTISING` are queued. -/
  cancelAdvertising : ℕ
  /-- The messages `CONNECT_AS_PERIPHERAL` that are queued. -/
  connectMessages : List ConnectParams
  deriving DecidableEq

/-- What is sent to a task or to the GATT library. -/
inductive Output where
  | connectAsPeripheralCfm (task : Task) (status : GattStatus)
  | cancelConnectAsPeripheralCfm (task : Task) (status : ManagerStatus)
  | connectAsCentralCfm (task : Task) (status : GattStatus)
  | gattConnectRequest (taddr : Option ℕ) (connType : ConnectionType)
  | gattDisconnectRequest (cid : ℕ)
  deriving DecidableEq

/-- `gattManagerDataInit`. -/
def Peripheral.init (applicationTask : Task) : Peripheral :=
  ⟨applicationTask, .idle, 0, 0, 0, false, 0, []⟩

/-- `advertising_requested_flag`, which every change of the state sets. -/
def Peripheral.advertisingRequestedFlag (d : Peripheral) : Bool := d.advertisingState = .requested

/-- `connectAsPeripheralParamsValid`. -/
def connectAsPeripheralParamsValid (p : ConnectParams) : Bool :=
  p.task = 0 ||
    ((p.connType = .bleSlaveDirected || p.connType = .bleSlaveDirectedLowDuty) &&
      p.taddr.isSome) ||
    p.connType = .bleSlaveWhitelist || p.connType = .bleSlaveUndirected

/-- `clearConnectAsPeripheralData`. -/
def clearConnectAsPeripheralData (d : Peripheral) : Peripheral := { d with task := 0, cid := 0 }

/-- `GattManagerConnectAsPeripheral`. -/
def connectAsPeripheral (d : Peripheral) (p : ConnectParams) : Option (Peripheral × List Output) :=
  if !connectAsPeripheralParamsValid p then none
  else if d.advertisingState = .idle then
    if d.centralHandler ≠ 0 then
      some ({ d with
        task := p.task
        advertisingState := .queued
        connectMessages := d.connectMessages ++ [p] }, [])
    else
      some ({ d with task := p.task, advertisingState := .requested },
        [.gattConnectRequest p.taddr p.connType])
  else some (d, [.connectAsPeripheralCfm p.task .failure])

/-- `GattManagerCancelConnectAsPeripheral`. -/
def cancelConnectAsPeripheral (d : Peripheral) : Option (Peripheral × List Output) :=
  if d.cancelPendingConnection then some (d, [])
  else match d.advertisingState with
    | .requested =>
      -- `MessageCancelFirst`, and then the message is sent again
      some ({ d with cancelAdvertising := d.cancelAdvertising - 1 + 1 }, [])
    | .advertising =>
      some ({ d with cancelPendingConnection := true }, [.gattDisconnectRequest d.cid])
    | .queued =>
      if d.connectMessages = [] then none
      else
        some (clearConnectAsPeripheralData
            { d with connectMessages := [], advertisingState := .idle },
          [.cancelConnectAsPeripheralCfm d.task .success])
    | .idle => some (d, [.cancelConnectAsPeripheralCfm d.applicationTask .wrongState])

/-! ## Confirmations -/

/-- `gattConnectCfmSuccess`. -/
def gattConnectCfmSuccess (d : Peripheral) : Peripheral × List Output :=
  ({ d with advertisingState := .idle },
    (if d.cancelPendingConnection then [.cancelConnectAsPeripheralCfm d.task .failed] else []) ++
      [.connectAsPeripheralCfm d.task .success])

/-- `gattConnectCfmFailure`. -/
def gattConnectCfmFailure (d : Peripheral) : Peripheral × List Output :=
  if d.cancelPendingConnection then
    ({ d with cancelPendingConnection := false, advertisingState := .idle },
      [.cancelConnectAsPeripheralCfm d.task .success])
  else ({ d with advertisingState := .idle }, [.connectAsPeripheralCfm d.task .failure])

/-- `gattConnectCfmUnknown`. -/
def gattConnectCfmUnknown (d : Peripheral) (status : GattStatus) : Peripheral × List Output :=
  ({ d with advertisingState := .idle },
    if d.cancelPendingConnection then [.cancelConnectAsPeripheralCfm d.task .failed]
    else [.connectAsPeripheralCfm d.task status])

/-- `gattManagerConnectAsPeripheralConnected`. -/
def connectAsPeripheralConnected (d : Peripheral) (status : GattStatus) :
    Peripheral × List Output :=
  let (d, outputs) := match status with
    | .success => gattConnectCfmSuccess d
    | .failure => gattConnectCfmFailure d
    | status => gattConnectCfmUnknown d status
  (clearConnectAsPeripheralData d, outputs)

/-- `gattManagerConnectAsCentralCfm`. -/
def connectAsCentralCfm (d : Peripheral) (status : GattStatus) : Peripheral × List Output :=
  if d.centralHandler ≠ 0 then
    ({ d with centralHandler := 0 }, [.connectAsCentralCfm d.centralHandler status])
  else (d, [])

/-- `handleGattConnectCfm`. -/
def gattConnectCfm (d : Peripheral) (status : GattStatus) (cid : ℕ) : Peripheral × List Output :=
  if status = .initialising then
    if d.advertisingState = .requested then
      ({ d with cid, advertisingState := .advertising }, [])
    else (d, [])
  else if cid = d.cid then connectAsPeripheralConnected d status
  else connectAsCentralCfm d status

/-! ## Internal messages -/

/-- `CANCEL_ADVERTISING`, once the flag is 0. -/
def deliverCancelAdvertising (d : Peripheral) : Option (Peripheral × List Output) :=
  if d.cancelAdvertising = 0 ∨ d.advertisingRequestedFlag = true then none
  else cancelConnectAsPeripheral { d with cancelAdvertising := d.cancelAdvertising - 1 }

/-- `gattManagerConnectAsPeripheralInternal`, once there is no handler of a central. -/
def deliverConnectAsPeripheral (d : Peripheral) : Option (Peripheral × List Output) :=
  match d.connectMessages with
  | [] => none
  | p :: rest =>
    if d.centralHandler ≠ 0 then none
    else connectAsPeripheral { d with connectMessages := rest, advertisingState := .idle } p

end Mh40.GattManager
