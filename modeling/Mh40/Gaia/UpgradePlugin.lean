import Mathlib.Data.Nat.Notation
import Mathlib.Logic.Function.Basic
import Mh40.Lib.Run

/-!
# The upgrade plugin of the GAIA framework

`domains/gaia/upgrade_gaia_plugin/upgrade_gaia_plugin.c`: upgrade commands of a handset passed to
the upgrade library, and the confirmations of the library passed back.

* `Plugin`: the data of the plugin. A handler yields the new data with the calls that it makes.
* `Library`: the connection of the library (`libs/upgrade/upgrade_host_if.c`), which serves one
  client at a time. A request to connect is always confirmed; a request to disconnect is confirmed
  to the client that is connected, and to nobody when none is.
* `World`: the plugin with its transports, the internal messages that wait for the lock, and the
  library. Its confirmations arrive in any order, those of a disconnect with any status.
* `World.owed`: the commands that were accepted, and neither answered nor given up with their
  transport.

What a call to the GAIA framework hands over counts as sent. The bandwidth manager, the link policy
and the device list, whose answers the handlers do not use, are left out, and so are the data
endpoints and the control command.
-/

namespace Mh40.Gaia.UpgradePlugin

open Lib

/-- `upgrade_gaia_plugin_state_t`. -/
inductive State
  | disconnected
  | connecting
  | connected
  | disconnecting
  | transportDisconnecting
deriving DecidableEq

/-- The commands that the library has to confirm. -/
inductive Command
  | upgradeConnect
  | upgradeDisconnect
deriving DecidableEq

inductive Notification
  | upgradeDataIndication
  | upgradeStartRequest
  | upgradeStopRequest
deriving DecidableEq

/-- The messages of the plugin to itself. -/
inductive Internal
  | connectReq
  | disconnectReq
deriving DecidableEq

section Model

variable {T : Type}

/-- The calls of a handler; a transport is `none` where it is `NULL`. -/
inductive Action (T : Type)
  | transportConnectRequest
  | transportDisconnectRequest
  | sendResponse (transport : Option T) (command : Command)
  | sendError (transport : Option T) (command : Command)
  | sendNotificationWithTransport (transport : Option T) (notification : Notification)
  | sendNotification (notification : Notification)
  /-- `MessageSendConditionally`, on the lock. -/
  | sendConditionally (message : Internal)
  | panic
deriving DecidableEq

/-- `upgrade_gaia_plugin_data_t`. -/
structure Plugin (T : Type) where
  transport : Option T
  state : State
  throttled : Bool
  lock : ℕ
  roleChangeTransport : Option T

/-- `upgradeGaiaPlugin_SetState`. -/
def Plugin.setState (p : Plugin T) (state : State) : Plugin T :=
  match state with
  | .connecting | .disconnecting | .transportDisconnecting =>
    { p with state := state, lock := 1 }
  | _ => { p with state := state, lock := 0 }

variable [DecidableEq T]

/-- `upgradeGaiaPlugin_TransportDisconnect`. -/
def transportDisconnect (p : Plugin T) (t : T) : Plugin T × List (Action T) :=
  if p.transport = some t then
    match p.state with
    | .connected | .connecting =>
      (p.setState .transportDisconnecting, [.transportDisconnectRequest])
    | .disconnected => ({ p with transport := none }, [])
    | _ => (p, [])
  else (p, [])

omit [DecidableEq T] in
/-- `upgradeGaiaPlugin_UpgradeConnect`. -/
def upgradeConnect (p : Plugin T) (t : T) : Plugin T × List (Action T) :=
  match p.state with
  | .disconnected =>
    ({ p with transport := some t }.setState .connecting, [.transportConnectRequest])
  | _ => (p, [.sendError (some t) .upgradeConnect])

omit [DecidableEq T] in
/-- `upgradeGaiaPlugin_UpgradeConnectCfm`. -/
def upgradeConnectCfm (p : Plugin T) (success : Bool) : Plugin T × List (Action T) :=
  match p.state with
  | .connecting =>
    if success then (p.setState .connected, [.sendResponse p.transport .upgradeConnect])
    else
      ({ p.setState .disconnected with transport := none },
        [.sendError p.transport .upgradeConnect])
  | _ => (p, if success then [.transportDisconnectRequest] else [])

/-- `upgradeGaiaPlugin_UpgradeDisconnect`. -/
def upgradeDisconnect (p : Plugin T) (t : T) : Plugin T × List (Action T) :=
  match p.state with
  | .connected | .connecting =>
    if p.transport = some t then
      (p.setState .disconnecting, [.transportDisconnectRequest])
    else (p, [.sendError (some t) .upgradeDisconnect])
  | _ => (p, [.sendError (some t) .upgradeDisconnect])

omit [DecidableEq T] in
/-- `upgradeGaiaPlugin_UpgradeDisconnectCfm`. -/
def upgradeDisconnectCfm (p : Plugin T) (success : Bool) : Plugin T × List (Action T) :=
  match p.state with
  | .disconnecting =>
    if p.transport.isNone then (p, [.panic])
    else if success then
      let p' := p.setState .disconnected
      (if p'.throttled then p' else { p' with transport := none },
        [.sendResponse p.transport .upgradeDisconnect])
    else (p, [.sendError p.transport .upgradeDisconnect])
  | .transportDisconnecting =>
    if p.transport.isNone then (p, [.panic])
    else ({ p.setState .disconnected with transport := none }, [])
  | _ => (p, if p.transport.isSome then [.sendError p.transport .upgradeDisconnect] else [])

omit [DecidableEq T] in
/-- `upgradeGaiaPlugin_UpgradeDataInd`. -/
def upgradeDataInd (p : Plugin T) : Plugin T × List (Action T) :=
  (p, [.sendNotificationWithTransport p.transport .upgradeDataIndication])

omit [DecidableEq T] in
/-- `upgradeGaiaPlugin_HandleInternalConnect`. -/
def handleInternalConnect (p : Plugin T) : Plugin T × List (Action T) :=
  ({ p with roleChangeTransport := none },
    if p.state = .disconnected then
      if p.roleChangeTransport.isSome then
        [.sendNotificationWithTransport p.roleChangeTransport .upgradeStartRequest]
      else [.sendNotification .upgradeStartRequest]
    else [])

omit [DecidableEq T] in
/-- `upgradeGaiaPlugin_HandleInternalDisconnect`. -/
def handleInternalDisconnect (p : Plugin T) : Plugin T × List (Action T) :=
  if p.state = .connected then
    ({ p with roleChangeTransport := p.transport },
      [.sendNotificationWithTransport p.transport .upgradeStopRequest])
  else (p, [])

/-- `upgradeGaiaPlugin_RoleChangeStart`. -/
def roleChangeStart (p : Plugin T) (t : T) : Plugin T × List (Action T) :=
  (p, if p.transport = some t then [.sendConditionally .disconnectReq] else [])

/-- `upgradeGaiaPlugin_RoleChangeCompleted`. -/
def roleChangeCompleted (p : Plugin T) (t : T) (isPrimary : Bool) : Plugin T × List (Action T) :=
  if isPrimary then (p, [.sendConditionally .connectReq])
  else if p.roleChangeTransport = some t then ({ p with roleChangeTransport := none }, [])
  else (p, [])

/-- `upgradeGaiaPlugin_RoleChangeCancelled`. -/
def roleChangeCancelled (p : Plugin T) (t : T) : Plugin T × List (Action T) :=
  (p, if p.roleChangeTransport = some t then [.sendConditionally .connectReq] else [])

omit [DecidableEq T] in
/-- `upgrade_BandwithThrottle`. -/
def bandwidthThrottle (p : Plugin T) (throttleRequired : Bool) : Plugin T × List (Action T) :=
  ({ p with throttled := throttleRequired },
    if p.transport.isSome then
      [.sendNotificationWithTransport p.transport
        (if throttleRequired then .upgradeStopRequest else .upgradeStartRequest)]
    else [])

/-! ## The library -/

/-- A task that uses the library: that of the plugin, or another one. -/
inductive Client
  | plugin
  | other
deriving DecidableEq

structure Library where
  /-- The `transportTask` of `upgradeCtx`, which is `NULL` before `UpgradeInit`. -/
  upgradeCtx : Option (Option Client)
  /-- The confirmations that the plugin has not received: which connections were made, and how many
  have ended. -/
  connectCfms : List Bool
  disconnectCfms : ℕ

/-- `UpgradeHostIFTransportConnect`. -/
def Library.transportConnect (l : Library) (client : Client) : Library :=
  let (success, upgradeCtx) := match l.upgradeCtx with
    | some none => (true, some (some client))
    | upgradeCtx => (false, upgradeCtx)
  match client with
  | .plugin =>
    { l with upgradeCtx := upgradeCtx, connectCfms := l.connectCfms ++ [success] }
  | .other => { l with upgradeCtx := upgradeCtx }

/-- `UpgradeHostIFTransportDisconnect`, which is not told whose request it is. -/
def Library.transportDisconnect (l : Library) : Library :=
  match l.upgradeCtx with
  | some (some .plugin) =>
    { l with upgradeCtx := some none, disconnectCfms := l.disconnectCfms + 1 }
  | some (some .other) => { l with upgradeCtx := some none }
  | _ => l

omit [DecidableEq T] in
/-- What a call of the plugin does to it. -/
def Library.call (l : Library) : Action T → Library
  | .transportConnectRequest => l.transportConnect .plugin
  | .transportDisconnectRequest => l.transportDisconnect
  | _ => l

/-- The confirmations that are outstanding. -/
def Library.outstanding (l : Library) : ℕ := l.connectCfms.length + l.disconnectCfms

/-! ## The plugin and what is around it -/

/-- What happens to the plugin. -/
inductive Event (T : Type)
  /-- The plugin is not told of it: its `transport_connect` is `NULL`. -/
  | transportConnect (t : T)
  | transportDisconnect (t : T)
  | upgradeConnect (t : T)
  | upgradeDisconnect (t : T)
  | upgradeConnectCfm (success : Bool)
  | upgradeDisconnectCfm (success : Bool)
  | upgradeDataInd
  | upgradeInit
  /-- The calls of another client of the library. -/
  | otherConnect
  | otherDisconnect
  | bandwidthThrottle (throttleRequired : Bool)
  | roleChangeStart (t : T)
  | roleChangeCompleted (t : T) (isPrimary : Bool)
  | roleChangeCancelled (t : T)
  /-- The oldest internal message. -/
  | handleInternal
deriving DecidableEq

structure World (T : Type) where
  plugin : Plugin T
  connected : T → Bool
  internal : List Internal
  library : Library
  owed : List (Command × T)

/-- `UpgradeGaiaPlugin_Init`, before any transport connects and before `UpgradeInit`. -/
def World.init : World T where
  plugin := ⟨none, .disconnected, false, 0, none⟩
  connected _ := false
  internal := []
  library := ⟨none, [], 0⟩
  owed := []

/-- What can happen: commands come from transports that are connected. -/
def World.Enabled (w : World T) : Event T → Prop
  | .transportDisconnect t | .upgradeConnect t | .upgradeDisconnect t => w.connected t = true
  | .upgradeConnectCfm success => success ∈ w.library.connectCfms
  | .upgradeDisconnectCfm _ => 0 < w.library.disconnectCfms
  | .upgradeInit => w.library.upgradeCtx = none
  | .handleInternal => w.plugin.lock = 0 ∧ w.internal ≠ []
  | _ => True

instance (w : World T) (e : Event T) : Decidable (w.Enabled e) := by
  cases e <;> unfold World.Enabled <;> infer_instance

/-- The handler that is called. -/
def World.react (w : World T) : Event T → Plugin T × List (Action T)
  | .transportConnect _ | .upgradeInit | .otherConnect | .otherDisconnect => (w.plugin, [])
  | .transportDisconnect t => UpgradePlugin.transportDisconnect w.plugin t
  | .upgradeConnect t => UpgradePlugin.upgradeConnect w.plugin t
  | .upgradeDisconnect t => UpgradePlugin.upgradeDisconnect w.plugin t
  | .upgradeConnectCfm success => UpgradePlugin.upgradeConnectCfm w.plugin success
  | .upgradeDisconnectCfm success => UpgradePlugin.upgradeDisconnectCfm w.plugin success
  | .upgradeDataInd => UpgradePlugin.upgradeDataInd w.plugin
  | .bandwidthThrottle b => UpgradePlugin.bandwidthThrottle w.plugin b
  | .roleChangeStart t => UpgradePlugin.roleChangeStart w.plugin t
  | .roleChangeCompleted t isPrimary => UpgradePlugin.roleChangeCompleted w.plugin t isPrimary
  | .roleChangeCancelled t => UpgradePlugin.roleChangeCancelled w.plugin t
  | .handleInternal =>
    match w.internal with
    | [] => (w.plugin, [])
    | .connectReq :: _ => handleInternalConnect w.plugin
    | .disconnectReq :: _ => handleInternalDisconnect w.plugin

/-- The transports after an event. -/
def World.connectedAfter (w : World T) : Event T → T → Bool
  | .transportConnect t => Function.update w.connected t true
  | .transportDisconnect t => Function.update w.connected t false
  | _ => w.connected

omit [DecidableEq T] in
/-- The transport that a call sends on. -/
def Action.transport : Action T → Option T
  | .sendResponse transport _ | .sendError transport _ |
    .sendNotificationWithTransport transport _ => transport
  | _ => none

omit [DecidableEq T] in
/-- The command that a call answers. -/
def Action.answer : Action T → Option (Command × Option T)
  | .sendResponse transport command | .sendError transport command => some (command, transport)
  | _ => none

/-- A command is accepted unless it is refused at once. -/
def accept (owed : List (Command × T)) (actions : List (Action T)) (command : Command) (t : T) :
    List (Command × T) :=
  if .sendError (some t) command ∈ actions then owed else owed ++ [(command, t)]

/-- Each answer settles one command. -/
def settle (owed : List (Command × T)) (actions : List (Action T)) : List (Command × T) :=
  actions.foldl (fun owed a =>
    match a.answer with
    | some (command, some t) => owed.erase (command, t)
    | _ => owed) owed

/-- The commands without an answer. -/
def World.owedAfter (w : World T) (e : Event T) : List (Command × T) :=
  let actions := (w.react e).2
  match e with
  | .upgradeConnect t => accept w.owed actions .upgradeConnect t
  | .upgradeDisconnect t => accept w.owed actions .upgradeDisconnect t
  | .transportDisconnect t => w.owed.filter fun c => c.2 ≠ t
  | .upgradeConnectCfm _ | .upgradeDisconnectCfm _ => settle w.owed actions
  | _ => w.owed

omit [DecidableEq T] in
/-- The internal message that a call sends. -/
def Action.internal : Action T → Option Internal
  | .sendConditionally message => some message
  | _ => none

/-- The library after an event, and the calls of its handler. -/
def World.libraryAfter (w : World T) (e : Event T) : Library :=
  let l := w.library
  (w.react e).2.foldl Library.call (match e with
    | .upgradeConnectCfm success => { l with connectCfms := l.connectCfms.erase success }
    | .upgradeDisconnectCfm _ => { l with disconnectCfms := l.disconnectCfms - 1 }
    | .upgradeInit => { l with upgradeCtx := some none }
    | .otherConnect => l.transportConnect .other
    | .otherDisconnect => l.transportDisconnect
    | _ => l)

/-- After an event. -/
def World.after (w : World T) (e : Event T) : World T :=
  let actions := (w.react e).2
  { plugin := (w.react e).1
    connected := w.connectedAfter e
    internal := (match e with | .handleInternal => w.internal.tail | _ => w.internal) ++
      actions.filterMap Action.internal
    library := w.libraryAfter e
    owed := w.owedAfter e }

/-- `none` for an event that cannot happen. -/
def World.step (w : World T) (e : Event T) : Option (World T) :=
  if w.Enabled e then some (w.after e) else none

end Model

end Mh40.Gaia.UpgradePlugin
