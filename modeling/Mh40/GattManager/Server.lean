import Mathlib.Data.List.Basic

/-!
# The server side of the GATT manager

`gatt_manager_server.c` and the server functions of `gatt_manager_data.c`: servers register for
ranges of handles, access indications of the GATT library go to the task of the range, and answers
come back. A prepared write raises the flag of its server, or that of the application where no
server is registered; an execute goes to all flagged tasks, and the last of them to answer makes
the response to the library.

* `GattManagerData`: the part of `gatt_manager_data` that the functions read.
* `addServer`, `registerServer`: how the table of servers is built.
* `serverAccessInd`: `gattManagerServerAccessInd`, with the messages that it sends.
* `serverAccessResponse`: `GattManagerServerAccessResponse`, with what reaches the library.

The manager is initialised and its database registered; `realloc` succeeds, so the table, which
has to fit into memory, keeps its count and the indexes of the loops within 16 bits.
-/

namespace Mh40.GattManager

/-- `Task`, 0 for `NULL`. -/
abbrev Task := ℕ

/-- `gatt_status_success`. -/
def gattStatusSuccess : BitVec 16 := 0

/-- `ATT_ACCESS_WRITE`. -/
def attAccessWrite : BitVec 16 := 0x0002

/-- `ATT_ACCESS_WRITE_COMPLETE`. -/
def attAccessWriteComplete : BitVec 16 := 0x4000

/-- `gatt_manager_server_lookup_data_t`. -/
structure ServerLookupData where
  task : Task
  startHandle : BitVec 16
  endHandle : BitVec 16
  pendingWrite : Bool
deriving DecidableEq, Repr

/-- The handle is in the range of the server. -/
def ServerLookupData.Holds (s : ServerLookupData) (handle : BitVec 16) : Prop :=
  s.startHandle ≤ handle ∧ handle ≤ s.endHandle

instance (s : ServerLookupData) (handle : BitVec 16) : Decidable (s.Holds handle) :=
  inferInstanceAs (Decidable (_ ∧ _))

/-- `struct __gatt_manager_data`. -/
structure GattManagerData where
  applicationTask : Task
  serverLookup : List ServerLookupData
  executeWriteResult : BitVec 16
  applicationPendingWrite : Bool
deriving DecidableEq, Repr

/-! ## Registration -/

/-- `gattManagerDataInit`. -/
def dataInit (applicationTask : Task) : GattManagerData := ⟨applicationTask, [], 0, false⟩

/-- `gatt_manager_server_registration_params_t`. -/
structure ServerRegistrationParams where
  task : Task
  startHandle : BitVec 16
  endHandle : BitVec 16
deriving DecidableEq, Repr

/-- `serverRegistrationParamsValid`. -/
def serverRegistrationParamsValid (server : ServerRegistrationParams) : Bool :=
  !(server.endHandle == 0 || server.startHandle == 0 || server.task == 0)

/-- `gattManagerDataServerHandlesValid`: neither end is in the range of a server. -/
def serverHandlesValid (d : GattManagerData) (server : ServerRegistrationParams) : Bool :=
  d.serverLookup.all fun s =>
    !(decide (s.Holds server.startHandle) || decide (s.Holds server.endHandle))

/-- `gattManagerDataAddServer`. -/
def addServer (d : GattManagerData) (server : ServerRegistrationParams) : Bool × GattManagerData :=
  if serverHandlesValid d server then
    (true, { d with serverLookup := d.serverLookup ++
      [⟨server.task, server.startHandle, server.endHandle, false⟩] })
  else (false, d)

/-- `GattManagerRegisterServer`, whether it succeeds. -/
def registerServer (d : GattManagerData) (server : ServerRegistrationParams) :
    Bool × GattManagerData :=
  if serverRegistrationParamsValid server then addServer d server else (false, d)

/-- The manager after a number of registrations. -/
def registered (applicationTask : Task) (servers : List ServerRegistrationParams) :
    GattManagerData :=
  servers.foldl (fun d server => (registerServer d server).2) (dataInit applicationTask)

/-! ## Handles and flags -/

/-- `gattManagerDataGetServerDatabaseHandle`, 0 when the task has no such handle. -/
def getServerDatabaseHandle (d : GattManagerData) (task : Task) (handle : BitVec 16) : BitVec 16 :=
  if task = 0 then 0
  else match d.serverLookup.find? fun s =>
      s.task == task && decide (s.Holds (s.startHandle - 1 + handle)) with
    | some s => s.startHandle - 1 + handle
    | none => 0

/-- `gattManagerDataResolveServerHandle`: the task and the adjusted handle. -/
def resolveServerHandle (d : GattManagerData) (handle : BitVec 16) : Option (Task × BitVec 16) :=
  (d.serverLookup.find? fun s => decide (s.Holds handle)).map fun s =>
    (s.task, handle - s.startHandle + 1)

/-- `gattManagerDataSetServerPendingWriteFlag`: every server with the handle in its range. -/
def setServerPendingWriteFlag (d : GattManagerData) (handle : BitVec 16) : GattManagerData :=
  { d with serverLookup := d.serverLookup.map fun s =>
      if s.Holds handle then { s with pendingWrite := true } else s }

/-- `gattManagerDataSetApplicationPendingWriteFlag`. -/
def setApplicationPendingWriteFlag (d : GattManagerData) : GattManagerData :=
  { d with applicationPendingWrite := true }

/-- The walk of `gattManagerDataServerIteratorPrepareWriteFlagsNext`: the tasks of the flagged
servers, then the application. -/
def prepareWriteFlags (d : GattManagerData) : List Task :=
  (d.serverLookup.filter ServerLookupData.pendingWrite).map ServerLookupData.task ++
    if d.applicationPendingWrite then [d.applicationTask] else []

/-- `gattManagerDataServerGetPrepareWriteFlag`: the flag of the first server of the task. The table
is `NULL` until a server is registered. -/
def serverGetPrepareWriteFlag (d : GattManagerData) (task : Task) : Bool :=
  if d.serverLookup = [] then false
  else match d.serverLookup.find? fun s => task == s.task with
    | some s => s.pendingWrite
    | none => if task = d.applicationTask then d.applicationPendingWrite else false

/-- `gattManagerDataServerSetExecuteWriteResult`. -/
def serverSetExecuteWriteResult (d : GattManagerData) (result : BitVec 16) : GattManagerData :=
  { d with executeWriteResult := result }

/-- `gattManagerDataServerClearPrepareWriteFlag`: whether no flag of another task is left. -/
def serverClearPrepareWriteFlag (d : GattManagerData) (task : Task) : Bool × GattManagerData :=
  if d.serverLookup = [] then (false, d)
  else
    let clear := d.serverLookup.all fun s => task == s.task || !s.pendingWrite
    let d := { d with serverLookup := d.serverLookup.map fun s =>
      if task = s.task then { s with pendingWrite := false } else s }
    if task = d.applicationTask then (clear, { d with applicationPendingWrite := false })
    else (clear && !d.applicationPendingWrite, d)

/-! ## Access indications and responses -/

/-- `GATT_ACCESS_IND_T`, and the message `GATT_MANAGER_SERVER_ACCESS_IND` to a server. -/
structure AccessInd where
  cid : BitVec 16
  handle : BitVec 16
  flags : BitVec 16
  offset : BitVec 16
  value : List (BitVec 8)
deriving DecidableEq, Repr

/-- The write is a prepared one: `pending_write`. -/
def AccessInd.isPendingWrite (ind : AccessInd) : Bool :=
  ind.flags &&& (attAccessWrite ||| attAccessWriteComplete) == attAccessWrite

/-- `gattManagerServerAccessInd`: the messages to the servers, and the manager after them. -/
def serverAccessInd (d : GattManagerData) (ind : AccessInd) :
    List (Task × AccessInd) × GattManagerData :=
  if ind.handle ≠ 0 then
    match resolveServerHandle d ind.handle with
    | some (task, adjusted) =>
      ([(task, { ind with handle := adjusted })],
        if ind.isPendingWrite then setServerPendingWriteFlag d ind.handle else d)
    | none =>
      ([(d.applicationTask, ind)],
        if ind.isPendingWrite then setApplicationPendingWriteFlag d else d)
  else ((prepareWriteFlags d).map fun task => (task, ind), d)

/-- `remoteClientValid`. -/
def remoteClientValid (task : Task) (cid handle : BitVec 16) : Bool :=
  task != 0 || cid != 0 || handle != 0

/-- The arguments of `GattAccessResponse`. -/
structure GattAccessResponse where
  cid : BitVec 16
  handle : BitVec 16
  result : BitVec 16
  value : List (BitVec 8)
deriving DecidableEq, Repr

/-- What a call of `GattManagerServerAccessResponse` does. -/
structure AccessResponse where
  accepted : Bool
  response : Option GattAccessResponse
  data : GattManagerData

/-- `GattManagerServerAccessResponse`. -/
def serverAccessResponse (d : GattManagerData) (task : Task) (cid handle result : BitVec 16)
    (value : List (BitVec 8)) : AccessResponse :=
  if !remoteClientValid task cid handle then ⟨false, none, d⟩
  else if handle = 0 then
    if !serverGetPrepareWriteFlag d task then ⟨false, none, d⟩
    else
      let d := if result ≠ gattStatusSuccess then serverSetExecuteWriteResult d result else d
      let (clear, d) := serverClearPrepareWriteFlag d task
      if clear then ⟨true, some ⟨cid, 0, d.executeWriteResult, value⟩, d⟩
      else ⟨true, none, d⟩
  else
    let adjusted := getServerDatabaseHandle d task handle
    ⟨true, some ⟨cid, if adjusted = 0 then handle else adjusted, result, value⟩, d⟩

end Mh40.GattManager
