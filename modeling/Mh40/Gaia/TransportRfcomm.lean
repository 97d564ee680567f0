import Mh40.Gaia.TransportCommon

/-!
# The RFCOMM transport

`domains/gaia/gaia_transport/gaia_transport_rfcomm.c`: the reception of packets. A packet is
dispatched to the upper layers, which report later that they have handled it, in any order, and the
source is dropped when all have been handled. Sending, SDP records and the handover are left out,
as are log messages.

* `Rfcomm`: a connected transport, its source, and what it has done so far.
* `step`: an event, `none` for an event that cannot happen, a panic or a loop that does not end.
  The sink of a connected transport is registered with the transport manager, and
  `TransportMgrDisconnect` accepts it.
-/

namespace Mh40.Gaia

/-- The states of a transport that has been connected. -/
inductive TransportState
  | started
  | connected
  | disconnecting
  | error
deriving DecidableEq, Repr

/-- What the transport does, and what is reported to it. -/
inductive Entry
  | /-- `Gaia_ProcessCommand`, which queues the command. -/
    processCommand (packet : Packet)
  | /-- The report that a packet has been handled: the packets are numbered as dispatched. -/
    packetHandled (index : ℕ)
  | /-- Bytes taken off the source, behind the packets that covered them. -/
    dataConsumed (data : List Byte)
  | /-- Bytes taken off the source unseen. -/
    inputFlushed (data : List Byte)
  | disconnectCfm (success : Bool)
  | disconnectInd
deriving DecidableEq, Repr

/-- `GAIA_TRANSPORT_RFCOMM_MAX_RX_PENDING_PKTS`. -/
def maxRxPendingPkts : ℕ := 2

/-- `gaia_transport_rfcomm_t`, and the source of its sink. -/
structure Rfcomm where
  state : TransportState
  rxPacketsPending : Byte
  rxDataPending : Uint16
  source : List Byte
  log : List Entry
deriving DecidableEq, Repr

namespace Rfcomm

variable (tr : Rfcomm)

/-- `Gaia_TransportIsConnected`. -/
def isConnected : Bool := decide (tr.state = .connected)

/-- `TransportMgrDataConsumed`. -/
def dataConsumed (dataLength : ℕ) : Rfcomm :=
  if dataLength ≤ tr.source.length then
    { tr with
      source := tr.source.drop dataLength
      log := tr.log ++ [.dataConsumed (tr.source.take dataLength)] }
  else tr

/-- `gaiaTransport_RfcommFlushInput`. -/
def flushInput : Rfcomm :=
  if tr.source.length ≠ 0 then
    { tr with
      source := []
      log := tr.log ++ [.inputFlushed tr.source] }
  else tr

/-- `Gaia_TransportErrorInd` and `gaiaTransport_RfcommError`. -/
def errorInd : Rfcomm := { tr with state := .error }

/-- `gaiaTransport_RfcommProcessCommand`. -/
def processCommand (packet : Packet) : Bool × Rfcomm :=
  let tr := { tr with
    rxDataPending := tr.rxDataPending + packet.pktSize
    rxPacketsPending := tr.rxPacketsPending + 1
    log := tr.log ++ [.processCommand packet] }
  (decide (tr.rxPacketsPending.toNat < maxRxPendingPkts), tr)

/-- `gaiaTransport_RfcommReceivePacket`. -/
def receivePacket : Option Rfcomm :=
  if tr.rxDataPending = 0 then
    if tr.source.length ≠ 0 then do
      let received ← Gaia.receivePacket processCommand tr tr.source
      match received.error with
      | none => some received.transport
      | some _ => some received.transport.errorInd
    else some tr
  else some tr

/-- `gaiaTransport_RfcommPacketHandled`. -/
def packetHandled (index : ℕ) : Option Rfcomm :=
  if 0 < tr.rxPacketsPending.toNat then
    let tr := { tr with
      rxPacketsPending := tr.rxPacketsPending - 1
      log := tr.log ++ [.packetHandled index] }
    if tr.rxPacketsPending = 0 then
      let tr := { tr.dataConsumed tr.rxDataPending.toNat with rxDataPending := 0 }
      let tr := if tr.isConnected then tr else tr.flushInput
      tr.receivePacket
    else some tr
  else none

/-- `Gaia_TransportDisconnectReq`. -/
def disconnectReq : Rfcomm :=
  if tr.state = .connected then { tr with state := .disconnecting }
  else { tr with log := tr.log ++ [.disconnectCfm false] }

/-- `Gaia_TransportDisconnectCfm`. -/
def disconnectCfm (success : Bool) : Rfcomm :=
  { tr with
    state := if success then .started else tr.state
    log := tr.log ++ [.disconnectCfm success] }

/-- `Gaia_TransportDisconnectInd`. -/
def disconnectInd : Rfcomm :=
  { tr with
    state := .started
    log := tr.log ++ [if tr.state = .disconnecting then .disconnectCfm true else .disconnectInd] }

/-- `gaiaTransport_RfcommHandleTransportMgrLinkDisconnectedCfm`, and whether the message is sent
again, for when `rx_data_pending` is zero. -/
def linkDisconnectedCfm (status : Bool) : Rfcomm × Bool :=
  if status then
    if tr.rxDataPending ≠ 0 then (tr, true)
    else
      let tr := tr.flushInput
      (if tr.state = .disconnecting then tr.disconnectCfm true else tr.disconnectInd, false)
  else (tr.disconnectCfm false, false)

end Rfcomm

/-! ## Events -/

/-- The packets that have been dispatched. -/
def dispatched (log : List Entry) : List Packet :=
  log.filterMap fun
    | .processCommand packet => some packet
    | _ => none

/-- The numbers of the packets that have been handled. -/
def handled (log : List Entry) : List ℕ :=
  log.filterMap fun
    | .packetHandled index => some index
    | _ => none

/-- The transport, and what is on its way to it. -/
structure System where
  tr : Rfcomm
  /-- The bytes that the phone has yet to send. -/
  incoming : List Byte
  /-- `TRANSPORT_MGR_MORE_DATA` is outstanding. -/
  moreData : Bool
  /-- The `TRANSPORT_MGR_LINK_DISCONNECTED_CFM` that wait for `rx_data_pending`. -/
  deferred : ℕ
deriving DecidableEq, Repr

/-- A link has been created: the transport is about to look for data that is already there. -/
def System.init (stream : List Byte) : System := ⟨⟨.connected, 0, 0, [], []⟩, stream, true, 0⟩

inductive Event
  | /-- The next bytes arrive in the source. -/
    arrive (n : ℕ)
  | /-- `TRANSPORT_MGR_MORE_DATA` is delivered. -/
    moreData
  | /-- The upper layers have handled a packet. -/
    packetHandled (index : ℕ)
  | disconnectReq
  | /-- A packet to send does not fit into the sink. -/
    insufficientSpace
  | linkDisconnectedCfm (status : Bool)
  | /-- A `TRANSPORT_MGR_LINK_DISCONNECTED_CFM` that had to wait is delivered. -/
    deferredCfm
deriving DecidableEq, Repr

/-- What can happen: the source holds less than 64 KiB, a packet is handled once after it has been
dispatched, and nothing is sent unless connected. -/
def Enabled (s : System) : Event → Prop
  | .arrive n => n ≤ s.incoming.length ∧ s.tr.source.length + n < 2 ^ 16
  | .moreData => s.moreData = true
  | .packetHandled index => index < (dispatched s.tr.log).length ∧ index ∉ handled s.tr.log
  | .insufficientSpace => s.tr.isConnected = true
  | .deferredCfm => 0 < s.deferred ∧ s.tr.rxDataPending = 0
  | _ => True

instance (s : System) (event : Event) : Decidable (Enabled s event) := by
  cases event <;> unfold Enabled <;> infer_instance

/-- An event that can happen. -/
def handle (s : System) : Event → Option System
  | .arrive n =>
    some { s with
      tr := { s.tr with source := s.tr.source ++ s.incoming.take n }
      incoming := s.incoming.drop n
      moreData := true }
  | .moreData => s.tr.receivePacket.map fun tr => { s with tr := tr, moreData := false }
  | .packetHandled index => (s.tr.packetHandled index).map fun tr => { s with tr := tr }
  | .disconnectReq => some { s with tr := s.tr.disconnectReq }
  | .insufficientSpace => some { s with tr := s.tr.errorInd }
  | .linkDisconnectedCfm status =>
    let (tr, again) := s.tr.linkDisconnectedCfm status
    some { s with tr := tr, deferred := s.deferred + if again then 1 else 0 }
  | .deferredCfm =>
    let (tr, again) := s.tr.linkDisconnectedCfm true
    some { s with tr := tr, deferred := s.deferred - 1 + if again then 1 else 0 }

/-- An event. -/
def step (s : System) (event : Event) : Option System :=
  if Enabled s event then handle s event else none

end Mh40.Gaia
