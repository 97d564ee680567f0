/-!
# The RWCP server

Model of `rwcp_server.c`. The service data keeps the fields the protocol reads: the state, the
temporary mute of GAP replies (`out_of_sequence_status`), the last acknowledged number and the flow
control flag; `client_task` and `rwcp_upgrade_header_size` are stored and never read.

A function that calls out returns the list of its calls in order: `Output.notification` is
`GaiaRwcpSendNotification` on the one header byte, `Output.processCommand` is
`GaiaRwcpProcessCommand`. A received message is its header byte and the bytes after it, so `size`
is one more than the payload's length; `none` is the NULL pointer.
-/

namespace Mh40.Rwcp

/-- `rwcp_protocol_state`. -/
inductive ProtocolState where
  | listen
  | synRcvd
  | established
  deriving Repr, DecidableEq

/-- `rwcp_data_pkts_t`. -/
inductive DataPkt where
  | inSequence
  | duplicate
  | outOfSequence
  | discarded
  deriving Repr, DecidableEq

/-- `SERVER_DATA_T`. -/
structure ServerData where
  protocolState : ProtocolState
  outOfSequenceStatus : Bool
  lastSequenceNumber : UInt8
  acceptSegments : Bool
  deriving Repr, DecidableEq

/-- A call out of the server. -/
inductive Output where
  | notification (header : UInt8)
  | processCommand (command : List UInt8)
  deriving Repr, DecidableEq

/-- A received message: `data[RWCP_HEADER_OFFSET]` and the bytes from `RWCP_PAYLOAD_OFFSET`. -/
structure Segment where
  header : UInt8
  payload : List UInt8
  deriving Repr, DecidableEq

def commandMask : UInt8 := 0xc0
def sequenceMask : UInt8 := 0x3f
def sequenceNumberMax : Nat := 64
def receiveWindowMax : Nat := 32

/-! ## Commands -/

def clientCmdData : UInt8 := 0x00
def clientCmdSyn : UInt8 := 0x40
def clientCmdRst : UInt8 := 0x80

def serverCmdDataAck : UInt8 := 0x00
def serverCmdSynAck : UInt8 := 0x40
def serverCmdRst : UInt8 := 0x80
def serverCmdGap : UInt8 := 0xc0

/-! ## Notifications -/

def rwcpSendNotification (sequence command : UInt8) : Output :=
  .notification ((sequence &&& sequenceMask) ||| (command &&& commandMask))

def rwcpDataAck (sequence : UInt8) : Output := rwcpSendNotification sequence serverCmdDataAck
def rwcpRstAck (sequence : UInt8) : Output := rwcpSendNotification sequence serverCmdRst
def rwcpRst (sequence : UInt8) : Output := rwcpSendNotification sequence serverCmdRst
def rwcpSynAck (sequence : UInt8) : Output := rwcpSendNotification sequence serverCmdSynAck
def rwcpGap (sequence : UInt8) : Output := rwcpSendNotification sequence serverCmdGap

/-! ## Sequence numbers -/

/-- The argument of the C function is unused: it reads the stored number. -/
def nextExpectedSequenceNumber (s : ServerData) : UInt8 :=
  UInt8.ofNat ((s.lastSequenceNumber.toNat + 1) % sequenceNumberMax)

def isNextSequence (s : ServerData) (sequence : UInt8) : Bool :=
  sequence == nextExpectedSequenceNumber s

/-- `norm` is computed in `int` (the remainder truncates) and stored in a `uint16`. -/
def isOutOfSequence (s : ServerData) (sequence : UInt8) : Bool :=
  let norm := (((sequence.toNat : Int) - s.lastSequenceNumber.toNat + sequenceNumberMax).tmod
    sequenceNumberMax) % 65536
  decide (0 < norm ∧ norm ≤ receiveWindowMax)

/-! ## Segments -/

/-- `handleDataSegment`: the acknowledgement is sent before the payload is passed on. -/
def handleDataSegment (s : ServerData) (sequence : UInt8) (payload : List UInt8) :
    ServerData × List Output × DataPkt :=
  if s.acceptSegments then
    if isNextSequence s sequence then
      ({ s with outOfSequenceStatus := false, lastSequenceNumber := sequence },
        [rwcpDataAck sequence, .processCommand payload], .inSequence)
    else if isOutOfSequence s sequence then
      if !s.outOfSequenceStatus then
        ({ s with outOfSequenceStatus := true }, [rwcpGap s.lastSequenceNumber], .outOfSequence)
      else
        (s, [], .outOfSequence)
    else
      -- a duplicate is acknowledged again: the earlier acknowledgement may be lost
      (s, [rwcpDataAck sequence], .duplicate)
  else
    (s, [], .discarded)

def isRwcpControlCmd (command : UInt8) : Bool :=
  command == clientCmdSyn || command == clientCmdRst

/-- The `switch` over state and command of `RwcpServerHandleMessage`, for a decoded header. The
packet kind is `RWCP_DATA_PKT_IN_SEQUENCE` where no data segment is handled. -/
def handleSegment (s : ServerData) (sequence command : UInt8) (payload : List UInt8) :
    ServerData × List Output × DataPkt :=
  match s.protocolState with
  | .listen =>
    if command = clientCmdSyn then
      ({ s with lastSequenceNumber := sequence, protocolState := .synRcvd },
        [rwcpSynAck sequence], .inSequence)
    else if command = clientCmdRst then
      (s, [rwcpRstAck sequence], .inSequence)
    else
      (s, [rwcpRst sequence], .inSequence)
  | .synRcvd =>
    if command = clientCmdSyn then
      ({ s with lastSequenceNumber := sequence }, [rwcpSynAck sequence], .inSequence)
    else if command = clientCmdRst then
      ({ s with protocolState := .listen }, [rwcpRstAck sequence], .inSequence)
    else if command = clientCmdData then
      let r := handleDataSegment { s with outOfSequenceStatus := false } sequence payload
      ({ r.1 with protocolState := .established }, r.2)
    else
      ({ s with protocolState := .listen }, [rwcpRst sequence], .inSequence)
  | .established =>
    if command = clientCmdRst then
      ({ s with protocolState := .listen }, [rwcpRstAck sequence], .inSequence)
    else if command = clientCmdData then
      handleDataSegment s sequence payload
    else
      ({ s with protocolState := .listen }, [rwcpRst sequence], .inSequence)

/-- `RwcpServerHandleMessage`. The result is FALSE where nothing was passed on and further packets
may be read at once. -/
def rwcpServerHandleMessage (s : ServerData) : Option Segment → ServerData × List Output × Bool
  | none => (s, [], false)
  | some data =>
    let sequence := data.header &&& sequenceMask
    let command := data.header &&& commandMask
    let r := handleSegment s sequence command data.payload
    (r.1, r.2.1, !(isRwcpControlCmd command || r.2.2 == .outOfSequence || r.2.2 == .duplicate))

/-- `RwcpServerFlowControl`. -/
def rwcpServerFlowControl (s : ServerData) (accept : Bool) : ServerData :=
  { s with acceptSegments := accept }

end Mh40.Rwcp
