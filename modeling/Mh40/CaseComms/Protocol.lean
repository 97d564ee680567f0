import Mathlib

/-!
# Case comms protocol

Model of `cc_protocol.c` over the Scheme B transport (`cc_protocol_trans_schemeB.c`), in case mode.

* The channels are those below `CASECOMMS_CID_MAX`. A channel ID is a number, since the header of a
  message decodes to any three bits.
* The sink is not part of the model: `SinkReply` is what it answers to one message.
* P0 is the list of the messages that it accepted, and the places in it of those whose status
  report is awaited. A report may come for any of them.
* A client is what it transmits from its callbacks.
* A panic is `none`.
-/

namespace Mh40.CaseComms

/-- `CASECOMMS_CID_MAX`. -/
abbrev casecommsCidMax : ℕ := 5

/-- `CASECOMMS_CID_INVALID`. -/
def casecommsCidInvalid : ℕ := 0xF

/-- `cc_dev_t`, also `charger_comms_uart_address`. -/
inductive Dev where
  | case
  | rightEb
  | leftEb
  | broadcast
  deriving DecidableEq

/-- `charger_comms_uart_msg_type`. -/
inductive MsgType where
  | commsData
  | poll
  deriving DecidableEq

/-- `charger_comms_uart_tx_status`. -/
inductive UartTxStatus where
  | success
  | failed
  | invalidReq
  | hwBufferFull
  | timeout
  deriving DecidableEq

/-- `cc_tx_status_t`. -/
inductive TxStatus where
  | success
  | fail
  | timeout
  | unknown
  deriving DecidableEq

/-- `charger_comms_uart_tx_msg_header_t`. -/
structure TxMsgHeader where
  type : MsgType
  destAddress : Dev
  header : UInt8
  deriving DecidableEq

/-- The counts of `cc_chan_config_t`. -/
structure ChanConfig where
  leftOutstandingResponseCount : ℕ
  rightOutstandingResponseCount : ℕ
  deriving DecidableEq

/-- `CC_PROTOCOL_INTERNAL_POLL_LEFT_TIMEOUT` and `CC_PROTOCOL_INTERNAL_POLL_RIGHT_TIMEOUT`. -/
inductive PollId where
  | left
  | right
  deriving DecidableEq

/-- A pending `CC_PROTOCOL_INTERNAL_POLL_TIMEOUT_T`. -/
structure PollTimeout where
  id : PollId
  dest : Dev
  deriving DecidableEq

/-- A message that P0 accepted, with what the client said about it. -/
structure Sent where
  cid : ℕ
  responseReqd : Bool
  hdr : TxMsgHeader
  payload : List UInt8
  deriving DecidableEq

/-- `cc_protocol_t`, its pending poll timers, and P0: the messages that it accepted and the indexes
of those whose status is awaited. -/
structure State where
  channelCfg : Fin casecommsCidMax → ChanConfig
  lastEarbudPolled : Dev
  txFailCount : ℕ
  pollTimers : List PollTimeout
  sent : List Sent
  awaited : List ℕ
  deriving DecidableEq

/-- `CcProtocol_Init`. -/
def init : State := ⟨fun _ => ⟨0, 0⟩, .case, 0, [], [], []⟩

/-! ## Headers -/

def casecommsCidMask : UInt8 := 0x70
def casecommsMidMask : UInt8 := 0x0f

/-- `ccProtocol_CaseCommsGetCID`. -/
def caseCommsGetCID (header : UInt8) : ℕ := ((header &&& casecommsCidMask) >>> 4).toNat

/-- `ccProtocol_CaseCommsSetCID`. -/
def caseCommsSetCID (header : UInt8) (cid : ℕ) : UInt8 :=
  (header &&& ~~~casecommsCidMask) ||| (UInt8.ofNat (cid <<< 4) &&& casecommsCidMask)

/-- `ccProtocol_CaseCommsSetMID`. -/
def caseCommsSetMID (header : UInt8) (mid : ℕ) : UInt8 :=
  (header &&& ~~~casecommsMidMask) ||| (UInt8.ofNat mid &&& casecommsMidMask)

/-! ## Transmission over Scheme B -/

/-- What the sink answers: `SinkSlack`, `SinkClaim` and `SinkFlushHeader`. -/
structure SinkReply where
  slack : ℕ
  claim : ℕ
  flushHeader : Bool
  deriving DecidableEq

/-- `ccProtocol_TransSchemeBTransmit`: the header that goes to P0. -/
def transSchemeBTransmit (sink : SinkReply) (dest : Dev) (cid mid : ℕ) (data : List UInt8) :
    Option TxMsgHeader :=
  if data.length = 0 ∧ cid = casecommsCidInvalid then
    if sink.slack ≠ 0 ∧ sink.flushHeader then some ⟨.poll, dest, 0⟩ else none
  else
    let canSend := data.length = 0 ∨ data.length ≤ sink.slack ∧ sink.claim ≠ 0xffff
    if canSend ∧ sink.flushHeader then
      some ⟨.commsData, dest, caseCommsSetMID (caseCommsSetCID 0 cid) mid⟩
    else none

/-- P0 has the message, and will report its status. -/
def State.send (td : State) (m : Sent) : State :=
  { td with sent := td.sent ++ [m], awaited := td.awaited ++ [td.sent.length] }

/-! ## Polls -/

/-- `ccProtocol_GetChannelConfig`. -/
def getChannelConfig (cid : ℕ) : Option (Fin casecommsCidMax) :=
  if h : cid < casecommsCidMax then some ⟨cid, h⟩ else none

/-- The count of the earbud; the other devices have none. -/
def ChanConfig.outstandingResponseCount (chan : ChanConfig) : Dev → ℕ
  | .leftEb => chan.leftOutstandingResponseCount
  | .rightEb => chan.rightOutstandingResponseCount
  | _ => 0

def ChanConfig.setOutstandingResponseCount (chan : ChanConfig) (dev : Dev) (n : ℕ) : ChanConfig :=
  match dev with
  | .leftEb => { chan with leftOutstandingResponseCount := n }
  | .rightEb => { chan with rightOutstandingResponseCount := n }
  | _ => chan

namespace State

/-- The outstanding responses of an earbud on a channel. -/
def count (td : State) (dev : Dev) (chan : Fin casecommsCidMax) : ℕ :=
  (td.channelCfg chan).outstandingResponseCount dev

def setCount (td : State) (dev : Dev) (chan : Fin casecommsCidMax) (n : ℕ) : State :=
  let config := (td.channelCfg chan).setOutstandingResponseCount dev n
  { td with channelCfg := Function.update td.channelCfg chan config }

/-- The outstanding responses of an earbud over all channels. -/
def outstandingResponseTotal (td : State) (dev : Dev) : ℕ := ∑ chan, td.count dev chan

/-- `MessageCancelFirst` of a poll timer. -/
def messageCancelFirst (td : State) (id : PollId) : State :=
  { td with pollTimers := td.pollTimers.eraseP (·.id = id) }

/-- `MessagePendingFirst` of a poll timer. -/
def messagePendingFirst (td : State) (id : PollId) : Bool := td.pollTimers.any (·.id = id)

end State

/-- The poll timer of an earbud. -/
def pollId : Dev → PollId
  | .leftEb => .left
  | _ => .right

/-- `ccProtocol_GetEarbudToPoll`. -/
def getEarbudToPoll (td : State) : Option Dev :=
  let left := td.outstandingResponseTotal .leftEb
  let right := td.outstandingResponseTotal .rightEb
  if left ≠ 0 ∧ right = 0 then some .leftEb
  else if left = 0 ∧ right > 0 then some .rightEb
  else if left > 0 ∧ right > 0 then
    if td.lastEarbudPolled = .leftEb then some .rightEb else some .leftEb
  else none

/-- `ccProtocol_ModifyPollRequired`. -/
def modifyPollRequired (td : State) (dev : Dev) (cid : ℕ) (incr : Bool) : Option State :=
  match getChannelConfig cid with
  | none => some td
  | some chan =>
    if dev ≠ .rightEb ∧ dev ≠ .leftEb then none
    else if incr then
      if td.count dev chan < 0xff then some (td.setCount dev chan (td.count dev chan + 1)) else none
    else
      let td := if td.count dev chan > 0 then td.setCount dev chan (td.count dev chan - 1) else td
      -- the count of this channel only
      if td.count dev chan = 0 then some (td.messageCancelFirst (pollId dev)) else some td

/-- `ccProtocol_SchedulePollIfRequired`. -/
def schedulePollIfRequired (td : State) : State :=
  match getEarbudToPoll td with
  | none => td
  | some dest =>
    if td.messagePendingFirst (pollId dest) then td
    else { td with pollTimers := td.pollTimers ++ [⟨pollId dest, dest⟩] }

/-- `ccProtocol_HandlePollTimer`. -/
def handlePollTimer (td : State) (poll : PollTimeout) (sink : SinkReply) : State :=
  match getEarbudToPoll td with
  | none => td
  | some _ =>
    match transSchemeBTransmit sink poll.dest casecommsCidInvalid 0 [] with
    | some hdr =>
      { td.send ⟨casecommsCidInvalid, false, hdr, []⟩ with lastEarbudPolled := poll.dest }
    | none => schedulePollIfRequired td

/-! ## Transmits, status reports and packets -/

/-- A call of `CcProtocol_Transmit` (`responseReqd`) or of `CcProtocol_TransmitNotification`. -/
structure Transmission where
  dest : Dev
  cid : ℕ
  mid : ℕ
  data : List UInt8
  responseReqd : Bool
  sink : SinkReply
  deriving DecidableEq

/-- What P0 gets of the transmission, when the sink takes it. -/
def Transmission.accepted? (t : Transmission) : Option Sent :=
  (transSchemeBTransmit t.sink t.dest t.cid t.mid t.data).map fun hdr =>
    ⟨t.cid, t.responseReqd, hdr, t.data⟩

/-- `ccProtocol_TransmitInternal`. -/
def transmitInternal (td : State) (t : Transmission) : Option State :=
  match t.accepted? with
  | none => some td
  | some m =>
    if t.responseReqd then modifyPollRequired (td.send m) t.dest t.cid true else some (td.send m)

/-- The transmissions that a client makes in a callback. -/
def transmitAll : State → List Transmission → Option State
  | td, [] => some td
  | td, t :: ts => (transmitInternal td t).bind fun td => transmitAll td ts

/-- `CcProtocol_ConfigNumFailsToReset`. -/
def configNumFailsToReset : ℕ := 1

/-- `ccProtocol_CommsUartStatusToCcStatus`. -/
def commsUartStatusToCcStatus : UartTxStatus → TxStatus
  | .success => .success
  | .timeout => .timeout
  | _ => .fail

/-- `ccProtocol_CheckAckNakReset`. -/
def checkAckNakReset (td : State) : TxStatus → State
  | .success => { td with txFailCount := 0 }
  | .fail =>
    let txFailCount := (td.txFailCount + 1) % 2 ^ 8
    { td with txFailCount := if txFailCount = configNumFailsToReset then 0 else txFailCount }
  | _ => td

/-- `ccProtocol_SendStatusToClient`; `client` is what `tx_sts` transmits. -/
def sendStatusToClient (td : State) (status : TxStatus) (cid : ℕ) (client : List Transmission) :
    Option State :=
  let td := checkAckNakReset td status
  match getChannelConfig cid with
  | none => some td
  | some _ => transmitAll td client

/-- `ccProtocol_HandleMessageChargercommsUartStatus`. -/
def handleUartStatus (td : State) (status : UartTxStatus) (hdr : TxMsgHeader)
    (client : List Transmission) : Option State := do
  let cid := caseCommsGetCID hdr.header
  let td ← (if status ≠ .success ∧ (hdr.destAddress = .leftEb ∨ hdr.destAddress = .rightEb) then
    modifyPollRequired td hdr.destAddress cid false else some td)
  let td ← (if hdr.type = .commsData then
    sendStatusToClient td (commsUartStatusToCcStatus status) cid client else some td)
  some (schedulePollIfRequired td)

/-- `ccProtocol_SendRXPacketToClient`; `client` is what `rx_ind` transmits. -/
def sendRXPacketToClient (td : State) (cid : ℕ) (sourceDev : Dev) (client : List Transmission) :
    Option State := do
  let td ← (match getChannelConfig cid with
    | none => some td
    | some _ => transmitAll td client)
  modifyPollRequired td sourceDev cid false

/-! ## Runs -/

/-- What can happen. -/
inductive Event where
  /-- A client transmits. -/
  | transmit (t : Transmission)
  /-- P0 reports the status of the message at an index of those it accepted. -/
  | status (i : ℕ) (status : UartTxStatus) (client : List Transmission)
  /-- A packet comes in, with its case comms header. -/
  | receive (sourceDev : Dev) (header : UInt8) (client : List Transmission)
  /-- A poll timer expires. -/
  | pollTimer (id : PollId) (sink : SinkReply)

/-- One event; `none` is a panic, or an event that cannot happen. -/
def step (td : State) : Event → Option State
  | .transmit t => transmitInternal td t
  | .status i status client =>
    if i ∈ td.awaited then
      (td.sent[i]?).bind fun m =>
        handleUartStatus { td with awaited := td.awaited.erase i } status m.hdr client
    else none
  | .receive sourceDev header client =>
    sendRXPacketToClient td (caseCommsGetCID header) sourceDev client
  | .pollTimer id sink =>
    (td.pollTimers.find? (·.id = id)).map fun poll =>
      handlePollTimer (td.messageCancelFirst id) poll sink

end Mh40.CaseComms
