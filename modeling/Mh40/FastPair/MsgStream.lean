import Mathlib.Algebra.Order.Ring.Nat
import Mathlib.Data.List.Basic

/-!
# The Fast Pair message stream

`domains/bt/fast_pair/core/fast_pair_msg_stream.c`: how messages are found in the bytes that an
RFCOMM link delivers, and how they are sent; `fastPair_RfcommHandleMoreData` of
`fast_pair_rfcomm.c` is the caller.

* Lengths of received data are those of lists. The code counts them in 16 bits, and a source holds
  fewer bytes than that.
* A callback is known by the group it is registered for; a `Call` records what it is given.
* What is handed to `fastPair_RfcommSendData` counts as sent: the links are up and their sinks take
  it.
* The busy flags, which nothing here reads, and the log texts are left out; the loops around the
  log texts are not.
-/

namespace Mh40.FastPair

abbrev Byte := BitVec 8

abbrev Uint16 := BitVec 16

/-- `FASTPAIR_MESSAGESTREAM_MESSAGE_GROUP`: the groups a callback can be registered for. -/
inductive MessageGroup
  | bluetoothEvent
  | companionAppEvent
  | deviceInformationEvent
  | devcieActionEvent
  | sassEvent
deriving DecidableEq, Repr

/-- `FASTPAIR_MESSAGESTREAM_MESSAGE_GROUP_MAX`. -/
def messageGroupMax : ℕ := 8

/-- The cases of `msgStream_MessageDataToGroup`. -/
def messageGroup (messageGroup : Byte) : Option MessageGroup :=
  match messageGroup.toNat with
  | 1 => some .bluetoothEvent
  | 2 => some .companionAppEvent
  | 3 => some .deviceInformationEvent
  | 4 => some .devcieActionEvent
  | 7 => some .sassEvent
  | _ => none

/-- What a group's callback is called with. -/
structure Call where
  messageGroup : Byte
  fpSeekerNumber : Byte
  data : List Byte
deriving DecidableEq, Repr

/-! ## Reception -/

/-- A callback is registered for the group. -/
def hasCallback (registered : MessageGroup → Bool) (group : Byte) : Bool :=
  (messageGroup group).any registered

/-- `msgStream_MessageDataToGroup`. -/
def messageDataToGroup (registered : MessageGroup → Bool) (group fpSeekerNumber : Byte)
    (data : List Byte) : List Call :=
  if hasCallback registered group then [⟨group, fpSeekerNumber, data⟩] else []

/-- `msgStream_IsValidMeassageGroup`. -/
def isValidMeassageGroup (group : Byte) : Bool :=
  decide (0 < group.toNat) && decide (group.toNat < messageGroupMax)

/-- `FASTPAIR_MESSAGESTREAM_MESSAGE_LENGTH_MINIMUM`. -/
def messageLengthMinimum : ℕ := 4

/-- `additional_data_len`, a `uint8`. -/
def additionalDataLen (receivedData : List Byte) : Byte :=
  if isValidMeassageGroup (receivedData.getD 0 0) then
    .ofNat 8 ((receivedData.getD 2 0).toNat <<< 8 + (receivedData.getD 3 0).toNat)
  else 0

/-- The loop of `msgStream_HandleIncomingData`: the calls made and the processed length. -/
def handleLoop (registered : MessageGroup → Bool) (fpSeekerNumber : Byte) (dataLen : ℕ) :
    ℕ → List Call → ℕ → List Byte → Option (List Call × ℕ)
  | 0, _, _, _ => none
  | fuel + 1, calls, processedLen, receivedData =>
    if messageLengthMinimum ≤ receivedData.length then
      let group := receivedData.getD 0 0
      let len := (additionalDataLen receivedData).toNat + messageLengthMinimum
      if receivedData.length < len then some (calls, processedLen)
      else
        let calls := calls ++
          messageDataToGroup registered group fpSeekerNumber ((receivedData.drop 1).take (len - 1))
        if !isValidMeassageGroup group then some (calls, dataLen)
        else
          handleLoop registered fpSeekerNumber dataLen fuel calls (processedLen + len)
            (receivedData.drop len)
    else some (calls, processedLen)

/-- `msgStream_HandleIncomingData`. Each turn of the loop processes a byte. -/
def handleIncomingData (registered : MessageGroup → Bool) (fpSeekerNumber : Byte)
    (calls : List Call) (data : List Byte) : Option (List Call × ℕ) :=
  if data = [] then some (calls, 0)
  else handleLoop registered fpSeekerNumber data.length (data.length + 1) calls 0 data

/-- `fastPair_RfcommHandleMoreData`, after `chunk` has arrived in the source. -/
def handleMoreData (registered : MessageGroup → Bool) (fpSeekerNumber : Byte)
    (s : List Call × List Byte) (chunk : List Byte) : Option (List Call × List Byte) :=
  let source := s.2 ++ chunk
  if 0 < source.length then
    (handleIncomingData registered fpSeekerNumber s.1 source).map fun r =>
      (r.1, if 0 < r.2 then source.drop r.2 else source)
  else some (s.1, source)

/-! ## Sending -/

/-- What `fastPair_RfcommSendData` is called with. -/
structure Sent where
  data : List Byte
  rfcommInstanceNumber : ℕ
deriving DecidableEq, Repr

/-- `FASTPAIR_RFCOMM_CONNECTIONS_MAX`. -/
def rfcommConnectionsMax : ℕ := 2

/-- `msg_stream_data_len`. -/
def msgStreamDataLen (addData : List Byte) : Uint16 :=
  .ofNat 16 (messageLengthMinimum + addData.length)

/-- The writes to `msg_stream_data`; `none` where they leave the buffer. -/
def fillMessage (group msgCode : Byte) (addData : List Byte) : Option (List Byte) :=
  let addDataLen : Uint16 := .ofNat 16 addData.length
  let message := [group, msgCode, (((addDataLen &&& 0xFF00) >>> 8) &&& 0xFF).setWidth 8,
    (addDataLen &&& 0xFF).setWidth 8] ++ addData
  if message.length ≤ (msgStreamDataLen addData).toNat then some message else none

/-- The loop over the log texts, with a counter of `w` bits. -/
def logLoop {w : ℕ} (len : Uint16) : ℕ → BitVec w → Option Unit
  | 0, _ => none
  | fuel + 1, i => if i.toNat < len.toNat then logLoop len fuel (i + 1) else some ()

/-- `fastPair_MsgStreamSendData`. The counter of its loop is an `int`. -/
def msgStreamSendData (fuel : ℕ) (group msgCode : Byte) (addData : List Byte)
    (fpSeekerNumber : ℕ) : Option (List Sent) := do
  let message ← fillMessage group msgCode addData
  logLoop (w := 32) (msgStreamDataLen addData) fuel 0
  some [⟨message, fpSeekerNumber⟩]

/-- The instances for which `fastPair_RfcommInstanceNumberIsConnected`. -/
def connectedInstances (connected : ℕ → Bool) : List ℕ :=
  (List.range rfcommConnectionsMax).filter connected

/-- `fastPair_MsgStreamSendDataToAll`. The counter of its loop is a `uint8`. -/
def msgStreamSendDataToAll (fuel : ℕ) (connected : ℕ → Bool) (group msgCode : Byte)
    (addData : List Byte) : Option (List Sent) :=
  if (connectedInstances connected).length = 0 then some []
  else do
    let message ← fillMessage group msgCode addData
    logLoop (w := 8) (msgStreamDataLen addData) fuel 0
    some ((connectedInstances connected).map fun rfcommInstance => ⟨message, rfcommInstance + 1⟩)

end Mh40.FastPair
