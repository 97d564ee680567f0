import Mathlib.Algebra.Order.Ring.Nat
import Mathlib.Data.List.Basic

/-!
# GAIA packets

`libs/gaia/gaia_transport_common.c`: how a packet is built, and how packets are found in the bytes
that arrive. Log messages are left out.

* `buildPacket`: the bytes that are written from the start of the buffer on, `none` for a panic.
* `receivePacket`: the packets at the start of a buffer handed to a callback, and the number of
  bytes consumed; `none` where the loop does not end.
-/

namespace Mh40.Gaia

abbrev Byte := BitVec 8

abbrev Uint16 := BitVec 16

/-- `GAIA_STATUS_NONE`. -/
def statusNone : Byte := 0xFE

/-- `GAIA_SOF`. -/
def sof : Byte := 0xFF

/-- `GAIA_PROTOCOL_FLAG_CHECK`. -/
def flagCheck : Byte := 0x01

/-- `GAIA_PROTOCOL_FLAG_16_BIT_LENGTH`. -/
def flag16BitLength : Byte := 0x02

def offsVersion : ℕ := 1
def offsFlags : ℕ := 2
def offsPayloadLength : ℕ := 3
def offsVendorId (is16 : Bool) : ℕ := if is16 then 5 else 4
def offsCommandId (is16 : Bool) : ℕ := if is16 then 7 else 6
def offsPayload (is16 : Bool) : ℕ := if is16 then 9 else 8

/-- `HIGH`. -/
def high (x : Uint16) : Byte := (x >>> 8).setWidth 8

/-- `LOW`. -/
def low (x : Uint16) : Byte := x.setWidth 8

/-- `W16` of two bytes. -/
def w16 (x y : Byte) : Uint16 := x.setWidth 16 <<< 8 ||| y.setWidth 16

/-- `Gaia_TransportCommonCalcTxPacketLength`. -/
def calcTxPacketLength (sizePayload : Uint16) (status : Byte) : Uint16 :=
  .ofNat 16 (offsPayload false + sizePayload.toNat + (if sizePayload.toNat > 255 then 1 else 0) +
    if status ≠ statusNone then 1 else 0)

/-- `Gaia_TransportCommonCalcRxPacketLength`. -/
def calcRxPacketLength (sizePayload : Uint16) (flags : Byte) : Uint16 :=
  .ofNat 16 (offsPayload false + sizePayload.toNat + (if flags &&& flagCheck ≠ 0 then 1 else 0) +
    if flags &&& flag16BitLength ≠ 0 then 1 else 0)

/-- `Gaia_TransportCommonSetPacketHeader`: the header. -/
def setPacketHeader (protocolVersion : Byte) (pktLength vendorId commandId sizePayload : Uint16)
    (useChecksum : Bool) : Option (List Byte) := do
  let flags := if useChecksum then flagCheck else 0
  let flags ←
    if 255 < sizePayload.toNat then
      if 4 ≤ protocolVersion.toNat then some (flags ||| flag16BitLength) else none
    else some flags
  let size :=
    if flags &&& flag16BitLength ≠ 0 then [high sizePayload, low sizePayload]
    else [low sizePayload]
  let header := [sof, protocolVersion, flags] ++ size ++
    [high vendorId, low vendorId, high commandId, low commandId]
  let packetSize := BitVec.ofNat 16 (header.length + sizePayload.toNat +
    if useChecksum then 1 else 0)
  if packetSize ≠ pktLength then none else some header

/-- The exclusive or of bytes. -/
def checksum (data : List Byte) : Byte := data.foldl (· ^^^ ·) 0

/-- `Gaia_TransportCommonBuildPacket`: the bytes written to the buffer. -/
def buildPacket (protocolVersion : Byte) (pktLength vendorId commandId : Uint16) (status : Byte)
    (payload : List Byte) : Option (List Byte) := do
  let useChecksum := false
  let sizePayload := BitVec.ofNat 16 payload.length
  let totalPayloadSize := sizePayload + if status = statusNone then 0 else 1
  let header ← setPacketHeader protocolVersion pktLength vendorId commandId totalPayloadSize
    useChecksum
  let pkt := header ++ (if status ≠ statusNone then [status] else []) ++ payload
  some (if useChecksum then pkt ++ [checksum pkt] else pkt)

/-! ## Reception -/

/-- What `Gaia_TransportErrorInd` is told. -/
inductive TransportError
  | framingError
  | checksumError
deriving DecidableEq, Repr

/-- What the callback is called with. -/
structure Packet where
  pktSize : Uint16
  vendorId : Uint16
  commandId : Uint16
  payload : List Byte
deriving DecidableEq, Repr

/-- How the reception ended. -/
structure Received (σ : Type) where
  transport : σ
  consumed : ℕ
  error : Option TransportError
deriving DecidableEq, Repr

/-- The loop of `Gaia_TransportCommonReceivePacket`, with `consumed` bytes before `data`. -/
def receiveLoop {σ : Type} (pktCallback : σ → Packet → Bool × σ) :
    ℕ → σ → ℕ → List Byte → Option (Received σ)
  | 0, _, _, _ => none
  | fuel + 1, transport, consumed, data =>
    if data.length ≠ 0 ∧ data.getD 0 0 ≠ sof then some ⟨transport, consumed, some .framingError⟩
    else if offsPayload false ≤ data.length then
      let flags := data.getD offsFlags 0
      let is16Bit := decide (flags &&& flag16BitLength ≠ 0)
      let payloadSize :=
        if is16Bit then w16 (data.getD offsPayloadLength 0) (data.getD (offsPayloadLength + 1) 0)
        else (data.getD offsPayloadLength 0).setWidth 16
      let pktLength := calcRxPacketLength payloadSize flags
      if pktLength.toNat ≤ data.length then
        let chksum := if flags &&& flagCheck ≠ 0 then checksum (data.take pktLength.toNat) else 0
        if chksum = 0 then
          let vendorId := w16 (data.getD (offsVendorId is16Bit) 0)
            (data.getD (offsVendorId is16Bit + 1) 0)
          let commandId := w16 (data.getD (offsCommandId is16Bit) 0)
            (data.getD (offsCommandId is16Bit + 1) 0)
          let payload := (data.drop (offsPayload is16Bit)).take payloadSize.toNat
          let (morePkts, transport) := pktCallback transport ⟨pktLength, vendorId, commandId, payload⟩
          if morePkts then
            receiveLoop pktCallback fuel transport (consumed + pktLength.toNat)
              (data.drop pktLength.toNat)
          else some ⟨transport, consumed, none⟩
        else some ⟨transport, consumed, some .checksumError⟩
      else some ⟨transport, consumed, none⟩
    else some ⟨transport, consumed, none⟩

/-- `Gaia_TransportCommonReceivePacket`. A turn of the loop consumes a byte, or it never ends. -/
def receivePacket {σ : Type} (pktCallback : σ → Packet → Bool × σ) (transport : σ)
    (data : List Byte) : Option (Received σ) :=
  receiveLoop pktCallback (data.length + 1) transport 0 data

end Mh40.Gaia
