import Mathlib.Algebra.Order.Ring.Nat
import Mh40.Lib.Buffer

/-!
# DFU protocol cache

Model of `dfu_protocol_data.c`: the circular buffer between the client that has the DFU file and
the upgrade library that requests parts of it.

* The indexes and lengths are `uint16`, the offsets `uint32`. Sums and differences are reduced
  where the code computes them, and `int16` is the conversion to a signed number.
* `PanicFalse` stops the device (`Stop.panic`). An access outside of the buffer, or outside of the
  data of a client, is `Stop.outside`.
* The messages to the client change nothing here and are left out. The buffer is there from
  `DfuProtocol_CreateDataInstance` on.
-/

namespace Mh40.DfuProtocol

open Lib.Buffer

/-- Why an operation does not return. -/
inductive Stop where
  | panic
  | outside
  deriving DecidableEq

def bufferSizeInBytes : ℕ := 2048

/-- `dfu_protocol_data_t`. -/
structure DfuProtocolData where
  buffer : List UInt8
  totalDfuFileSize : ℕ
  readIndex : ℕ
  writeIndex : ℕ
  readOffset : ℕ
  writeOffset : ℕ
  requestedReadOffset : ℕ
  requestedNumberOfBytes : ℕ
  deriving DecidableEq

variable (s : DfuProtocolData)

/-- Conversion to `int16`. -/
def int16 (n : ℕ) : ℤ :=
  let low : ℕ := n % 2 ^ 16
  if low < 2 ^ 15 then low else low - 2 ^ 16

/-- The difference of two `uint32`. -/
def sub32 (a b : ℕ) : ℕ := (a + 2 ^ 32 - b) % 2 ^ 32

/-- `PanicFalse`. -/
def panicFalse (condition : Bool) : Except Stop Unit :=
  if condition then .ok () else .error .panic

/-- A `memcpy` into the buffer. -/
def copyIn (index : ℕ) (data : List UInt8) : Except Stop DfuProtocolData :=
  match writeAt s.buffer index data with
  | some buffer => .ok { s with buffer }
  | none => .error .outside

/-- A `memcpy` from the buffer. -/
def copyOut (index length : ℕ) : Except Stop (List UInt8) :=
  match readAt s.buffer index length with
  | some data => .ok data
  | none => .error .outside

/-- The source of a `memcpy` from the data of a client. -/
def readData (data : List UInt8) (head : ℤ) (length : ℕ) : Except Stop (List UInt8) :=
  if length = 0 then .ok []
  else if 0 ≤ head ∧ head.toNat + length ≤ data.length then
    .ok ((data.drop head.toNat).take length)
  else .error .outside

/-- `dfuProtocol_WillWriteWrap`. -/
def willWriteWrap (lengthToWrite : ℕ) : Bool :=
  let spaceUpToEndOfBuffer := bufferSizeInBytes - s.writeIndex
  s.writeIndex ≥ s.readIndex && s.readIndex ≠ 0 && lengthToWrite > spaceUpToEndOfBuffer

/-- `dfuProtocol_WillReadWrap`. -/
def willReadWrap (lengthToRead : ℕ) : Bool :=
  let dataUpToEndOfBuffer := bufferSizeInBytes - s.readIndex
  s.readIndex > s.writeIndex && s.writeIndex ≠ 0 && lengthToRead > dataUpToEndOfBuffer

/-- `dfuProtocol_IncreaseBufferIndex`. -/
def increaseBufferIndex (index lengthToIncrease : ℕ) : ℕ :=
  let index := (index + lengthToIncrease) % 2 ^ 16
  if index ≥ bufferSizeInBytes then index - bufferSizeInBytes else index

/-- `dfuProtocol_ExpectingFirstChunkOfData`. -/
def expectingFirstChunkOfData : Bool := s.readOffset = 0 && s.writeOffset = 0

/-- `DfuProtocol_GetLengthOfAvailableDataInBytes`. -/
def getLengthOfAvailableDataInBytes : ℕ := sub32 s.writeOffset s.readOffset % 2 ^ 16

/-- The data in front of the write offset, before it is converted to 16 bits. -/
def offsetFromStartOfData (offset : ℕ) : ℕ :=
  if offset ≥ s.writeOffset then 0 else s.writeOffset - offset

/-- `dfuProtocol_IsRequestedDataBeyondTheDataWrite`. -/
def isRequestedDataBeyondTheDataWrite (lengthToWrite offset : ℕ) : Bool :=
  (offset + lengthToWrite) % 2 ^ 32 < s.requestedReadOffset ||
    lengthToWrite < offsetFromStartOfData s offset % 2 ^ 16

/-- The part of `dfuProtocol_PopulateCacheFromBuffer` that copies `length` bytes from `head` on. -/
def storeInCache (data : List UInt8) (head : ℤ) (length : ℕ) :
    Except Stop (Bool × DfuProtocolData) := do
  let freeSpaceInBytes := (bufferSizeInBytes + 2 ^ 16 - getLengthOfAvailableDataInBytes s) % 2 ^ 16
  if freeSpaceInBytes ≥ length then
    let s ← (if willWriteWrap s length then do
        let space := bufferSizeInBytes - s.writeIndex
        let s ← copyIn s s.writeIndex (← readData data head space)
        copyIn s 0 (← readData data (head + space) (length - space))
      else do copyIn s s.writeIndex (← readData data head length))
    return (true, { s with
      writeOffset := (s.writeOffset + length) % 2 ^ 32
      writeIndex := increaseBufferIndex s.writeIndex length })
  else return (false, s)

/-- `dfuProtocol_PopulateCacheFromBuffer`. -/
def populateCacheFromBuffer (data : List UInt8) (offset : ℕ) :
    Except Stop (Bool × DfuProtocolData) := do
  panicFalse (offset ≤ s.writeOffset)
  panicFalse ((s.writeOffset + data.length) % 2 ^ 32 ≤ s.totalDfuFileSize)
  let head := int16 (offsetFromStartOfData s offset)
  storeInCache s data head ((data.length - head) % 2 ^ 16).toNat

/-- `DfuProtocol_WriteData`: the data starts at `offset` of the file. -/
def writeData (data : List UInt8) (offset : ℕ) : Except Stop (Bool × DfuProtocolData) :=
  let s := if expectingFirstChunkOfData s && s.requestedReadOffset < offset then
      { s with writeOffset := offset, readOffset := offset }
    else s
  if isRequestedDataBeyondTheDataWrite s data.length offset then .ok (true, s)
  else populateCacheFromBuffer s data offset

/-- The copy of `dfuProtocol_PopulateBufferFromCache`. -/
def copyFromCache (lengthToRead : ℕ) : Except Stop (List UInt8) :=
  if willReadWrap s lengthToRead then do
    let upToEnd := bufferSizeInBytes - s.readIndex
    return (← copyOut s s.readIndex upToEnd) ++ (← copyOut s 0 (lengthToRead - upToEnd))
  else copyOut s s.readIndex lengthToRead

/-- `dfuProtocol_PopulateBufferFromCache` once the read offset is the requested one. -/
def takeFromCache (lengthToRead : ℕ) : Except Stop (Option (List UInt8) × DfuProtocolData) := do
  panicFalse (lengthToRead ≤ s.requestedNumberOfBytes)
  if lengthToRead ≤ getLengthOfAvailableDataInBytes s then
    let data ← copyFromCache s lengthToRead
    return (some data, { s with
      readOffset := (s.readOffset + lengthToRead) % 2 ^ 32
      requestedReadOffset := (s.requestedReadOffset + lengthToRead) % 2 ^ 32
      readIndex := increaseBufferIndex s.readIndex lengthToRead
      requestedNumberOfBytes := s.requestedNumberOfBytes - lengthToRead })
  else return (none, s)

/-- `dfuProtocol_PopulateBufferFromCache`: the bytes that were read, if any. -/
def populateBufferFromCache (lengthToRead : ℕ) :
    Except Stop (Option (List UInt8) × DfuProtocolData) :=
  let difference := sub32 s.requestedReadOffset s.readOffset
  takeFromCache { s with
    readOffset := s.requestedReadOffset
    readIndex := increaseBufferIndex s.readIndex (difference % 2 ^ 16) } lengthToRead

/-- `DfuProtocol_ReadData`. -/
def dfuProtocolReadData (lengthToRead : ℕ) :
    Except Stop (Option (List UInt8) × DfuProtocolData) := do
  panicFalse ((s.requestedReadOffset + lengthToRead) % 2 ^ 32 ≤ s.totalDfuFileSize)
  if s.requestedReadOffset < s.readOffset then return (none, s)
  else if s.requestedReadOffset ≠ s.readOffset ∧
      (s.requestedReadOffset + lengthToRead) % 2 ^ 32 ≥ s.writeOffset then return (none, s)
  else populateBufferFromCache s lengthToRead

/-- `DfuProtocol_SetRequestedReadOffset`. -/
def setRequestedReadOffset (offset : ℕ) : Except Stop DfuProtocolData := do
  let requested := (s.requestedReadOffset + offset) % 2 ^ 32
  let s := { s with requestedReadOffset := requested }
  panicFalse (requested ≤ s.totalDfuFileSize)
  if requested < s.readOffset then return s
  else if requested ≥ s.writeOffset then
    return { s with
      writeOffset := requested
      readOffset := requested
      writeIndex := 0
      readIndex := 0 }
  else return s

/-- `DfuProtocol_SetRequestedNumberOfBytes`. -/
def setRequestedNumberOfBytes (number : ℕ) : Except Stop DfuProtocolData := do
  panicFalse (s.requestedNumberOfBytes = 0)
  return { s with requestedNumberOfBytes := number }

/-- `DfuProtocol_CreateDataInstance`, after a reset or `DfuProtocol_DestroyDataInstance`. -/
def createDataInstance (totalDfuFileSize : ℕ) : DfuProtocolData :=
  ⟨List.replicate bufferSizeInBytes 0, totalDfuFileSize, 0, 0, 0, 0, 0, 0⟩

end Mh40.DfuProtocol
