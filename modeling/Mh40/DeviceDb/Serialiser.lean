import Mh40.Lib.Buffer

/-!
# Device database serialiser

Model of `device_db_serialiser.c` and `device_db_serialiser_pddu.c`: the data that the registered
users keep for a device is stored as one frame, and handed back to them from it.

* A frame is `[0xDB, length]` and its payload; a user's part of the payload is `[id, length]` and
  its data. Each length counts the two octets in front of it. The lengths, the number of users
  and the write offset are `uint8`, the number of octets to allocate is `uint16`.
* A user (`device_db_serialiser_registered_pddu_t`) has a length callback and a callback that
  writes so many octets. What `deser` is called with is recorded as a `DeserCall`.
* A write or a read outside of the frame, and a panic, are `none`.
-/

namespace Mh40.DeviceDb

open Lib.Buffer

/-- A Bluetooth address. -/
structure Bdaddr where
  lap : ℕ
  uap : UInt8
  nap : UInt16

/-- What the serialiser asks of the device list. -/
structure DeviceList (Device : Type) where
  isDeviceOnList : Device → Bool
  bdaddr : Device → Option Bdaddr

/-- A persistent device data user: `ser` writes `getLen` octets. -/
structure Pddu (Device : Type) where
  id : UInt8
  getLen : Device → UInt8
  ser : Device → List UInt8
  length_ser : ∀ device, (ser device).length = (getLen device).toNat

/-- A call of a user's `deser`: the octets from `buf` on, and the length it is told. -/
structure DeserCall where
  id : UInt8
  buf : List UInt8
  dataLength : UInt8
  deriving DecidableEq

def sizeOfTypeAndLen : ℕ := 2

def sizeOfMetadata : ℕ := 2

def typeOffsetInFrame : ℕ := 0

def lenOffsetInFrame : ℕ := 1

def payloadOffsetInFrame : ℕ := sizeOfTypeAndLen

def dbsPddFrameType : UInt8 := 0xDB

variable {Device : Type}

/-! ## Users -/

/-- `registered_pddu_list` and `num_registered_pddus`. -/
structure Registry (Device : Type) where
  registeredPdduList : List (Pddu Device)
  numRegisteredPddus : UInt8

/-- `DeviceDbSerialiser_PdduInit`. -/
def pdduInit : Registry Device := ⟨[], 0⟩

/-- `DeviceDbSerialiser_RegisterPersistentDeviceDataUser`: the list is reallocated to one entry more
than `num_registered_pddus`. -/
def registerPersistentDeviceDataUser (r : Registry Device) (pddu : Pddu Device) :
    Registry Device where
  registeredPdduList := r.registeredPdduList.take r.numRegisteredPddus.toNat ++ [pddu]
  numRegisteredPddus := r.numRegisteredPddus + 1

/-- The entries that the loops over the users reach. -/
def Registry.pddus (r : Registry Device) : List (Pddu Device) :=
  r.registeredPdduList.take r.numRegisteredPddus.toNat

/-- `DeviceDbSerialiser_GetRegisteredPddu`. -/
def getRegisteredPddu (r : Registry Device) (id : UInt8) : Option (Pddu Device) :=
  r.pddus.find? (·.id = id)

/-! ## Lengths -/

/-- The octets of one user in the frame. -/
def pdduPayloadLength (device : Device) (pddu : Pddu Device) : UInt8 :=
  let pddLen := pddu.getLen device
  if pddLen ≠ 0 then pddLen + UInt8.ofNat sizeOfTypeAndLen else pddLen

/-- `DeviceDbSerialiser_GetAllPddusPayloadLengths`. -/
def getAllPddusPayloadLengths (r : Registry Device) (device : Device) : List UInt8 :=
  r.pddus.map (pdduPayloadLength device)

/-- `DeviceDbSerialiser_SumAllPdduPayloads`: a `uint8` sum, returned as a `uint16`. -/
def sumAllPdduPayloads (pddusPayloadLengths : List UInt8) : UInt16 :=
  (pddusPayloadLengths.foldl (fun sumOfIndividualPdduFrames len =>
    sumOfIndividualPdduFrames + len) (0 : UInt8)).toUInt16

/-! ## Serialisation -/

/-- `PS_SIZE_ADJ`: octets in 16-bit words. -/
def psSizeAdj (octets : ℕ) : ℕ := (octets + 1) / 2

/-- `deviceDbSerialiser_createPddFrame`. -/
def createPddFrame (totalLen : UInt16) : List UInt8 :=
  let totalLen := totalLen + UInt16.ofNat sizeOfTypeAndLen
  let wordAdjustedLen := psSizeAdj totalLen.toNat * 2
  ((List.replicate wordAdjustedLen 0).set typeOffsetInFrame dbsPddFrameType).set lenOffsetInFrame
    totalLen.toUInt8

/-- `deviceDbSerialiser_addPdduData`, with `payload` as an offset in the frame. -/
def addPdduData (device : Device) (pddu : Pddu Device) (pddFrame : List UInt8) (payload : ℕ)
    (len : UInt8) : Option (List UInt8) := do
  let pddFrame ← writeAt pddFrame (payload + typeOffsetInFrame) [pddu.id]
  let pddFrame ← writeAt pddFrame (payload + lenOffsetInFrame) [len]
  writeAt pddFrame (payload + payloadOffsetInFrame) (pddu.ser device)

/-- The loop of `DeviceDbSerialiser_PopulatePddFrame` over the users that are left. -/
def populatePddFrameFrom (device : Device) :
    List (Pddu Device × UInt8) → (offset : UInt8) → (pddFrame : List UInt8) → Option (List UInt8)
  | [], _, pddFrame => some pddFrame
  | (currPddu, len) :: rest, offset, pddFrame =>
    if len ≠ 0 then do
      let pddFrame ←
        addPdduData device currPddu pddFrame (payloadOffsetInFrame + offset.toNat) len
      populatePddFrameFrom device rest (offset + len) pddFrame
    else
      populatePddFrameFrom device rest offset pddFrame

/-- `DeviceDbSerialiser_PopulatePddFrame`. -/
def populatePddFrame (r : Registry Device) (device : Device) (pddFrame pddusLen : List UInt8) :
    Option (List UInt8) :=
  populatePddFrameFrom device (r.pddus.zip pddusLen) 0 pddFrame

/-- `deviceDbSerialiser_SerialiseDevice`: the address and the frame it stores, if it stores one. -/
def serialiseDevice (list : DeviceList Device) (r : Registry Device) (device : Device) :
    Option (Option (Bdaddr × List UInt8)) :=
  if !list.isDeviceOnList device then none
  else if r.numRegisteredPddus = 0 then some none
  else
    match list.bdaddr device with
    | none => some none
    | some deviceBdaddr =>
      let pddusPayloadLengths := getAllPddusPayloadLengths r device
      let pddFramePayloadLen := (sumAllPdduPayloads pddusPayloadLengths).toUInt8
      if pddFramePayloadLen ≠ 0 then
        (populatePddFrame r device (createPddFrame pddFramePayloadLen.toUInt16)
          pddusPayloadLengths).map fun pddFrame => some (deviceBdaddr, pddFrame)
      else some none

/-! ## Deserialisation -/

/-- The length that a user is told for a part of `len` octets. -/
def dataLength (len : UInt8) : UInt8 :=
  if sizeOfMetadata > len.toNat then 0 else len - UInt8.ofNat sizeOfMetadata

/-- One part of the payload: the user with its id, if there is one, is handed the data. -/
def deserialisePddu (r : Registry Device) (pddFrame : List UInt8) (payload : ℕ)
    (thisPdduId thisPdduLen : UInt8) : Option (List DeserCall) :=
  match getRegisteredPddu r thisPdduId with
  | some currPddu => do
    let buf ← readAt pddFrame (payload + payloadOffsetInFrame) (dataLength thisPdduLen).toNat
    some [⟨currPddu.id, buf, dataLength thisPdduLen⟩]
  | none => some []

/-- The loop of `deviceDbSerialiser_DeserialisePddFrame` from offset `payload` of the frame on;
`watchdog` parts are left until the `uint8` counter wraps to zero. -/
def deserialisePddFrameFrom (r : Registry Device) (pddFrame : List UInt8) (endOfPddFrame : ℕ) :
    (watchdog payload : ℕ) → Option (List DeserCall)
  | 0, _ => none
  | watchdog + 1, payload =>
    if payload < endOfPddFrame then do
      let thisPdduId ← pddFrame[payload + typeOffsetInFrame]?
      let thisPdduLen ← pddFrame[payload + lenOffsetInFrame]?
      let calls ← deserialisePddu r pddFrame payload thisPdduId thisPdduLen
      let rest ← deserialisePddFrameFrom r pddFrame endOfPddFrame watchdog
        (payload + thisPdduLen.toNat)
      some (calls ++ rest)
    else some []

/-- `deviceDbSerialiser_DeserialisePddFrame`: the `deser` calls it makes, in order. -/
def deserialisePddFrame (r : Registry Device) (pddFrame : List UInt8) : Option (List DeserCall) := do
  let endOfPddFrame ← pddFrame[lenOffsetInFrame]?
  deserialisePddFrameFrom r pddFrame endOfPddFrame.toNat 255 payloadOffsetInFrame

end Mh40.DeviceDb
