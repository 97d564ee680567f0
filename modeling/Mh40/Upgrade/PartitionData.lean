import Mh40.Upgrade.Flash

/-!
# Upgrade file parser

Model of `upgrade_partition_data.c` and `upgrade_partition_data_config.c`, with what they call of
`upgrade_fw_if.c` and `upgrade_fw_if_config.c`.

* `PartitionData` is `UpgradePartitionDataCtx` with the fields of `UpgradeCtx`, `UpgradeFWIFCtx`
  and the static variables that the parser uses. `ops` lists the operations on the flash so far.
* `Device` is what the parser finds in its surroundings: the variant, the case, the size and the
  streams of the sections, and the free space of the PS store.
* The numbers are below `2 ^ 32` (lengths and offsets) and `2 ^ 16` (versions and partition
  numbers); they are reduced where the code can wrap.
* A read behind the bytes of a block is `none`.
* A handler of a header that is called with `reqComplete` false hands its data to
  `UpgradePartitionDataParseIncomplete`, which then only stores it. That branch is in
  `parseCompleteData`; the handlers of the headers are for complete requests.
* `incompleteData` is kept beside the context, since no handler touches it.
* `malloc` succeeds. The time of a transfer and the log are left out.
-/

namespace Mh40.Upgrade

/-! ## Context -/

/-- `UpgradeHostErrorCode`. -/
inductive HostErrorCode where
  | success
  | dataTransferComplete
  | unknownId
  | wrongVariant
  | wrongPartitionNumber
  | partitionSizeMismatch
  | partitionOpenFailed
  | noMemory
  | badLengthPartitionParse
  | badLengthTooShort
  | badLengthUpgradeHeader
  | badLengthPartitionHeader
  | badLengthSignature
  | badLengthDatahdrResume
  | oemValidationFailedPartitionHeader1
  | partitionCloseFailed
  | partitionCloseFailedPsSpace
  | partitionTypeNotMatching
  | partitionWriteFailedData
  | internalError3
  | appConfigVersionIncompatible
  deriving DecidableEq

/-- `UpgradePartitionDataState`. -/
inductive PartitionDataState where
  | generic1stPart
  | header
  | dataHeader
  | data
  | footer
  deriving DecidableEq

/-- `upgrade_case_dfu_status_t`. -/
inductive CaseDfuStatus where
  | notStarted
  | inProgress
  deriving DecidableEq

/-- The surroundings of the parser. -/
structure Device where
  devVariant : List UInt8
  isCaseDfuSupported : Bool
  maxRequestSize : ℕ
  /-- `ImageUpgradeGetInfo` of the size, 0 when it fails. -/
  imageSize : ℕ → ℕ
  /-- Whether `ImageUpgradeStreamGetSink` gives a sink. -/
  streamGetSink : ℕ → ℕ → Bool
  /-- Whether `SinkClose` succeeds. -/
  sinkClose : ℕ → Bool
  /-- `UpgradePSSpaceForCriticalOperations` at the close of a section. -/
  psSpaceForCriticalOperations : ℕ → Bool
  /-- `SinkSlack` at a position. -/
  sinkSlack : ℕ → ℕ
  sinkSlack_pos : ∀ position, 0 < sinkSlack position

/-- `UpgradePartitionDataCtx` and what the parser uses of the other contexts. -/
structure PartitionData where
  newReqSize : ℕ
  totalReqSize : ℕ
  totalReceivedSize : ℕ
  chunkReceivedSize : ℕ
  offset : ℕ
  state : PartitionDataState
  partitionHdl : Option Sink
  partitionLength : ℕ
  signature : List UInt8
  signatureReceived : ℕ
  openNextPartition : Bool
  isUpgradeHdrAvailable : Bool
  dfuHeaderPskey : ℕ
  dfuHeaderPskeyOffset : ℕ
  dfuFileOffset : ℕ
  isDataXferComplete : Bool
  caseDfuHeaderLength : ℕ
  caseDfuStatus : CaseDfuStatus
  libKeys : LibKeys
  fwPartitionNum : ℕ
  partitionMap : ℕ
  signingMode : UInt8
  flash : Flash
  ops : List FlashOp

def maxPartitionDataBlockSize : ℕ := 48

def headerFirstPartSize : ℕ := 12

def idFieldSize : ℕ := 8

def upgradeVersionSize : ℕ := 4

def noOfCompatibleUpgradesSize : ℕ := 2

def noOfCompatiblePsVersionSize : ℕ := 4

def headerExtraInfo : ℕ := 2

def headerMinSecondPartSize : ℕ := 14

def partitionSecondHeaderSize : ℕ := 4

def firstWordSize : ℕ := 4

def expectedSignatureSize : ℕ := 256

def dfuHeaderPskeyStart : ℕ := 510

def dfuHeaderPskeyEnd : ℕ := 519

def imageSectionIdMax : ℕ := 16

/-- `"APPUHDR5"`. -/
def headerId : List UInt8 := [0x41, 0x50, 0x50, 0x55, 0x48, 0x44, 0x52, 0x35]

/-- `"PARTDATA"`. -/
def partitionId : List UInt8 := [0x50, 0x41, 0x52, 0x54, 0x44, 0x41, 0x54, 0x41]

/-- `"APPUPFTR"`. -/
def footerId : List UInt8 := [0x41, 0x50, 0x50, 0x55, 0x50, 0x46, 0x54, 0x52]

/-- `"EXTUHDR1"`. -/
def extCaseDfuFileHeader : List UInt8 := [0x45, 0x58, 0x54, 0x55, 0x48, 0x44, 0x52, 0x31]

/-! ## Streams of bytes -/

/-- `ByteUtilsGet2BytesFromStream`. -/
def get2BytesFromStream (data : List UInt8) (i : ℕ) : Option ℕ := do
  let high ← data[i]?
  let low ← data[i + 1]?
  return 256 * high.toNat + low.toNat

/-- `ByteUtilsGet4BytesFromStream`. -/
def get4BytesFromStream (data : List UInt8) (i : ℕ) : Option ℕ := do
  let high ← get2BytesFromStream data i
  let low ← get2BytesFromStream data (i + 2)
  return 65536 * high + low

/-- `strncmp` of some data with a string without its terminator, when they compare as equal. -/
def strncmpEq : ℕ → List UInt8 → List UInt8 → Bool
  | 0, _, _ => true
  | _ + 1, d :: _, [] => d = 0
  | n + 1, d :: data, c :: str => d = c && strncmpEq n data str
  | _ + 1, [], _ => false

/-- What follows when a handler got so far without an error. -/
def andThen (r : HostErrorCode × PartitionData)
    (next : PartitionData → HostErrorCode × PartitionData) : HostErrorCode × PartitionData :=
  if r.1 = .success then next r.2 else r

/-! ## Requests -/

/-- `UpgradePartitionDataRequestData`. -/
def requestData (ctx : PartitionData) (size offset : ℕ) : PartitionData :=
  { ctx with
    totalReqSize := size
    newReqSize := size
    totalReceivedSize := 0
    chunkReceivedSize := 0
    offset := offset }

/-- `UpgradePartitionDataGetNextReqSize`. -/
def getNextReqSize (device : Device) (ctx : PartitionData) : ℕ × PartitionData :=
  if device.maxRequestSize ≠ 0 then
    let size := min (ctx.totalReqSize - ctx.totalReceivedSize) device.maxRequestSize
    if 0 < ctx.chunkReceivedSize then
      if ctx.chunkReceivedSize < device.maxRequestSize then (0, ctx)
      else (size, { ctx with chunkReceivedSize := 0 })
    else (size, ctx)
  else (ctx.newReqSize, { ctx with newReqSize := 0 })

/-! ## Flash -/

/-- Carry out an operation on the flash. -/
def perform (ctx : PartitionData) (op : FlashOp) : PartitionData :=
  { ctx with flash := op.apply ctx.flash, ops := ctx.ops ++ [op] }

/-- `UpgradeSavePSKeys`. -/
def savePSKeys (ctx : PartitionData) (libKeys : LibKeys) : PartitionData :=
  perform { ctx with libKeys } (.saveLibKeys libKeys)

/-- The contents of `keyCache` once the key was read into it. -/
def keyCache (ctx : PartitionData) : List Cell :=
  let stored := ctx.flash.psKeys ctx.dfuHeaderPskey
  stored ++ List.replicate (pskeyMaxStorageLengthInBytes - stored.length) none

/-- How much of the data the current key can take. -/
def dataWriteSize (ctx : PartitionData) (size : ℕ) : ℕ :=
  if ctx.dfuHeaderPskeyOffset + size > pskeyMaxStorageLengthInBytes then
    pskeyMaxStorageLengthInBytes - ctx.dfuHeaderPskeyOffset
  else size

/-- The store of `piece` into the current key, unless the key already holds as much. -/
def storePiece (ctx : PartitionData) (piece : List UInt8) : PartitionData :=
  let offset := ctx.dfuHeaderPskeyOffset
  if offset + piece.length > 2 * pskeyLength ctx.flash ctx.dfuHeaderPskey then
    let cache := (keyCache ctx).take offset ++ piece.map some ++
      (keyCache ctx).drop (offset + piece.length)
    perform ctx (.psStore ctx.dfuHeaderPskey (cache.take (2 * ((offset + piece.length + 1) / 2))))
  else ctx

/-- The part of a round of `UpgradeSaveHeaderInPSKeys` that fits into the current key. -/
def savePiece (ctx : PartitionData) (piece : List UInt8) : PartitionData :=
  { storePiece ctx piece with
    dfuHeaderPskeyOffset := ctx.dfuHeaderPskeyOffset + piece.length }

/-- The step to the next key once the current one is full. -/
def nextKey (ctx : PartitionData) : HostErrorCode × PartitionData :=
  if ctx.dfuHeaderPskeyOffset = pskeyMaxStorageLengthInBytes then
    let ctx := { ctx with
      dfuHeaderPskey := ctx.dfuHeaderPskey + 1
      dfuHeaderPskeyOffset := 0 }
    if ctx.dfuHeaderPskey > dfuHeaderPskeyEnd then (.noMemory, ctx) else (.success, ctx)
  else (.success, ctx)

/-- The rounds of `UpgradeSaveHeaderInPSKeys`; a round takes at least one byte. -/
def saveRounds : ℕ → PartitionData → List UInt8 → HostErrorCode × PartitionData
  | 0, ctx, _ => (.success, ctx)
  | n + 1, ctx, data =>
    let size := dataWriteSize ctx data.length
    andThen (nextKey (savePiece ctx (data.take size))) fun ctx =>
      let rest := data.drop size
      if rest = [] then (.success, ctx) else saveRounds n ctx rest

/-- `UpgradeSaveHeaderInPSKeys`. -/
def saveHeaderInPSKeys (ctx : PartitionData) (data : List UInt8) : HostErrorCode × PartitionData :=
  saveRounds (data.length + 1) ctx data

/-- The loop of `UpgradeFWIFPartitionWrite`: each round flushes what the sink has room for. -/
def flushRounds (device : Device) : ℕ → PartitionData → Sink → List UInt8 → PartitionData × Sink
  | 0, ctx, sink, _ => (ctx, sink)
  | n + 1, ctx, sink, data =>
    if data = [] then (ctx, sink)
    else
      let writeLen := min (device.sinkSlack sink.position) data.length
      flushRounds device n
        (perform ctx (.sinkFlush sink.partNum sink.position (data.take writeLen)))
        { sink with position := sink.position + writeLen } (data.drop writeLen)

/-- `UpgradeFWIFPartitionWrite`: whether all of the data was written. -/
def partitionWrite (device : Device) (ctx : PartitionData) (data : List UInt8) :
    Bool × PartitionData :=
  match ctx.partitionHdl with
  | none => (data = [], ctx)
  | some sink =>
    let (ctx, sink) := flushRounds device data.length ctx sink data
    (true, { ctx with partitionHdl := some sink })

/-- `UpgradeFWIFPartitionClose`. -/
def partitionClose (device : Device) (ctx : PartitionData) : HostErrorCode × PartitionData :=
  match ctx.partitionHdl with
  | none => (.success, ctx)
  | some sink =>
    if !device.psSpaceForCriticalOperations sink.partNum then (.partitionCloseFailedPsSpace, ctx)
    else if !device.sinkClose sink.partNum then (.partitionCloseFailed, ctx)
    else
      let ctx := perform ctx (.sinkClose sink.partNum sink.firstWord)
      (.success, savePSKeys ctx
        { ctx.libKeys with lastClosedPartition := ctx.fwPartitionNum + 1 })

/-- The close of a section, which gives up the handle whatever the status. -/
def closeSection (device : Device) (ctx : PartitionData) : HostErrorCode × PartitionData :=
  let (rc, ctx) := partitionClose device ctx
  (rc, { ctx with partitionHdl := none })

/-- `UpgradePartitionDataPartitionOpen`. -/
def partitionOpen (device : Device) (ctx : PartitionData) (partNum firstWord : ℕ) :
    PartitionData :=
  if device.streamGetSink partNum firstWord then
    { ctx with
      partitionHdl := some ⟨partNum, firstWord, sinkPosition (ctx.flash.sectionData partNum)⟩
      fwPartitionNum := partNum }
  else { ctx with partitionHdl := none }

/-- `UpgradeFWIFGetPhysPartitionSize`. -/
def getPhysPartitionSize (device : Device) (partNum : ℕ) : ℕ := 2 * device.imageSize partNum

/-- `IsValidPartitionNum`. -/
def isValidPartitionNum (partNum : ℕ) : Bool := partNum ≤ 12 && partNum ≠ 8

/-- `IsValidSqifNum`. -/
def isValidSqifNum (sqifNum : ℕ) : Bool := sqifNum = 0

/-- `UpgradeFWIFValidateUpdate`. -/
def validateUpdate (ctx : PartitionData) (partNum : ℕ) : Bool × PartitionData :=
  if partNum < imageSectionIdMax then
    (true, { ctx with partitionMap := ctx.partitionMap ||| 1 <<< partNum })
  else (false, ctx)

/-! ## Main header -/

/-- The search for the current version among the compatible upgrade versions from `ptr` on. -/
def searchUpgradeVersions (data : List UInt8) (current : Version) : ℕ → ℕ → Option Bool
  | _, 0 => some false
  | ptr, n + 1 => do
    let major ← get2BytesFromStream data ptr
    let minor ← get2BytesFromStream data (ptr + 2)
    if major = current.major ∧ (minor = current.minor ∨ minor = 0xFFFF) then return true
    else searchUpgradeVersions data current (ptr + 4) n

/-- The search for the current PS version among the compatible ones from `ptr` on. -/
def searchPsVersions (data : List UInt8) (current : ℕ) : ℕ → ℕ → Option Bool
  | _, 0 => some false
  | ptr, n + 1 => do
    let version ← get2BytesFromStream data ptr
    if version = current then return true
    else searchPsVersions data current (ptr + 2) n

/-- The versions that a main header carries, or why the header is refused. -/
def checkHeader (device : Device) (libKeys : LibKeys) (data : List UInt8) :
    Option (Except HostErrorCode (Version × ℕ)) := do
  let len := data.length
  if len < idFieldSize + upgradeVersionSize + noOfCompatibleUpgradesSize then
    return .error .badLengthUpgradeHeader
  if 0 < device.devVariant.length ∧ !strncmpEq idFieldSize data device.devVariant then
    return .error .wrongVariant
  let major ← get2BytesFromStream data idFieldSize
  let minor ← get2BytesFromStream data (idFieldSize + 2)
  let compatibleVersions ← get2BytesFromStream data (idFieldSize + 4)
  if len < idFieldSize + 6 + 4 * compatibleVersions + 2 + 2 then
    return .error .badLengthUpgradeHeader
  let psconfigVersions ← get2BytesFromStream data (idFieldSize + 6 + 4 * compatibleVersions + 2)
  -- `pktSize` is a `uint16`
  let pktSize := (idFieldSize + upgradeVersionSize + noOfCompatibleUpgradesSize +
    4 * compatibleVersions + noOfCompatiblePsVersionSize + 2 * psconfigVersions +
    headerExtraInfo) % 2 ^ 16
  if len ≠ pktSize then return .error .badLengthUpgradeHeader
  let found ← searchUpgradeVersions data libKeys.version (idFieldSize + 6) compatibleVersions
  if !found then return .error .appConfigVersionIncompatible
  let newPSVersion ← get2BytesFromStream data (idFieldSize + 6 + 4 * compatibleVersions)
  if libKeys.configVersion = newPSVersion then return .ok (⟨major, minor⟩, newPSVersion)
  let found ← searchPsVersions data libKeys.configVersion
    (idFieldSize + 6 + 4 * compatibleVersions + 4) psconfigVersions
  if !found then return .error .appConfigVersionIncompatible
  return .ok (⟨major, minor⟩, newPSVersion)

/-- `UpgradePartitionDataHandleHeaderState`. -/
def handleHeaderState (device : Device) (ctx : PartitionData) (data : List UInt8) :
    Option (HostErrorCode × PartitionData) :=
  (checkHeader device ctx.libKeys data).map fun
    | .error rc => (rc, ctx)
    | .ok (version, psVersion) =>
      let ctx := savePSKeys ctx { ctx.libKeys with
        versionInProgress := version
        configVersionInProgress := psVersion
        stateOfPartitions := .upgrading }
      andThen (saveHeaderInPSKeys ctx data) fun ctx =>
        let ctx := requestData ctx headerFirstPartSize 0
        (.success, { ctx with state := .generic1stPart, signingMode := data.getLastD 0 })

/-! ## Sections -/

/-- The first word of a section; its bytes are in the order of the processor. -/
def firstWordOf (data : List UInt8) : ℕ :=
  (data.getD (partitionSecondHeaderSize + 3) 0).toNat * 2 ^ 24 +
    (data.getD (partitionSecondHeaderSize + 2) 0).toNat * 2 ^ 16 +
    (data.getD (partitionSecondHeaderSize + 1) 0).toNat * 2 ^ 8 +
    (data.getD partitionSecondHeaderSize 0).toNat

/-- What `UpgradePartitionDataHandleDataHeaderState` does with the position of an open section. -/
def startSection (device : Device) (ctx : PartitionData) (offset : ℕ) :
    HostErrorCode × PartitionData :=
  if offset + firstWordSize < ctx.partitionLength then
    let ctx := requestData ctx (ctx.partitionLength - offset - firstWordSize) offset
    (.success, { ctx with state := .data })
  else if offset + firstWordSize = ctx.partitionLength then
    andThen (closeSection device ctx) fun ctx =>
      let ctx := { ctx with openNextPartition := true }
      let ctx := requestData ctx headerFirstPartSize ((offset + 2 ^ 32 - firstWordSize) % 2 ^ 32)
      (.success, { ctx with state := .generic1stPart })
  else (.internalError3, ctx)

/-- The section `partNum` is opened unless there is a handle already. -/
def openSection (device : Device) (ctx : PartitionData) (partNum firstWord : ℕ) : PartitionData :=
  match ctx.partitionHdl with
  | none => partitionOpen device ctx partNum firstWord
  | some _ => { ctx with fwPartitionNum := partNum }

/-- What `UpgradePartitionDataHandleDataHeaderState` does once the header is stored. -/
def enterSection (device : Device) (ctx : PartitionData) (partNum firstWord : ℕ) :
    HostErrorCode × PartitionData :=
  let (valid, ctx) := validateUpdate ctx partNum
  if !valid then (.oemValidationFailedPartitionHeader1, ctx)
  else if ctx.libKeys.lastClosedPartition > partNum then
    let ctx := requestData ctx headerFirstPartSize (ctx.partitionLength - firstWordSize)
    (.success, { ctx with state := .generic1stPart, fwPartitionNum := partNum })
  else if ctx.partitionLength > getPhysPartitionSize device partNum then
    (.partitionSizeMismatch, ctx)
  else
    let ctx := openSection device ctx partNum firstWord
    match ctx.partitionHdl with
    | none => (.partitionOpenFailed, ctx)
    | some sink => startSection device ctx sink.position

/-- `UpgradePartitionDataHandleDataHeaderState`. -/
def handleDataHeaderState (device : Device) (ctx : PartitionData) (data : List UInt8) :
    Option (HostErrorCode × PartitionData) := do
  if data.length < partitionSecondHeaderSize + firstWordSize then
    return (.badLengthDatahdrResume, ctx)
  let sqifNum ← get2BytesFromStream data 0
  let partNum ← get2BytesFromStream data 2
  if !isValidPartitionNum partNum then return (.wrongPartitionNumber, ctx)
  if !isValidSqifNum sqifNum then return (.partitionTypeNotMatching, ctx)
  return andThen (saveHeaderInPSKeys ctx (data.take (partitionSecondHeaderSize + firstWordSize)))
    fun ctx => enterSection device ctx partNum (firstWordOf data)

/-! ## First part of a header -/

/-- `"APPUHDR5"`: the main header follows. -/
def startHeader (ctx : PartitionData) (data : List UInt8) (length : ℕ) :
    HostErrorCode × PartitionData :=
  if length < headerMinSecondPartSize then (.badLengthUpgradeHeader, ctx)
  else
    let ctx := { ctx with dfuHeaderPskey := dfuHeaderPskeyStart, dfuHeaderPskeyOffset := 0 }
    andThen (saveHeaderInPSKeys ctx data) fun ctx =>
      let ctx := savePSKeys ctx { ctx.libKeys with dfuPartitionNum := 0 }
      let ctx := requestData ctx length 0
      (.success, { ctx with state := .header, isUpgradeHdrAvailable := true })

/-- `"EXTUHDR1"`: the file is for the case. -/
def startCase (ctx : PartitionData) (data : List UInt8) (length : ℕ) :
    HostErrorCode × PartitionData :=
  let ctx := { ctx with
    caseDfuHeaderLength := length
    caseDfuStatus := .inProgress
    dfuHeaderPskey := dfuHeaderPskeyStart
    dfuHeaderPskeyOffset := 0 }
  andThen (saveHeaderInPSKeys ctx data) fun ctx => (.success, requestData ctx 0 0)

/-- `"PARTDATA"`: a section follows. -/
def startPartition (ctx : PartitionData) (data : List UInt8) (length : ℕ) :
    HostErrorCode × PartitionData :=
  if ctx.fwPartitionNum = 0 ∧ !ctx.isUpgradeHdrAvailable then (.badLengthUpgradeHeader, ctx)
  else if length < partitionSecondHeaderSize + firstWordSize then
    (.badLengthPartitionHeader, ctx)
  else
    andThen (saveHeaderInPSKeys ctx data) fun ctx =>
      let ctx := requestData ctx (partitionSecondHeaderSize + firstWordSize) 0
      (.success, { ctx with
        state := .dataHeader
        partitionLength := length - partitionSecondHeaderSize })

/-- `"APPUPFTR"`: the signature follows. -/
def startFooter (ctx : PartitionData) (data : List UInt8) (length : ℕ) :
    HostErrorCode × PartitionData :=
  if length ≠ expectedSignatureSize then (.badLengthSignature, ctx)
  else
    andThen (saveHeaderInPSKeys ctx data) fun ctx =>
      let ctx := requestData ctx length 0
      (.success, { ctx with partitionLength := length, state := .footer })

/-- `UpgradePartitionDataHandleGeneric1stPartState`. -/
def handleGeneric1stPartState (device : Device) (ctx : PartitionData) (data : List UInt8) :
    Option (HostErrorCode × PartitionData) :=
  if data.length < headerFirstPartSize then some (.badLengthTooShort, ctx)
  else (get4BytesFromStream data idFieldSize).map fun length =>
    if strncmpEq idFieldSize data headerId then startHeader ctx data length
    else if device.isCaseDfuSupported ∧ strncmpEq idFieldSize data extCaseDfuFileHeader then
      startCase ctx data length
    else if strncmpEq idFieldSize data partitionId then startPartition ctx data length
    else if strncmpEq idFieldSize data footerId then startFooter ctx data length
    else (.unknownId, ctx)

/-! ## Section data and footer -/

/-- `UpgradePartitionDataHandleDataState`. -/
def handleDataState (device : Device) (ctx : PartitionData) (data : List UInt8)
    (reqComplete : Bool) : HostErrorCode × PartitionData :=
  let (written, ctx) := partitionWrite device ctx data
  if !written then (.partitionWriteFailedData, ctx)
  else if reqComplete then
    let ctx := requestData ctx headerFirstPartSize 0
    andThen (closeSection device { ctx with state := .generic1stPart }) fun ctx =>
      (.success, { ctx with openNextPartition := true })
  else (.success, ctx)

/-- The store of `upgradeHandleFooterState`, unless the transfer is over already. -/
def saveFooter (ctx : PartitionData) (data : List UInt8) : HostErrorCode × PartitionData :=
  if ctx.isDataXferComplete then (.success, ctx)
  else
    let offset := ctx.signatureReceived
    saveHeaderInPSKeys { ctx with
      signature := ctx.signature.take offset ++ data ++ ctx.signature.drop (offset + data.length)
      signatureReceived := offset + data.length } data

/-- `upgradeHandleFooterState`. -/
def handleFooterState (ctx : PartitionData) (data : List UInt8) (reqComplete : Bool) :
    HostErrorCode × PartitionData :=
  andThen (saveFooter ctx data) fun ctx =>
    if reqComplete then (.dataTransferComplete, { ctx with signatureReceived := 0 })
    else (.success, ctx)

/-! ## State machine -/

/-- The parser: the context, and the `incompleteData` in front of it. -/
structure Parser where
  ctx : PartitionData
  incompleteData : List UInt8

/-- The part of `UpgradePartitionDataParseIncomplete` that stores the data. -/
def storeIncomplete (parser : Parser) (data : List UInt8) : HostErrorCode × Parser :=
  if data.length > maxPartitionDataBlockSize - parser.incompleteData.length then
    (.badLengthUpgradeHeader, parser)
  else (.success, { parser with incompleteData := parser.incompleteData ++ data })

/-- `upgradeParseCompleteData` of a complete request. -/
def parseComplete (device : Device) (ctx : PartitionData) (data : List UInt8) :
    Option (HostErrorCode × PartitionData) :=
  match ctx.state with
  | .generic1stPart => handleGeneric1stPartState device ctx data
  | .header => handleHeaderState device ctx data
  | .dataHeader => handleDataHeaderState device ctx data
  | .data => some (handleDataState device ctx data true)
  | .footer => some (handleFooterState ctx data true)

/-- `upgradeParseCompleteData`. -/
def parseCompleteData (device : Device) (parser : Parser) (data : List UInt8)
    (reqComplete : Bool) : Option (HostErrorCode × Parser) :=
  if reqComplete then
    (parseComplete device parser.ctx data).map fun (rc, ctx) => (rc, { parser with ctx })
  else
    match parser.ctx.state with
    | .data =>
      let (rc, ctx) := handleDataState device parser.ctx data false
      some (rc, { parser with ctx })
    | .footer =>
      let (rc, ctx) := handleFooterState parser.ctx data false
      some (rc, { parser with ctx })
    | _ => some (storeIncomplete parser data)

/-- `UpgradePartitionDataParseIncomplete`. -/
def parseIncomplete (device : Device) (parser : Parser) (data : List UInt8) :
    Option (HostErrorCode × Parser) := do
  match storeIncomplete parser data with
  | (.success, parser) =>
    if parser.ctx.totalReceivedSize = parser.ctx.totalReqSize then
      let (rc, parser) ← parseCompleteData device parser parser.incompleteData true
      return (rc, { parser with incompleteData := [] })
    else return (.success, parser)
  | (rc, parser) => return (rc, parser)

/-- The totals of `UpgradePartitionDataParse`. -/
def received (ctx : PartitionData) (size : ℕ) : PartitionData :=
  { ctx with
    totalReceivedSize := ctx.totalReceivedSize + size
    chunkReceivedSize := ctx.chunkReceivedSize + size
    dfuFileOffset := (ctx.dfuFileOffset + size) % 2 ^ 32 }

/-- `UpgradePartitionDataParse`. -/
def parse (device : Device) (parser : Parser) (data : List UInt8) :
    Option (HostErrorCode × Parser) :=
  let parser := { parser with ctx := received parser.ctx data.length }
  if parser.ctx.totalReceivedSize > parser.ctx.totalReqSize then
    some (.badLengthPartitionParse, parser)
  else if parser.incompleteData ≠ [] then parseIncomplete device parser data
  else parseCompleteData device parser data
    (parser.ctx.totalReceivedSize = parser.ctx.totalReqSize)

/-! ## Fresh upgrade -/

/-- The context of a fresh upgrade, once the first data is requested: nothing but the versions of
the device is left of earlier ones. `keys` are the PS keys that are not for the headers. -/
def fresh (version : Version) (configVersion : ℕ) (signingMode : UInt8)
    (keys : ℕ → List Cell) : Parser :=
  let libKeys : LibKeys := ⟨version, configVersion, ⟨0, 0⟩, 0, .erased, 0, 0⟩
  let ctx : PartitionData := {
    newReqSize := 0
    totalReqSize := 0
    totalReceivedSize := 0
    chunkReceivedSize := 0
    offset := 0
    state := .generic1stPart
    partitionHdl := none
    partitionLength := 0
    signature := []
    signatureReceived := 0
    openNextPartition := false
    isUpgradeHdrAvailable := false
    dfuHeaderPskey := 0
    dfuHeaderPskeyOffset := 0
    dfuFileOffset := 0
    isDataXferComplete := false
    caseDfuHeaderLength := 0
    caseDfuStatus := .notStarted
    libKeys
    fwPartitionNum := 0
    partitionMap := 0
    signingMode
    flash := {
      psKeys := fun key =>
        if dfuHeaderPskeyStart ≤ key ∧ key ≤ dfuHeaderPskeyEnd then [] else keys key
      libKeys
      sectionData := fun _ => []
      firstWord := fun _ => none }
    ops := [] }
  ⟨requestData ctx headerFirstPartSize 0, []⟩

end Mh40.Upgrade
