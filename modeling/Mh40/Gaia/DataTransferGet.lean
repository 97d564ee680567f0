import Mh40.Gaia.DataTransferSessions
import Mh40.Gaia.ReceiveReads

/-!
# Requests for data

`GaiaFramework_DataTransferGet` in `domains/gaia/gaia_framework/gaia_framework_data_channel.c`, with
the dispatch to the transport in `libs/gaia/gaia_transport.c`: a packet is claimed, and the function
of the session fills what is behind the id of the session.

* `Transport` is what its table of functions answers during one request.
* `dataTransferGet`: what it does, in order. `none` is a read outside of the payload.
* `sound_iff_fits`: what is asked of the function of the session fits into the packet exactly when
  the request `Fits`. `sound_corePlugin_iff`: the core plugin only passes on payloads of ten bytes,
  which leaves the sizes.
* Left out: the bytes of the packet, and the log.
-/

namespace Mh40.Gaia

open Lib List

abbrev Uint32 := BitVec 32

/-! ## Transports -/

/-- The keys of `gaia_transport_info_key_t` that are asked for. -/
inductive InfoKey
  | maxTxPacket
  | payloadSize
deriving DecidableEq, Repr

/-- The functions of a transport, `none` for one that it does not have. `getInfo` is the value
that is left, and the status. `createPacket` says whether a packet with so large a payload can be
claimed. -/
structure Transport where
  getPacketSpace : Option Uint16
  getInfo : Option (InfoKey → Uint32 × Bool)
  createPacket : Option (Uint16 → Bool)
  /-- `tx_pkt_buf` is in use. -/
  txPktBuf : Bool

/-- `GAIA_TRANSPORT_MAX_MALLOC_TX_PACKET_SIZE`. -/
def maxMallocTxPacketSize : Uint16 := 48

/-- The payload that fits into a packet from the heap. -/
def mallocPayloadSize (getInfo : InfoKey → Uint32 × Bool) : Uint16 :=
  let packetSize := (getInfo .maxTxPacket).1.setWidth 16
  let payloadSize := (getInfo .payloadSize).1.setWidth 16
  if packetSize.toNat ≤ maxMallocTxPacketSize.toNat then payloadSize
  else maxMallocTxPacketSize - (packetSize - payloadSize)

namespace Transport

/-- `Gaia_TransportGetPacketSpace`. -/
def packetSpace (t : Transport) : Uint16 :=
  match t.getPacketSpace with
  | some space => space
  | none =>
    match t.getInfo with
    | some getInfo => mallocPayloadSize getInfo
    | none => 0

/-- `Gaia_TransportCreatePacket` of so large a payload: no null pointer, and no panic. -/
def canCreatePacket (t : Transport) (payloadSizeRequested : Uint16) : Bool :=
  match t.createPacket with
  | some createPacket => createPacket payloadSizeRequested
  | none =>
    match t.getInfo with
    | some getInfo =>
      decide (payloadSizeRequested.toNat ≤ (mallocPayloadSize getInfo).toNat) && !t.txPktBuf
    | none => false

/-- `Gaia_TransportGetInfo` of `GAIA_TRANSPORT_PAYLOAD_SIZE`. -/
def payloadSizeInfo (t : Transport) : Option Uint32 :=
  match t.getInfo with
  | some getInfo => if (getInfo .payloadSize).2 then some (getInfo .payloadSize).1 else none
  | none => none

end Transport

/-! ## Requests -/

/-- `data_transfer_status_code_t`. -/
inductive DataTransferStatus
  | success
  | noMoreData
  | invalidParameter
  | failureWithUnspecifiedReason
  | insufficientResource
  | failedToGetDataInfo
  | invalidSink
  | invalidSource
  | invalidStream
deriving DecidableEq, Repr

def gaiaStatusSuccess : Byte := 0x00
def gaiaStatusInsufficientResources : Byte := 0x03
def gaiaStatusInvalidParameter : Byte := 0x05
def gaiaStatusIncorrectState : Byte := 0x06

/-- `gaiaFrameworkDataChannel_GetGaiaStatusFromDataTransferStatus`. -/
def gaiaStatusFromDataTransferStatus : DataTransferStatus → Byte
  | .success => gaiaStatusSuccess
  | .noMoreData => gaiaStatusSuccess
  | .invalidParameter => gaiaStatusInvalidParameter
  | .insufficientResource => gaiaStatusInsufficientResources
  | .failureWithUnspecifiedReason | .failedToGetDataInfo | .invalidSink | .invalidSource
  | .invalidStream => gaiaStatusIncorrectState

/-- `get_transfer_data` of `gaia_framework_data_channel_functions_t`: the status and `size_used` for
the offset, the requested size and the size of the buffer. -/
abbrev GetTransferData := Uint32 → Uint32 → Uint16 → DataTransferStatus × Uint16

/-- The table of functions of a session, `none` for a null pointer. -/
abbrev Sessions := List (SessionInstance (Option GetTransferData) Transport)

inductive Action
  | sendError (status : Byte)
  | createPacket (sizePayload : Uint16)
  | getTransferData (startOffset requestedSize : Uint32) (txBufSize : Uint16)
  | flushPacket (sizePayload : Uint16)
deriving DecidableEq, Repr

/-- What is done, and what is returned, `none` for a panic. -/
structure Handling where
  actions : List Action
  result : Option Bool
deriving DecidableEq, Repr

/-- Four bytes as a number, the first one the most significant. -/
def uint32Of (x y z w : Byte) : Uint32 :=
  x.setWidth 32 <<< 24 ||| y.setWidth 32 <<< 16 ||| z.setWidth 32 <<< 8 ||| w.setWidth 32

def readUint32 (payload : List Byte) (i : ℕ) : Option Uint32 := do
  let x ← payload[i]?
  let y ← payload[i + 1]?
  let z ← payload[i + 2]?
  let w ← payload[i + 3]?
  some (uint32Of x y z w)

/-- `payload_size`, with the comparisons on 32 bits. -/
def claimedPayloadSize (packetSpace : Uint16) (value requestedSize : Uint32) : Uint16 :=
  if (2 + requestedSize).toNat < value.toNat then
    if packetSpace.toNat < (2 + requestedSize).toNat then packetSpace
    else (2 + requestedSize).setWidth 16
  else
    if packetSpace.toNat < (value.setWidth 16).toNat then packetSpace else value.setWidth 16

/-- The rest of `GaiaFramework_DataTransferGet` once the session is found and the payload read. -/
def handleGet (sessions : Sessions) (t : Transport) (sessionId : Uint16)
    (startOffset requestedSize : Uint32) : Handling :=
  match t.payloadSizeInfo with
  | none => ⟨[], none⟩
  | some value =>
    let payloadSize := claimedPayloadSize t.packetSpace value requestedSize
    if t.canCreatePacket payloadSize then
      match getDataTransferFunctionTable sessionId sessions with
      | some (some getTransferData) =>
        let (status, sizeUsed) := getTransferData startOffset requestedSize (payloadSize - 2)
        let asked := [.createPacket payloadSize,
          .getTransferData startOffset requestedSize (payloadSize - 2)]
        if status = .success then ⟨asked ++ [.flushPacket (2 + sizeUsed)], some true⟩
        else ⟨asked ++ [.sendError (gaiaStatusFromDataTransferStatus status)], some false⟩
      | _ => ⟨[.createPacket payloadSize], none⟩
    else ⟨[.createPacket payloadSize], none⟩

/-- `GaiaFramework_DataTransferGet`. -/
def dataTransferGet (sessions : Sessions) (t : Transport) (payload : List Byte) :
    Option Handling := do
  if payload.length < 2 then some ⟨[], some false⟩
  else
    let sessionId ← readW16 payload 0
    match findSessionInstance sessionId sessions with
    | none => some ⟨[.sendError gaiaStatusInvalidParameter], some false⟩
    | some _ => do
      let startOffset ← readUint32 payload 2
      let requestedSize ← readUint32 payload 6
      some (handleGet sessions t sessionId startOffset requestedSize)

/-- `GAIA_DATA_TRANSFER_GET_CMD_PAYLOAD_SIZE`. -/
def dataTransferGetCmdPayloadSize : ℕ := 10

/-- `gaiaCorePlugin_DataTransferGet`: what is done. -/
def corePluginDataTransferGet (sessions : Sessions) (t : Transport) (payload : List Byte) :
    Option (List Action) :=
  if payload.length = dataTransferGetCmdPayloadSize then
    (dataTransferGet sessions t payload).map Handling.actions
  else some [.sendError gaiaStatusInvalidParameter]

/-! ## Sizes -/

/-- Nothing outside of the payload is read, and the buffer for the function of the session is not
larger than what the claimed packet has behind the id. -/
def Sound (handling : Option (List Action)) : Prop :=
  ∃ actions, handling = some actions ∧ ∀ sizePayload, Action.createPacket sizePayload ∈ actions →
    ∀ startOffset requestedSize txBufSize,
      Action.getTransferData startOffset requestedSize txBufSize ∈ actions →
        txBufSize.toNat + 2 ≤ sizePayload.toNat

/-- The id of the session in a payload. -/
def sessionIdOf (payload : List Byte) : Uint16 := w16 (payload.getD 0 0) (payload.getD 1 0)

/-- The requested size in a payload. -/
def requestedSizeOf (payload : List Byte) : Uint32 :=
  uint32Of (payload.getD 6 0) (payload.getD 7 0) (payload.getD 8 0) (payload.getD 9 0)

/-- There is room for the id, the requested size does not wrap with the two bytes of the id, and a
largest payload that does not exceed their sum holds the id as a 16-bit number. -/
def HasRoom (packetSpace : Uint16) (value requestedSize : Uint32) : Prop :=
  2 ≤ packetSpace.toNat ∧ requestedSize.toNat < 2 ^ 32 - 2 ∧
    (requestedSize.toNat + 2 < value.toNat ∨ 2 ≤ value.toNat % 2 ^ 16)

/-- If the request for the session comes to its function, then there is room. -/
def RoomIfAsked (sessions : Sessions) (t : Transport) (sessionId : Uint16)
    (requestedSize : Uint32) : Prop :=
  ∀ value ∈ t.payloadSizeInfo, ∀ getTransferData,
    getDataTransferFunctionTable sessionId sessions = some (some getTransferData) →
      t.canCreatePacket (claimedPayloadSize t.packetSpace value requestedSize) = true →
        HasRoom t.packetSpace value requestedSize

/-- What the code does rightly: a payload without an id, an id of no session, or a payload of ten
bytes with room for what it asks for. -/
def Fits (sessions : Sessions) (t : Transport) (payload : List Byte) : Prop :=
  payload.length < 2 ∨ findSessionInstance (sessionIdOf payload) sessions = none ∨
    dataTransferGetCmdPayloadSize ≤ payload.length ∧
      RoomIfAsked sessions t (sessionIdOf payload) (requestedSizeOf payload)

theorem two_le_claimedPayloadSize_iff (packetSpace : Uint16) (value requestedSize : Uint32) :
    2 ≤ (claimedPayloadSize packetSpace value requestedSize).toNat ↔
      HasRoom packetSpace value requestedSize := by
  have hspace := packetSpace.isLt
  have hvalue := value.isLt
  have hrequested := requestedSize.isLt
  have hsum : (2 + requestedSize).toNat = (2 + requestedSize.toNat) % 2 ^ 32 := BitVec.toNat_add _ _
  unfold claimedPayloadSize HasRoom
  rw [BitVec.toNat_setWidth, hsum]
  split_ifs with hlt hmin hmin
  · omega
  · rw [BitVec.toNat_setWidth, hsum]
    omega
  · omega
  · rw [BitVec.toNat_setWidth]
    omega

/-- Two bytes less do not wrap. -/
theorem sub_two_iff (size : Uint16) : (size - 2).toNat + 2 ≤ size.toNat ↔ 2 ≤ size.toNat := by
  bv_omega

section Requests

variable {sessions : Sessions} {t : Transport} {payload : List Byte} {sessionId : Uint16}
  {startOffset requestedSize : Uint32}

theorem sound_of_not_asked {actions : List Action}
    (h : ∀ startOffset requestedSize txBufSize,
      Action.getTransferData startOffset requestedSize txBufSize ∉ actions) :
    Sound (some actions) :=
  ⟨actions, rfl, fun _ _ _ _ _ hmem => (h _ _ _ hmem).elim⟩

/-- A function that is asked behind the claim of a packet. -/
theorem sound_asked_iff (sizePayload : Uint16) (startOffset requestedSize : Uint32)
    {last : Action} (hclaim : ∀ size, last ≠ .createPacket size)
    (hask : ∀ offset size bufSize, last ≠ .getTransferData offset size bufSize) :
    Sound (some [.createPacket sizePayload,
      .getTransferData startOffset requestedSize (sizePayload - 2), last]) ↔
      2 ≤ sizePayload.toNat := by
  rw [← sub_two_iff]
  constructor
  · rintro ⟨actions, hsome, h⟩
    obtain rfl := Option.some.inj hsome
    exact h sizePayload (by simp) startOffset requestedSize _ (by simp)
  · intro h
    refine ⟨_, rfl, fun size hsize offset requested bufSize hasked => ?_⟩
    simp only [mem_cons, not_mem_nil, or_false, reduceCtorEq, false_or,
      Action.createPacket.injEq, Action.getTransferData.injEq, (hclaim size).symm,
      (hask offset requested bufSize).symm] at hsize hasked
    rw [hsize, hasked.2.2]
    exact h

/-- The function of the session is asked. -/
theorem handleGet_asked (startOffset : Uint32) {value : Uint32} {getTransferData : GetTransferData}
    (hinfo : t.payloadSizeInfo = some value)
    (hcreate : t.canCreatePacket (claimedPayloadSize t.packetSpace value requestedSize) = true)
    (htable : getDataTransferFunctionTable sessionId sessions = some (some getTransferData)) :
    ∃ last, (∀ size, last ≠ .createPacket size) ∧
      (∀ offset size bufSize, last ≠ .getTransferData offset size bufSize) ∧
      (handleGet sessions t sessionId startOffset requestedSize).actions =
        [.createPacket (claimedPayloadSize t.packetSpace value requestedSize),
          .getTransferData startOffset requestedSize
            (claimedPayloadSize t.packetSpace value requestedSize - 2), last] := by
  unfold handleGet
  rw [hinfo]
  dsimp only
  rw [if_pos hcreate, htable]
  dsimp only
  generalize getTransferData startOffset requestedSize _ = answer
  obtain ⟨status, sizeUsed⟩ := answer
  by_cases hstatus : status = .success
  · refine ⟨.flushPacket (2 + sizeUsed), fun _ h => (by cases h), fun _ _ _ h => (by cases h), ?_⟩
    rw [if_pos hstatus]
    rfl
  · refine ⟨.sendError (gaiaStatusFromDataTransferStatus status), fun _ h => (by cases h),
      fun _ _ _ h => (by cases h), ?_⟩
    rw [if_neg hstatus]
    rfl

/-- Without the size of the largest payload, a packet or a function it is not. -/
theorem handleGet_not_asked
    (h : ∀ value ∈ t.payloadSizeInfo, ∀ getTransferData,
      getDataTransferFunctionTable sessionId sessions = some (some getTransferData) →
        t.canCreatePacket (claimedPayloadSize t.packetSpace value requestedSize) = false)
    (offset size : Uint32) (bufSize : Uint16) :
    .getTransferData offset size bufSize ∉
      (handleGet sessions t sessionId startOffset requestedSize).actions := by
  unfold handleGet
  cases hinfo : t.payloadSizeInfo with
  | none => exact not_mem_nil
  | some value =>
    dsimp only
    split_ifs with hcreate
    · cases htable : getDataTransferFunctionTable sessionId sessions with
      | none => simp
      | some functions =>
        cases functions with
        | none => simp
        | some getTransferData =>
          rw [h value hinfo getTransferData htable] at hcreate
          cases hcreate
    · simp

theorem sound_handleGet_iff :
    Sound (some (handleGet sessions t sessionId startOffset requestedSize).actions) ↔
      RoomIfAsked sessions t sessionId requestedSize := by
  by_cases hasked : ∃ value getTransferData, t.payloadSizeInfo = some value ∧
      getDataTransferFunctionTable sessionId sessions = some (some getTransferData) ∧
        t.canCreatePacket (claimedPayloadSize t.packetSpace value requestedSize) = true
  · obtain ⟨value, getTransferData, hinfo, htable, hcreate⟩ := hasked
    obtain ⟨last, hclaim, hask, hactions⟩ := handleGet_asked startOffset hinfo hcreate htable
    rw [hactions, sound_asked_iff _ _ _ hclaim hask, two_le_claimedPayloadSize_iff]
    constructor
    · intro hroom value' hvalue' _ _ _
      rw [← Option.some.inj (hinfo.symm.trans hvalue')]
      exact hroom
    · exact fun h => h value hinfo getTransferData htable hcreate
  · refine iff_of_true (sound_of_not_asked (handleGet_not_asked fun value hinfo f htable => ?_))
      fun value hinfo f htable hcreate => (hasked ⟨value, f, hinfo, htable, hcreate⟩).elim
    exact Bool.eq_false_iff.mpr fun hcreate => hasked ⟨value, f, hinfo, htable, hcreate⟩

/-! ## Payloads -/

theorem readUint32_eq {i : ℕ} (h : i + 3 < payload.length) :
    readUint32 payload i = some (uint32Of (payload.getD i 0) (payload.getD (i + 1) 0)
      (payload.getD (i + 2) 0) (payload.getD (i + 3) 0)) := by
  unfold readUint32
  rw [getElem?_eq_getD (by omega), getElem?_eq_getD (by omega), getElem?_eq_getD (by omega),
    getElem?_eq_getD h]
  rfl

theorem readUint32_none {i : ℕ} (h : payload.length ≤ i + 3) : readUint32 payload i = none := by
  unfold readUint32
  rw [getElem?_eq_none h]
  cases payload[i]? <;> cases payload[i + 1]? <;> cases payload[i + 2]? <;> rfl

theorem dataTransferGet_short (h : payload.length < 2) :
    dataTransferGet sessions t payload = some ⟨[], some false⟩ := by
  unfold dataTransferGet
  rw [if_pos h]

theorem dataTransferGet_unknown (h : 2 ≤ payload.length)
    (hfind : findSessionInstance (sessionIdOf payload) sessions = none) :
    dataTransferGet sessions t payload =
      some ⟨[.sendError gaiaStatusInvalidParameter], some false⟩ := by
  unfold dataTransferGet
  rw [if_neg (by omega), readW16_eq (by omega)]
  change (match findSessionInstance (sessionIdOf payload) sessions with
    | none => some (Handling.mk _ _)
    | some _ => _) = _
  rw [hfind]

/-- The rest of the payload is read once the session is found. -/
theorem dataTransferGet_known (h : 2 ≤ payload.length)
    {session : SessionInstance (Option GetTransferData) Transport}
    (hfind : findSessionInstance (sessionIdOf payload) sessions = some session) :
    dataTransferGet sessions t payload = (readUint32 payload 2).bind fun startOffset =>
      (readUint32 payload 6).bind fun requestedSize =>
        some (handleGet sessions t (sessionIdOf payload) startOffset requestedSize) := by
  unfold dataTransferGet
  rw [if_neg (by omega), readW16_eq (by omega)]
  change (match findSessionInstance (sessionIdOf payload) sessions with
    | none => some (Handling.mk _ _)
    | some _ => _) = _
  rw [hfind]
  rfl

/-- **A request.** What is asked of the function of a session fits, and no byte outside of the
payload is read, exactly when the request fits. -/
theorem sound_iff_fits (sessions : Sessions) (t : Transport) (payload : List Byte) :
    Sound ((dataTransferGet sessions t payload).map Handling.actions) ↔
      Fits sessions t payload := by
  unfold Fits
  by_cases hshort : payload.length < 2
  · rw [dataTransferGet_short hshort]
    exact iff_of_true (sound_of_not_asked fun _ _ _ => not_mem_nil) (.inl hshort)
  · rw [or_iff_right hshort]
    have hlong : 2 ≤ payload.length := Nat.not_lt.mp hshort
    cases hfind : findSessionInstance (sessionIdOf payload) sessions with
    | none =>
      rw [dataTransferGet_unknown hlong hfind]
      exact iff_of_true (sound_of_not_asked (by simp)) (.inl rfl)
    | some session =>
      rw [dataTransferGet_known hlong hfind, or_iff_right (by simp)]
      unfold dataTransferGetCmdPayloadSize
      by_cases hten : 10 ≤ payload.length
      · rw [and_iff_right hten, readUint32_eq (by omega), readUint32_eq (by omega)]
        exact sound_handleGet_iff
      · rw [readUint32_none (by omega : payload.length ≤ 6 + 3)]
        refine iff_of_false ?_ fun h => hten h.1
        cases readUint32 payload 2 <;> rintro ⟨_, hsome, -⟩ <;> cases hsome

/-- The core plugin passes on no other payload than one of ten bytes, so nothing outside of it is
read. -/
theorem sound_corePlugin_iff (sessions : Sessions) (t : Transport) (payload : List Byte) :
    Sound (corePluginDataTransferGet sessions t payload) ↔
      (payload.length = dataTransferGetCmdPayloadSize →
        findSessionInstance (sessionIdOf payload) sessions ≠ none →
          RoomIfAsked sessions t (sessionIdOf payload) (requestedSizeOf payload)) := by
  unfold corePluginDataTransferGet
  by_cases hten : payload.length = dataTransferGetCmdPayloadSize
  · rw [if_pos hten, sound_iff_fits, Fits, forall_prop_of_true hten, hten,
      or_iff_right (by decide), and_iff_right (Nat.le_refl _)]
    exact or_iff_not_imp_left
  · rw [if_neg hten]
    exact iff_of_true (sound_of_not_asked (by simp)) fun h => absurd h hten

end Requests

/-! ## Sessions and requests -/

/-- **Data transfer.** The sessions are right through a run exactly when it is tidy, and a request
is handled soundly exactly when it fits. -/
theorem dataTransfer_right_iff {Functions T : Type} (ops : List (DataChannelOp Functions T))
    (sessions : Sessions) (t : Transport) (payload : List Byte) :
    (Throughout DataChannel.step DataChannel.Right DataChannel.init ops ↔
      Meets DataChannel.step DataChannel.Tidy DataChannel.init ops) ∧
      (Sound ((dataTransferGet sessions t payload).map Handling.actions) ↔
        Fits sessions t payload) :=
  ⟨DataChannel.sessions_right_iff_tidy ops, sound_iff_fits sessions t payload⟩

def sampleTransport : Transport :=
  ⟨some 100, some fun _ => (100, true), some fun _ => true, false⟩

def sampleSessions : Sessions := [⟨1, 0, some fun _ _ _ => (.success, 0), sampleTransport⟩]

/-- With two sessions, the deletion of the first one loses the second one; and a requested size that
wraps claims a packet of no payload and asks for 65534 bytes. -/
theorem not_dataTransfer_right :
    ¬ Throughout DataChannel.step DataChannel.Right DataChannel.init
        [.createDataTransferSession 10 0 100, .createDataTransferSession 20 1 (200 : ℕ),
          .deleteDataTransferSession (1 : Uint16)] ∧
      (dataTransferGet sampleSessions sampleTransport
          [0, 1, 0, 0, 0, 0, 0xFF, 0xFF, 0xFF, 0xFE]).map Handling.actions =
        some [.createPacket 0, .getTransferData 0 0xFFFFFFFE 0xFFFE, .flushPacket 2] ∧
      ¬ Sound ((dataTransferGet sampleSessions sampleTransport
          [0, 1, 0, 0, 0, 0, 0xFF, 0xFF, 0xFF, 0xFE]).map Handling.actions) := by
  have hactions : (dataTransferGet sampleSessions sampleTransport
      [0, 1, 0, 0, 0, 0, 0xFF, 0xFF, 0xFF, 0xFE]).map Handling.actions =
        some [.createPacket 0, .getTransferData 0 0xFFFFFFFE 0xFFFE, .flushPacket 2] := by
    decide +kernel
  refine ⟨fun h => ?_, hactions, fun h => ?_⟩
  · have hright := h _ ⟨2, [], [⟨2, 1, (200 : ℕ), 20⟩]⟩ List.prefix_rfl rfl
    exact absurd hright.holds.length_eq (by decide)
  · obtain ⟨actions, hsome, hsound⟩ := h
    obtain rfl := Option.some.inj (hactions.symm.trans hsome)
    exact absurd (hsound 0 (by decide) 0 0xFFFFFFFE 0xFFFE (by decide)) (by decide)

end Mh40.Gaia
