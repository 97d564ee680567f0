import Mh40.TrustedDevices.Records

/-!
# The trusted device list

`libs/connection/connection_tdl.c`: the list of trusted devices in the persistent store, and its
index, most recently used device first, of which a copy with hashes of addresses is kept in RAM.
`PsStore` succeeds. Messages to the security manager and to clients are left out.

* `Tdl`: the persistent store, the cached index, and the calls of `PsStore` so far.
* `tdlFindDevice`: a device, or where to put it.
* `step`: the operations on the list; `connectionInitTrustedDeviceList`: a restart.
-/

namespace Mh40.TrustedDevices

/-- `MAX_NO_DEVICES_TO_MANAGE`, 12 or 8, and `MAX_TRUSTED_DEVICES`. -/
structure Config where
  maxNoDevicesToManage : ℕ
  maxTrustedDevices : ℕ
  pos : 0 < maxTrustedDevices
  le : maxTrustedDevices ≤ maxNoDevicesToManage
  lt : maxNoDevicesToManage ≤ 12

/-- `TDI_ORDER_UNUSED`. -/
def tdiOrderUnused : ℕ := 0xF

/-- `TDI_HASH_UNUSED`. -/
def tdiHashUnused : ℕ := 0xFFF

/-- `TDI_HASH`. -/
def tdiHash (addr : Bdaddr) : ℕ := addr.lap.toNat % 0x1000

/-- `td_index_element_t`. -/
structure Element where
  hash : ℕ
  order : ℕ
deriving DecidableEq, Repr

/-- An unused element. -/
def Element.unused : Element := ⟨tdiHashUnused, tdiOrderUnused⟩

/-! ## The persistent store -/

/-- The index and, for each position, the record, the attributes and the GATT attributes. -/
structure Ps where
  index : Option (List ℕ)
  record : ℕ → Option TdData
  tdlAttribute : ℕ → Option (List Uint16)
  tdlGattAttribute : ℕ → Option (List Uint16)

/-- A call of `PsStore`; `none` deletes the key. -/
inductive PsWrite
  | index (words : Option (List ℕ))
  | record (pos : ℕ) (td : Option TdData)
  | tdlAttribute (pos : ℕ) (data : Option (List Uint16))
  | tdlGattAttribute (pos : ℕ) (data : Option (List Uint16))
deriving DecidableEq, Repr

/-- `PsStore`. -/
def Ps.store (ps : Ps) : PsWrite → Ps
  | .index words => { ps with index := words }
  | .record pos td => { ps with record := Function.update ps.record pos td }
  | .tdlAttribute pos data => { ps with tdlAttribute := Function.update ps.tdlAttribute pos data }
  | .tdlGattAttribute pos data =>
    { ps with tdlGattAttribute := Function.update ps.tdlGattAttribute pos data }

/-- A store without any key. -/
def Ps.empty : Ps := ⟨none, fun _ => none, fun _ => none, fun _ => none⟩

/-- Four bits each, the first ones lowest. -/
def packWord (orders : List ℕ) : ℕ := orders.foldr (fun order word => order % 16 + 16 * word) 0

/-- The words of the index, of which the first `n` are written. -/
def packOrders : ℕ → List ℕ → List ℕ
  | 0, _ => []
  | n + 1, orders => packWord (orders.take 4) :: packOrders n (orders.drop 4)

/-- The order at a place of the index. -/
def unpackOrder (words : List ℕ) (i : ℕ) : ℕ := words.getD (i / 4) 0 / 16 ^ (i % 4) % 16

section Operations

variable (cfg : Config)

/-- `TDI_SIZE`. -/
def Config.tdiSize : ℕ := (cfg.maxNoDevicesToManage - 1) / 4 + 1

/-- `read_trusted_device_index`. -/
def readTrustedDeviceIndex (ps : Ps) : List Element :=
  match ps.index with
  | some words =>
    if words.length = cfg.tdiSize then
      (List.range cfg.maxNoDevicesToManage).map fun i => ⟨tdiHashUnused, unpackOrder words i⟩
    else List.replicate cfg.maxNoDevicesToManage .unused
  | none => List.replicate cfg.maxNoDevicesToManage .unused

/-- The store, the cached index and the calls of `PsStore`. -/
structure Tdl where
  ps : Ps
  tdi : List Element
  writes : List PsWrite

/-- The loop of `connectionInitTrustedDeviceList`, `none` for the error path. -/
def initLoop (ps : Ps) : List Element → Option (List Element)
  | [] => some []
  | e :: es =>
    if e.order = tdiOrderUnused then some (e :: es)
    else do
      let td ← ps.record e.order
      let es ← initLoop ps es
      some ({ e with hash := tdiHash td.taddr.addr } :: es)

/-- `connectionInitTrustedDeviceList`: `none` where the list is erased, and the library panics. -/
def connectionInitTrustedDeviceList (ps : Ps) : Option Tdl := do
  let tdi := readTrustedDeviceIndex cfg ps
  let front ← initLoop ps (tdi.take cfg.maxTrustedDevices)
  some ⟨ps, front ++ tdi.drop cfg.maxTrustedDevices, []⟩

namespace Tdl

variable (s : Tdl)

/-- `PsStore`. -/
def psStore (w : PsWrite) : Tdl := { s with ps := s.ps.store w, writes := s.writes ++ [w] }

/-- `store_trusted_device_index`. -/
def storeTrustedDeviceIndex (tdi : List Element) : Tdl :=
  if tdi ≠ s.tdi then
    { s with tdi := tdi }.psStore (.index (some (packOrders cfg.tdiSize (tdi.map Element.order))))
  else s

/-- `GET_TDI_CACHE.element[idx].hash = hash`. -/
def setHash (idx hash : ℕ) : Tdl :=
  { s with tdi := s.tdi.modify idx fun e => { e with hash := hash } }

/-- The attributes are deleted, if there are any. -/
def deleteAttribute (pos : ℕ) : Tdl :=
  if (s.ps.tdlAttribute pos).isSome then s.psStore (.tdlAttribute pos none) else s

/-! ### Searching -/

/-- What `tdl_find_device` returns. -/
structure Found where
  td : Option TdData
  pos : ℕ
  idx : ℕ

/-- The first loop of `tdl_find_device`, over the elements from `idx` on: the device, or the
positions marked and the index where it ends. -/
def findLoop (taddr : TypedBdaddr) : ℕ → List ℕ → List Element → Found ⊕ (List ℕ × ℕ)
  | idx, used, [] => .inr (used, idx)
  | idx, used, e :: es =>
    if e.order = tdiOrderUnused then .inr (used, idx)
    else if e.hash = tdiHash taddr.addr ∨ e.hash = tdiHashUnused then
      match s.ps.record e.order with
      | some td =>
        if td.taddr = taddr then .inl ⟨some td, e.order, idx⟩
        else findLoop taddr (idx + 1) (e.order :: used) es
      | none => findLoop taddr (idx + 1) used es
    else findLoop taddr (idx + 1) (e.order :: used) es

/-- The loop from the end of a full list: the first element without the priority flag, but for the
very first element, with the position read last. -/
def victimLoop : ℕ → ℕ → ℕ × ℕ
  | 0, pos => (pos, 0)
  | idx + 1, _ =>
    let pos := (s.tdi.getD (idx + 1) .unused).order
    match s.ps.record pos with
    | some td => if !td.content.priorityDevice then (pos, idx + 1) else victimLoop idx pos
    | none => victimLoop idx pos

/-- The first position that is not marked. -/
def freePos (used : List ℕ) : ℕ := ((List.range 16).find? fun pos => pos ∉ used).getD 16

/-- `tdl_find_device`. -/
def tdlFindDevice (taddr : TypedBdaddr) : Found :=
  match s.findLoop taddr 0 [] (s.tdi.take cfg.maxTrustedDevices) with
  | .inl found => found
  | .inr (used, idx) =>
    if idx < cfg.maxTrustedDevices then ⟨none, freePos used, idx⟩
    else
      let last := cfg.maxTrustedDevices - 1
      let (pos, idx) := s.victimLoop last (s.tdi.getD last .unused).order
      ⟨none, pos, idx⟩

/-! ### The index -/

/-- The loop of `update_trusted_device_index`. -/
def moveDown : ℕ → List Element → List Element
  | 0, tdi => tdi
  | idx + 1, tdi => moveDown idx (tdi.set (idx + 1) (tdi.getD idx .unused))

/-- `update_trusted_device_index`. -/
def updateTrustedDeviceIndex (pos idx : ℕ) : Tdl :=
  let tdevice := s.tdi.getD idx .unused
  s.storeTrustedDeviceIndex cfg ((moveDown idx s.tdi).set 0 { tdevice with order := pos })

/-- The loop of `delete_from_trusted_device_list`, of `n` turns. -/
def moveUp : ℕ → ℕ → List Element → List Element
  | 0, _, tdi => tdi
  | n + 1, i, tdi => moveUp n (i + 1) (tdi.set i (tdi.getD (i + 1) .unused))

/-- `delete_from_trusted_device_list`. -/
def deleteFromTrustedDeviceList (pos idx : ℕ) : Tdl :=
  let last := cfg.maxTrustedDevices - 1
  let s := s.storeTrustedDeviceIndex cfg ((moveUp (last - idx) idx s.tdi).set last .unused)
  let s := s.psStore (.record pos none)
  let s := s.deleteAttribute pos
  s.psStore (.tdlGattAttribute pos none)

/-! ### Operations -/

/-- The loop of `ConnectionAuthSetPriorityDevice`: the element `e` moves behind the priority
devices that follow it; `td` is the record read last. -/
def sinkLoop (ps : Ps) (td : TdData) (e : Element) : List Element → List Element
  | [] => [e]
  | e' :: es =>
    if e'.order = tdiOrderUnused then e :: e' :: es
    else
      let td := (ps.record e'.order).getD td
      if td.content.priorityDevice then e' :: sinkLoop ps td e es else e :: e' :: es

/-- `ConnectionAuthSetPriorityDevice`. -/
def connectionAuthSetPriorityDevice (addr : Bdaddr) (isPriorityDevice : Bool) : Bool × Tdl :=
  let found := s.tdlFindDevice cfg ⟨.bdaddrPublic, addr⟩
  match found.td with
  | some td =>
    let td := { td with content := { td.content with priorityDevice := isPriorityDevice } }
    let s := s.psStore (.record found.pos (some td))
    let s := s.updateTrustedDeviceIndex cfg found.pos found.idx
    if !isPriorityDevice then
      (true, s.storeTrustedDeviceIndex cfg (match s.tdi with
        | [] => []
        | e :: es => sinkLoop s.ps td e es))
    else (true, s)
  | none => (false, s)

/-- `CL_INTERNAL_SM_ADD_AUTH_DEVICE_REQ_T`. -/
structure AddAuthDeviceReq where
  bdAddr : Bdaddr
  linkKeyType : Uint16
  linkKey : List Uint16
  trusted : Uint16
  bonded : Bool
deriving DecidableEq, Repr

/-- `DM_SM_LINK_KEY_DEBUG`. -/
def linkKeyDebug : Uint16 := 3

/-- `DM_SM_LINK_KEY_AUTHENTICATED_P192`. -/
def linkKeyAuthenticatedP192 : Uint16 := 5

/-- `DM_SM_LINK_KEY_AUTHENTICATED_P256`. -/
def linkKeyAuthenticatedP256 : Uint16 := 8

/-- The device is to be stored. -/
def AddAuthDeviceReq.isStored (req : AddAuthDeviceReq) : Bool :=
  req.bonded && decide (req.linkKeyType ≠ linkKeyDebug)

/-- The record of a device that is added, from the one that was there or a new one. -/
def AddAuthDeviceReq.record (req : AddAuthDeviceReq) (td : TdData) : TdData :=
  let td := packTdKey td (req.linkKeyType :: req.linkKey) .keyEncBredr
  let td := { td with content := { td.content with trusted := decide (req.trusted ≠ 0) } }
  packTdSecurityRequirements td (if req.isStored then
    securityEncryption ||| securityBonding |||
      if req.linkKeyType = linkKeyAuthenticatedP192 ∨ req.linkKeyType = linkKeyAuthenticatedP256
        then securityMitmProtection else 0
    else securityEncryption)

/-- `connectionAuthAddDevice`. -/
def connectionAuthAddDevice (req : AddAuthDeviceReq) : Bool × Tdl :=
  let found := s.tdlFindDevice cfg ⟨.bdaddrPublic, req.bdAddr⟩
  let s :=
    match found.td with
    | some _ =>
      if !req.bonded then
        (s.deleteFromTrustedDeviceList cfg found.pos found.idx).deleteAttribute found.pos
      else s
    | none => s.deleteAttribute found.pos
  if req.isStored then
    let td := req.record (found.td.getD (packTdBdaddr .zero .bdaddrPublic req.bdAddr))
    let s := s.psStore (.record found.pos (some td))
    let s := s.setHash found.idx (tdiHash req.bdAddr)
    let s := s.updateTrustedDeviceIndex cfg found.pos found.idx
    s.connectionAuthSetPriorityDevice cfg req.bdAddr false
  else (true, s)

/-- `connectionAuthAddDeviceRaw`, the data as the record that they are. -/
def connectionAuthAddDeviceRaw (taddr : TypedBdaddr) (data : Option TdData) : Bool × Tdl :=
  let found := s.tdlFindDevice cfg taddr
  match found.td, data with
  | none, some td =>
    let s := s.deleteAttribute found.pos
    let s := s.psStore (.record found.pos (some td))
    let s := s.setHash found.idx (tdiHash taddr.addr)
    let s := s.updateTrustedDeviceIndex cfg found.pos found.idx
    s.connectionAuthSetPriorityDevice cfg taddr.addr false
  | _, _ => (false, s)

/-- `DM_SM_KEYS_T`. -/
structure DmSmKeys where
  keys : List (DmSmKeyType × List Uint16)
  securityRequirements : Uint16
  encryptionKeySize : Uint16
deriving DecidableEq, Repr

/-- A turn of the loop over the keys; the flag is `ble_key_present`. -/
def DmSmKeys.pack (td : TdData × Bool) : DmSmKeyType × List Uint16 → TdData × Bool
  | (.none, _) | (.sign, _) => td
  | (.div, key) => (packTdKey td.1 key .keyDiv, true)
  | (.encCentral, key) => (packTdKey td.1 key .keyEncCentral, true)
  | (.id, key) => (packTdKey td.1 key .keyId, true)
  | (.encBredr, key) => (packTdKey td.1 key .keyEncBredr, td.2)

/-- The record with the keys. -/
def DmSmKeys.record (keys : DmSmKeys) (td : TdData) : TdData :=
  let (td, bleKeyPresent) := keys.keys.foldl DmSmKeys.pack (td, false)
  if bleKeyPresent then
    packTdEncKeySize (packTdSecurityRequirements td keys.securityRequirements)
      keys.encryptionKeySize
  else td

/-- The GATT attributes of a new device, which is aware of changes. -/
def newGattAttribute (taddr : TypedBdaddr) : List Uint16 :=
  let bdaddr := (packTdBdaddr .zero taddr.type taddr.addr).bdaddr
  [bdaddr.1, bdaddr.2.1, bdaddr.2.2, match taddr.type with
    | .bdaddrPublic => 0x0008
    | .bdaddrRandom => 0x0009]

/-- `connectionAuthUpdateTdl`. -/
def connectionAuthUpdateTdl (taddr : TypedBdaddr) (keys : DmSmKeys) : Tdl :=
  let found := s.tdlFindDevice cfg taddr
  let s :=
    match found.td with
    | some _ => s
    | none =>
      let s := s.deleteAttribute found.pos
      let s := s.psStore (.tdlGattAttribute found.pos (some (newGattAttribute taddr)))
      s.setHash found.idx (tdiHash taddr.addr)
  let td := keys.record (found.td.getD (packTdBdaddr .zero taddr.type taddr.addr))
  let s := s.psStore (.record found.pos (some td))
  s.updateTrustedDeviceIndex cfg found.pos found.idx

/-- `connectionAuthReplaceIrk`. -/
def connectionAuthReplaceIrk (addr : Bdaddr) (newIrk : List Uint16) : Bool × Tdl :=
  let found := s.tdlFindDevice cfg ⟨.bdaddrPublic, addr⟩
  match found.td with
  | some td =>
    let s := s.psStore (.record found.pos (some (packTdKey td newIrk .keyId)))
    (true, s.updateTrustedDeviceIndex cfg found.pos found.idx)
  | none => (false, s)

/-- `connectionAuthDeleteDevice`. -/
def connectionAuthDeleteDevice (taddr : TypedBdaddr) : Bool × Tdl :=
  let found := s.tdlFindDevice cfg taddr
  match found.td with
  | some td =>
    if !td.content.priorityDevice then
      (true, (s.deleteFromTrustedDeviceList cfg found.pos found.idx).deleteAttribute found.pos)
    else (false, s)
  | none => (false, s)

/-- The loop of `connectionAuthDeleteAllDevice`: the elements that are left, and whether any device
has been deleted. -/
def deleteAllLoop (s : Tdl) : List Element → Tdl × List Element × Bool
  | [] => (s, [], false)
  | e :: es =>
    match if e.order ≠ tdiOrderUnused then s.ps.record e.order else none with
    | some td =>
      if !td.content.priorityDevice then
        let s := s.psStore (.record e.order none)
        let s := s.psStore (.tdlAttribute e.order none)
        let s := s.psStore (.tdlGattAttribute e.order none)
        let (s, es, _) := deleteAllLoop s es
        (s, .unused :: es, true)
      else
        let (s, es, deleted) := deleteAllLoop s es
        (s, e :: es, deleted)
    | none =>
      let (s, es, deleted) := deleteAllLoop s es
      (s, e :: es, deleted)

/-- `connectionAuthDeleteAllDevice`. -/
def connectionAuthDeleteAllDevice : Bool × Tdl :=
  let (s', es, deleted) := deleteAllLoop s (s.tdi.take cfg.maxTrustedDevices)
  if deleted then
    (true, s'.storeTrustedDeviceIndex cfg (es ++ s.tdi.drop cfg.maxTrustedDevices))
  else (false, s')

/-- `connectionAuthDeleteDeviceFromTdl`. -/
def connectionAuthDeleteDeviceFromTdl (taddr : TypedBdaddr) : Tdl :=
  let found := s.tdlFindDevice cfg taddr
  match found.td with
  | some _ => s.deleteFromTrustedDeviceList cfg found.pos found.idx
  | none => s

/-- `connectionAuthUpdateMru`. -/
def connectionAuthUpdateMru (addr : Bdaddr) : Bool × Tdl :=
  let found := s.tdlFindDevice cfg ⟨.bdaddrPublic, addr⟩
  match found.td with
  | some _ => (true, s.updateTrustedDeviceIndex cfg found.pos found.idx)
  | none => (false, s)

/-- `connectionAuthSetTrustLevel`. -/
def connectionAuthSetTrustLevel (addr : Bdaddr) (trusted : Uint16) : Bool × Tdl :=
  let found := s.tdlFindDevice cfg ⟨.bdaddrPublic, addr⟩
  match found.td with
  | some td =>
    let td := { td with content := { td.content with trusted := decide (trusted ≠ 0) } }
    (true, s.psStore (.record found.pos (some td)))
  | none => (false, s)

/-- `ConnectionAuthSetBlePrivacyMode`; the mode is whether it is `privacy_mode_device`. -/
def connectionAuthSetBlePrivacyMode (taddr : TypedBdaddr) (mode : Bool) : Bool × Tdl :=
  let found := s.tdlFindDevice cfg taddr
  match found.td with
  | some td =>
    if td.content.hasKey .keyEncCentral then
      if td.content.privacyMode ≠ mode then
        let td := { td with content := { td.content with privacyMode := mode } }
        (true, s.psStore (.record found.pos (some td)))
      else (true, s)
    else (false, s)
  | none => (false, s)

/-- `ConnectionTrustedDeviceListDuplicate`. -/
def connectionTrustedDeviceListDuplicate (existingAddr newAddr : Bdaddr) : Bool × Tdl :=
  if existingAddr.isZero || newAddr.isZero then (false, s)
  else
    match (s.tdlFindDevice cfg ⟨.bdaddrPublic, existingAddr⟩).td with
    | none => (false, s)
    | some tdExisting =>
      let found := s.tdlFindDevice cfg ⟨.bdaddrPublic, newAddr⟩
      let s :=
        match found.td with
        | some _ => s.deleteFromTrustedDeviceList cfg found.pos found.idx
        | none => s
      let td := packTdBdaddr tdExisting .bdaddrPublic newAddr
      let s := s.psStore (.record found.pos (some td))
      let s := s.setHash found.idx (tdiHash newAddr)
      (true, s.updateTrustedDeviceIndex cfg found.pos found.idx)

/-- `connectionAuthPutAttribute`. -/
def connectionAuthPutAttribute (taddr : TypedBdaddr) (data : List Uint16) : Tdl :=
  let found := s.tdlFindDevice cfg taddr
  match found.td with
  | some _ => s.psStore (.tdlAttribute found.pos (some data))
  | none => s

/-- `ConnectionPutGattAttribute`. -/
def connectionPutGattAttribute (taddr : TypedBdaddr) (data : List Uint16) : Tdl :=
  let found := s.tdlFindDevice cfg taddr
  match found.td with
  | some _ => s.psStore (.tdlGattAttribute found.pos (some data))
  | none => s

end Tdl

/-- The operations on the list. -/
inductive Op
  | addDevice (req : Tdl.AddAuthDeviceReq)
  | addDeviceRaw (taddr : TypedBdaddr) (data : Option TdData)
  | updateTdl (taddr : TypedBdaddr) (keys : Tdl.DmSmKeys)
  | replaceIrk (addr : Bdaddr) (newIrk : List Uint16)
  | deleteDevice (taddr : TypedBdaddr)
  | deleteAllDevice
  | deleteDeviceFromTdl (taddr : TypedBdaddr)
  | setPriorityDevice (addr : Bdaddr) (isPriorityDevice : Bool)
  | updateMru (addr : Bdaddr)
  | setTrustLevel (addr : Bdaddr) (trusted : Uint16)
  | setBlePrivacyMode (taddr : TypedBdaddr) (mode : Bool)
  | duplicate (existingAddr newAddr : Bdaddr)
  | putAttribute (taddr : TypedBdaddr) (data : List Uint16)
  | putGattAttribute (taddr : TypedBdaddr) (data : List Uint16)
deriving DecidableEq, Repr

/-- An operation. -/
def Tdl.perform (s : Tdl) : Op → Tdl
  | .addDevice req => (s.connectionAuthAddDevice cfg req).2
  | .addDeviceRaw taddr data => (s.connectionAuthAddDeviceRaw cfg taddr data).2
  | .updateTdl taddr keys => s.connectionAuthUpdateTdl cfg taddr keys
  | .replaceIrk addr newIrk => (s.connectionAuthReplaceIrk cfg addr newIrk).2
  | .deleteDevice taddr => (s.connectionAuthDeleteDevice cfg taddr).2
  | .deleteAllDevice => (s.connectionAuthDeleteAllDevice cfg).2
  | .deleteDeviceFromTdl taddr => s.connectionAuthDeleteDeviceFromTdl cfg taddr
  | .setPriorityDevice addr isPriorityDevice =>
    (s.connectionAuthSetPriorityDevice cfg addr isPriorityDevice).2
  | .updateMru addr => (s.connectionAuthUpdateMru cfg addr).2
  | .setTrustLevel addr trusted => (s.connectionAuthSetTrustLevel cfg addr trusted).2
  | .setBlePrivacyMode taddr mode => (s.connectionAuthSetBlePrivacyMode cfg taddr mode).2
  | .duplicate existingAddr newAddr =>
    (s.connectionTrustedDeviceListDuplicate cfg existingAddr newAddr).2
  | .putAttribute taddr data => s.connectionAuthPutAttribute cfg taddr data
  | .putGattAttribute taddr data => s.connectionPutGattAttribute cfg taddr data

end Operations

end Mh40.TrustedDevices
