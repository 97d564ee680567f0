import Mathlib.Algebra.Order.Ring.Nat
import Mathlib.Data.List.Basic

/-!
# Records of trusted devices

`libs/connection/connection_tdl.c`: the packed record of a device in the persistent store, its
address and its link keys.

* `TdData`: `td_data_t`, the data as its 16-bit words.
* `packTdBdaddr`, `TdData.taddr`: the address is read back as it was packed (`taddr_pack`).
* `packTdKey`: a key is put in its place among the keys present.
-/

namespace Mh40.TrustedDevices

open BitVec

abbrev Uint16 := BitVec 16

/-- The types of addresses that devices have. -/
inductive AddrType
  | bdaddrPublic
  | bdaddrRandom
deriving DecidableEq, Repr

/-- `bdaddr`. -/
structure Bdaddr where
  lap : BitVec 24
  uap : BitVec 8
  nap : Uint16
deriving DecidableEq, Repr

/-- `BdaddrIsZero`. -/
def Bdaddr.isZero (addr : Bdaddr) : Bool := decide (addr = ⟨0, 0, 0⟩)

/-- `typed_bdaddr`. -/
structure TypedBdaddr where
  type : AddrType
  addr : Bdaddr
deriving DecidableEq, Repr

/-- `content_t`. -/
structure Content where
  addrType : AddrType
  trusted : Bool
  keySize : BitVec 4
  securityReq : BitVec 3
  priorityDevice : Bool
  dataFlags : BitVec 5
  privacyMode : Bool
deriving DecidableEq, Repr

/-- `td_data_t`. -/
structure TdData where
  bdaddr : Uint16 × Uint16 × Uint16
  content : Content
  data : List Uint16
deriving DecidableEq, Repr

/-- A record that has been cleared. -/
def TdData.zero : TdData := ⟨(0, 0, 0), ⟨.bdaddrPublic, false, 0, 0, false, 0, false⟩, []⟩

/-- `pack_td_bdaddr`. -/
def packTdBdaddr (td : TdData) (type : AddrType) (addr : Bdaddr) : TdData :=
  { td with
    content := { td.content with addrType := type }
    bdaddr :=
      (addr.nap,
        addr.uap.setWidth 16 <<< 8 ||| ((addr.lap &&& 0xFF0000#24) >>> 16).setWidth 16,
        addr.lap.setWidth 16) }

/-- `unpack_td_bdaddr`. -/
def TdData.taddr (td : TdData) : TypedBdaddr :=
  ⟨td.content.addrType,
    { nap := td.bdaddr.1
      uap := (td.bdaddr.2.1 >>> 8).setWidth 8
      lap := (td.bdaddr.2.1 &&& 0xFF#16).setWidth 24 <<< 16 ||| td.bdaddr.2.2.setWidth 24 }⟩

section Packing

variable (uap : BitVec 8) (lap : BitVec 24)

theorem unpack_uap :
    ((uap.setWidth 16 <<< 8 ||| ((lap &&& 0xFF0000#24) >>> 16).setWidth 16) >>> 8).setWidth 8 =
      uap := by
  ext i hi
  have hlt : 8 + i < 16 := by omega
  have hge : 24 ≤ 16 + (8 + i) := by omega
  simp [hlt, getLsbD_of_ge _ _ hge, getLsbD_eq_getElem, hi]

theorem unpack_lap :
    ((uap.setWidth 16 <<< 8 ||| ((lap &&& 0xFF0000#24) >>> 16).setWidth 16) &&& 0xFF#16).setWidth 24
        <<< 16 ||| (lap.setWidth 16).setWidth 24 = lap := by
  have hlow : ∀ k < 16, (0xFF#16).getLsbD k = decide (k < 8) := by decide
  have hhigh : ∀ k < 24, (0xFF0000#24).getLsbD k = decide (16 ≤ k) := by decide
  apply eq_of_getLsbD_eq
  intro i hi
  simp only [getLsbD_or, getLsbD_shiftLeft, getLsbD_setWidth,
    getLsbD_and, getLsbD_ushiftRight, hi, decide_true, Bool.true_and]
  by_cases h : i < 16
  · simp only [h, decide_true, Bool.not_true, Bool.false_and, Bool.true_and, Bool.false_or]
  · have h24 : i - 16 < 24 := by omega
    have h16 : i - 16 < 16 := by omega
    have h8 : i - 16 < 8 := by omega
    have hsum : 16 + (i - 16) = i := by omega
    have hle : 16 ≤ i := by omega
    rw [hlow _ h16, hsum, hhigh i hi]
    simp only [h, h24, h16, h8, hle, decide_true, decide_false, Bool.not_true, Bool.not_false,
      Bool.false_and, Bool.true_and, Bool.and_true, Bool.or_false, Bool.false_or]

end Packing

/-- The address is read back as it was packed. -/
@[simp]
theorem taddr_pack (td : TdData) (type : AddrType) (addr : Bdaddr) :
    (packTdBdaddr td type addr).taddr = ⟨type, addr⟩ := by
  unfold TdData.taddr packTdBdaddr
  dsimp only
  rw [unpack_uap, unpack_lap]

/-! ## Keys -/

/-- `TDL_DATA_TYPE_T`. -/
inductive TdlDataType
  | keyEncBredr
  | keyEncCentral
  | keyDiv
  | keySign
  | keyId
deriving DecidableEq, Repr

namespace TdlDataType

/-- The mask of the type among the data flags. -/
def mask : TdlDataType → BitVec 5
  | keyEncBredr => 0x01
  | keyEncCentral => 0x02
  | keyDiv => 0x04
  | keySign => 0x08
  | keyId => 0x10

/-- `get_data_type_size`, in words. -/
def size : TdlDataType → ℕ
  | keyEncBredr => 9
  | keyEncCentral => 13
  | keyDiv => 1
  | keySign => 0
  | keyId => 8

end TdlDataType

namespace Content

variable (content : Content)

/-- The key is there. -/
def hasKey (type : TdlDataType) : Bool := decide (content.dataFlags &&& type.mask ≠ 0)

/-- The words of a key that may be there. -/
def keyWords (type : TdlDataType) : ℕ := if content.hasKey type then type.size else 0

/-- `calc_td_data_size`, in words. -/
def calcTdDataSize : ℕ :=
  content.keyWords .keyEncBredr + content.keyWords .keyEncCentral + content.keyWords .keyDiv +
    content.keyWords .keySign + content.keyWords .keyId

/-- `calc_td_data_offset`, in words. -/
def calcTdDataOffset : TdlDataType → ℕ
  | .keyEncBredr => 0
  | .keyEncCentral => content.keyWords .keyEncBredr
  | .keyDiv => content.keyWords .keyEncBredr + content.keyWords .keyEncCentral
  | .keySign | .keyId =>
    content.keyWords .keyEncBredr + content.keyWords .keyEncCentral + content.keyWords .keyDiv

end Content

/-- `pack_td_key`. -/
def packTdKey (td : TdData) (key : List Uint16) (type : TdlDataType) : TdData :=
  let offset := td.content.calcTdDataOffset type
  { td with
    content := { td.content with dataFlags := td.content.dataFlags ||| type.mask }
    data := td.data.take offset ++ key.take type.size ++
      td.data.drop (offset + td.content.keyWords type) }

/-- `DM_SM_KEY_TYPE_T`. -/
inductive DmSmKeyType
  | none
  | encBredr
  | encCentral
  | div
  | sign
  | id
deriving DecidableEq, Repr

/-! ## Security requirements -/

/-- `DM_SM_SECURITY_BONDING`. -/
def securityBonding : Uint16 := 0x0001

/-- `DM_SM_SECURITY_MITM_PROTECTION`. -/
def securityMitmProtection : Uint16 := 0x0004

/-- `DM_SM_SECURITY_ENCRYPTION`. -/
def securityEncryption : Uint16 := 0x4000

/-- `pack_td_security_requirements`. -/
def packTdSecurityRequirements (td : TdData) (securityRequirements : Uint16) : TdData :=
  { td with
    content := { td.content with
      securityReq := (securityRequirements &&& 0x5).setWidth 3 |||
        ((securityRequirements >>> 2) &&& 0x2).setWidth 3 } }

/-- `PACK_TD_ENC_KEY_SIZE`. -/
def packTdEncKeySize (td : TdData) (encryptionKeySize : Uint16) : TdData :=
  { td with content := { td.content with keySize := (encryptionKeySize - 6).setWidth 4 } }

end Mh40.TrustedDevices
