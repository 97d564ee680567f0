import Mh40.TrustedDevices.Records

/-!
# Packed link keys

`pack_td_key` and `unpack_td_key` in the memory of a record, and the readers of its keys. Sizes and
offsets are in words of 16 bits, as in `Records.lean`.

* `moveWords`: `memmove`, inside of two blocks.
* `Layout`: the words in use are those of the keys, one after the other.
* **`packed_right_iff`**: after every sequence of packed keys each key is the last one packed for
  its type, and the readers return keys that are there, exactly when there is a BR/EDR key.
* `not_packed_right`: of a record with an identity key only, `connectionAuthGetDevice` returns
  the identity key.
-/

namespace Mh40.TrustedDevices

open Option

/-! ## Model -/

/-- `memmove` of `n` words: `none` when it leaves one of the blocks. -/
def moveWords (dst : List Uint16) (d : ℕ) (src : List Uint16) (i n : ℕ) : Option (List Uint16) :=
  if d + n ≤ dst.length ∧ i + n ≤ src.length then
    some (dst.take d ++ (src.drop i).take n ++ dst.drop (d + n))
  else none

/-- `realloc` to a number of words: what is new is what the memory holds. -/
def reallocWords (fresh : ℕ → Uint16) (block : List Uint16) (words : ℕ) : List Uint16 :=
  (List.range words).map fun i => block.getD i (fresh i)

/-- A key to pack, of the four types that are supported. -/
inductive TdKey where
  | encBredr (linkKeyType : Uint16) (linkKey : Vector Uint16 8)
  | encCentral (ediv : Uint16) (rand : Vector Uint16 4) (ltk : Vector Uint16 8)
  | div (value : Uint16)
  | id (irk : Vector Uint16 8)
  deriving DecidableEq

/-- `convert_dm_sm_to_tdl_key_type` of its type. -/
def TdKey.type : TdKey → TdlDataType
  | .encBredr _ _ => .keyEncBredr
  | .encCentral _ _ _ => .keyEncCentral
  | .div _ => .keyDiv
  | .id _ => .keyId

def TdKey.words : TdKey → List Uint16
  | .encBredr linkKeyType linkKey => linkKeyType :: linkKey.toList
  | .encCentral ediv rand ltk => ediv :: rand.toList ++ ltk.toList
  | .div value => [value]
  | .id irk => irk.toList

/-- The record with the flag of the type. -/
def TdData.setKey (td : TdData) (type : TdlDataType) : TdData :=
  { td with content := { td.content with dataFlags := td.content.dataFlags ||| type.mask } }

/-- The space for a key that is not there: the memory has `SIZE_TD` bytes besides the keys, two of
them behind the keys. -/
def makeSpace (fresh : ℕ → Uint16) (td : TdData) (type : TdlDataType) : Option TdData :=
  let offset := td.content.calcTdDataOffset type
  let sizePrevData := td.content.calcTdDataSize
  let td := td.setKey type
  let data := reallocWords fresh td.data (td.content.calcTdDataSize + 1)
  if offset < sizePrevData then
    (moveWords data (offset + type.size) data offset (sizePrevData - offset)).map fun data =>
      { td with data }
  else some { td with data }

/-- `pack_td_key`. The `data` of the record are the words up to the end of its memory. -/
def packKey (fresh : ℕ → Uint16) (td : TdData) (key : TdKey) : Option TdData :=
  let offset := td.content.calcTdDataOffset key.type
  (if td.content.hasKey key.type then some td else makeSpace fresh td key.type).bind fun td =>
    (moveWords td.data offset key.words 0 key.type.size).map fun data => { td with data }

def packKeys (fresh : ℕ → Uint16) (td : TdData) (keys : List TdKey) : Option TdData :=
  keys.foldlM (packKey fresh) td

/-- `unpack_td_key`: `none` is a read behind the memory of the record. -/
def unpackTdKey (td : TdData) (type : TdlDataType) : Option (List Uint16) :=
  let offset := td.content.calcTdDataOffset type
  if offset + type.size ≤ td.data.length then some ((td.data.drop offset).take type.size)
  else none

/-- The link key types of the connection library. -/
inductive ClSmLinkKeyType where
  | none
  | legacy
  | debug
  | unauthenticatedP192
  | authenticatedP192
  | changed
  | unauthenticatedP256
  | authenticatedP256
  deriving DecidableEq

/-- `connectionConvertLinkKeyType`. -/
def convertLinkKeyType (linkKeyType : BitVec 8) : ClSmLinkKeyType :=
  match linkKeyType.toNat with
  | 0 => .legacy
  | 3 => .debug
  | 4 => .unauthenticatedP192
  | 5 => .authenticatedP192
  | 6 => .changed
  | 7 => .unauthenticatedP256
  | 8 => .authenticatedP256
  | _ => .none

structure AuthDevice where
  linkKeyType : ClSmLinkKeyType
  linkKey : List Uint16
  trusted : Bool
  deriving DecidableEq

/-- `connectionAuthGetDevice`, with the record that `tdl_find_device` has found. -/
def connectionAuthGetDevice : Option TdData → Option (Option AuthDevice)
  | none => some none
  | some td =>
    (unpackTdKey td .keyEncBredr).map fun encBredr =>
      some
        { linkKeyType := convertLinkKeyType ((encBredr.getD 0 0).setWidth 8)
          linkKey := encBredr.tail
          trusted := td.content.trusted }

/-- What `dm_sm_add_device_req` tells to be present. -/
def presentType : TdlDataType → DmSmKeyType
  | .keyEncBredr => .encBredr
  | .keyEncCentral => .encCentral
  | .keyDiv => .div
  | .keySign => .none
  | .keyId => .id

/-- The loop of `dm_sm_add_device_req` over the types: the keys of the request. -/
def addDeviceKeys (td : TdData) : List TdlDataType → Option (List (DmSmKeyType × List Uint16))
  | [] => some []
  | type :: types =>
    if td.content.hasKey type then
      (unpackTdKey td type).bind fun key =>
        (addDeviceKeys td types).map fun keys => (presentType type, key) :: keys
    else addDeviceKeys td types

/-- `TDL_DATA_TYPE_T`, in its order. -/
def tdlDataTypes : List TdlDataType :=
  [.keyEncBredr, .keyEncCentral, .keyDiv, .keySign, .keyId]

/-- `DM_SM_ADD_DEVICE_REQ_T`, without the fields that have a default. -/
structure AddDeviceReq where
  addrt : TypedBdaddr
  trust : Bool
  securityRequirements : Uint16
  keys : List (DmSmKeyType × List Uint16)
  encryptionKeySize : Uint16
  deriving DecidableEq

/-- `unpack_td_security_requirements`. -/
def unpackTdSecurityRequirements (td : TdData) : Uint16 :=
  (td.content.securityReq &&& 5).setWidth 16 ||| (td.content.securityReq &&& 2).setWidth 16 <<< 2

/-- `dm_sm_add_device_req`. -/
def dmSmAddDeviceReq (td : TdData) : Option AddDeviceReq :=
  (addDeviceKeys td tdlDataTypes).map fun keys =>
    { addrt := td.taddr
      trust := td.content.trusted
      securityRequirements := unpackTdSecurityRequirements td
      keys
      encryptionKeySize := td.content.keySize.setWidth 16 + 6 }

/-! ## Moves -/

open List

variable {fresh : ℕ → Uint16} {td td' : TdData} {key : TdKey} {keys : List TdKey}
  {type : TdlDataType} {front back rest words : List Uint16}

theorem length_words (key : TdKey) : key.words.length = key.type.size := by
  cases key with
  | encBredr => rw [TdKey.words, length_cons, Vector.length_toList, TdKey.type]; rfl
  | encCentral =>
    rw [TdKey.words, length_append, length_cons, Vector.length_toList,
      Vector.length_toList, TdKey.type]
    rfl
  | div => rfl
  | id => rw [TdKey.words, Vector.length_toList, TdKey.type]; rfl

/-- Words put between those in front and those behind. -/
theorem moveWords_put (hlen : rest.length = words.length) :
    moveWords (front ++ rest ++ back) front.length words 0 words.length =
      some (front ++ words ++ back) := by
  have htake : (front ++ rest ++ back).take front.length = front := by
    rw [append_assoc, take_left' rfl]
  have hdrop : (front ++ rest ++ back).drop (front.length + words.length) = back :=
    drop_left' (by rw [length_append, hlen])
  rw [moveWords, if_pos (by simp [hlen]), drop_zero, take_length, htake, hdrop]

/-- The words of a longer memory are kept. -/
theorem reallocWords_append {n : ℕ} (fresh : ℕ → Uint16) (back : List Uint16)
    (h : front.length ≤ n) :
    ∃ rest, reallocWords fresh (front ++ back) n = front ++ rest ∧
      rest.length = n - front.length := by
  refine ⟨(reallocWords fresh (front ++ back) n).drop front.length, ?_, ?_⟩
  · conv_lhs => rw [← take_append_drop front.length (reallocWords _ _ _)]
    refine congrArg (· ++ _) (ext_getElem (by simp [reallocWords, h]) fun i hi hi' => ?_)
    rw [getElem_take]
    simp [reallocWords, getD_eq_getElem?_getD, List.getElem?_append_left hi',
      List.getElem?_eq_getElem hi']
  · simp [reallocWords]

/-- Room made between the words in front and those behind. -/
theorem moveWords_room {room : ℕ} (front back : List Uint16) (hlen : rest.length = room + 1) :
    ∃ gap rest', moveWords (front ++ back ++ rest) (front.length + room) (front ++ back ++ rest)
      front.length back.length = some (front ++ gap ++ (back ++ rest')) ∧ gap.length = room := by
  have htake : ∃ gap, (front ++ back ++ rest).take (front.length + room) = front ++ gap ∧
      gap.length = room := by
    refine ⟨(back ++ rest).take room, ?_, ?_⟩
    · rw [append_assoc, take_length_add_append]
    · rw [length_take, length_append]
      omega
  have hback : ((front ++ back ++ rest).drop front.length).take back.length = back := by
    rw [append_assoc, drop_left' rfl, take_left' rfl]
  obtain ⟨gap, htake, hgap⟩ := htake
  refine ⟨gap, (front ++ back ++ rest).drop (front.length + room + back.length), ?_, hgap⟩
  rw [moveWords, if_pos (by simp [hlen]; omega), htake, hback, append_assoc]

/-! ## Flags -/

theorem hasKey_setKey (td : TdData) (type type' : TdlDataType) :
    (td.setKey type).content.hasKey type' = (decide (type' = type) || td.content.hasKey type') := by
  have hflags : ∀ flags : BitVec 5, decide ((flags ||| type.mask) &&& type'.mask ≠ 0) =
      (decide (type' = type) || decide (flags &&& type'.mask ≠ 0)) := by
    cases type <;> cases type' <;> decide
  exact hflags td.content.dataFlags

theorem setKey_of_hasKey (h : td.content.hasKey type = true) : td.setKey type = td := by
  have hflags : ∀ flags : BitVec 5, decide (flags &&& type.mask ≠ 0) = true →
      flags ||| type.mask = flags := by
    cases type <;> decide
  rw [TdData.setKey, hflags td.content.dataFlags h]

theorem keyWords_setKey (td : TdData) (type type' : TdlDataType) :
    (td.setKey type).content.keyWords type' =
      if type' = type then type.size else td.content.keyWords type' := by
  rw [Content.keyWords, hasKey_setKey]
  by_cases h : type' = type
  · subst h
    simp
  · simp [h, Content.keyWords]

theorem keyWords_sign (content : Content) : content.keyWords .keySign = 0 := by
  unfold Content.keyWords
  split_ifs <;> rfl

/-! ## Layout -/

/-- The words in use are those of the keys, one after the other. -/
structure Layout (content : Content) (used : List Uint16) (values : TdlDataType → List Uint16) :
    Prop where
  used : used = values .keyEncBredr ++ values .keyEncCentral ++ values .keyDiv ++ values .keyId
  length : ∀ type, (values type).length = content.keyWords type

variable {content : Content} {used : List Uint16} {values : TdlDataType → List Uint16}

theorem Layout.length_used (h : Layout content used values) :
    used.length = content.calcTdDataSize := by
  have hsign := keyWords_sign content
  rw [h.used, Content.calcTdDataSize, length_append, length_append, length_append,
    h.length, h.length, h.length, h.length]
  omega

/-- Every used part has a layout. -/
theorem layout_of_length (h : used.length = content.calcTdDataSize) :
    ∃ values, Layout content used values := by
  have hsign := keyWords_sign content
  rw [Content.calcTdDataSize] at h
  refine ⟨fun type => (used.drop (content.calcTdDataOffset type)).take (content.keyWords type),
    ?_, fun type => ?_⟩
  · have hcut (n m : ℕ) : (used.drop n).take m ++ used.drop (n + m) = used.drop n := by
      rw [← drop_drop, take_append_drop]
    have hlast : (used.drop (content.calcTdDataOffset .keyId)).take (content.keyWords .keyId) =
        used.drop (content.calcTdDataOffset .keyId) := by
      refine take_of_length_le ?_
      rw [length_drop, Content.calcTdDataOffset]
      omega
    rw [hlast, append_assoc, append_assoc]
    simp only [Content.calcTdDataOffset]
    rw [hcut, hcut, drop_zero, take_append_drop]
  · rw [length_take, length_drop]
    cases type <;> simp only [Content.calcTdDataOffset] <;> omega

/-- The words of the types in front of a type. -/
def frontOf (values : TdlDataType → List Uint16) : TdlDataType → List Uint16
  | .keyEncBredr => []
  | .keyEncCentral => values .keyEncBredr
  | .keyDiv => values .keyEncBredr ++ values .keyEncCentral
  | .keySign | .keyId => values .keyEncBredr ++ values .keyEncCentral ++ values .keyDiv

/-- The words of the types behind a type. -/
def backOf (values : TdlDataType → List Uint16) : TdlDataType → List Uint16
  | .keyEncBredr => values .keyEncCentral ++ values .keyDiv ++ values .keyId
  | .keyEncCentral => values .keyDiv ++ values .keyId
  | .keyDiv | .keySign => values .keyId
  | .keyId => []

theorem Layout.split (h : Layout content used values) (type : TdlDataType) :
    used = frontOf values type ++ values type ++ backOf values type ∧
      (frontOf values type).length = content.calcTdDataOffset type := by
  have hsign : values .keySign = [] :=
    eq_nil_of_length_eq_zero ((h.length _).trans (keyWords_sign content))
  have hb := h.length .keyEncBredr
  have hc := h.length .keyEncCentral
  have hd := h.length .keyDiv
  rw [h.used]
  cases type <;>
    simp [frontOf, backOf, Content.calcTdDataOffset, hsign, hb, hc, hd, Nat.add_assoc]

/-- A key in the place of its type. -/
theorem Layout.put (h : Layout td.content used values) (hwords : words.length = type.size) :
    Layout (td.setKey type).content (frontOf values type ++ words ++ backOf values type)
      (fun type' => if type' = type then words else values type') := by
  refine ⟨?_, fun type' => ?_⟩
  · have hsign : type = .keySign → words = [] := by
      rintro rfl
      exact eq_nil_of_length_eq_zero hwords
    cases type <;> simp [frontOf, backOf]
    exact hsign rfl
  · rw [keyWords_setKey]
    split_ifs
    · exact hwords
    · exact h.length type'

/-! ## Records -/

/-- The memory of the record starts with the words of its keys. -/
def PackedRecord (td : TdData) (values : TdlDataType → List Uint16) : Prop :=
  ∃ used slack, td.data = used ++ slack ∧ Layout td.content used values

theorem PackedRecord.take_eq (h : PackedRecord td values) :
    Layout td.content (td.data.take td.content.calcTdDataSize) values ∧
      td.content.calcTdDataSize ≤ td.data.length := by
  obtain ⟨used, slack, hdata, hlayout⟩ := h
  rw [← hlayout.length_used, hdata, take_left' rfl, length_append]
  exact ⟨hlayout, Nat.le_add_right _ _⟩

/-- A key is read where it was packed. -/
theorem unpackTdKey_eq (h : PackedRecord td values) (hkey : td.content.hasKey type = true) :
    unpackTdKey td type = some (values type) := by
  obtain ⟨used, slack, hdata, hlayout⟩ := h
  obtain ⟨hused, hoffset⟩ := hlayout.split type
  have hlen : (values type).length = type.size := by
    rw [hlayout.length, Content.keyWords, if_pos hkey]
  rw [unpackTdKey, hdata, hused, ← hoffset, ← hlen, if_pos, append_assoc, append_assoc,
    drop_left' rfl, take_left' rfl]
  rw [length_append, length_append, length_append]
  omega

/-- The key is moved into its place. -/
theorem packKey_put {data : List Uint16} {td₁ : TdData}
    (hspace : (if td.content.hasKey key.type then some td else makeSpace fresh td key.type) =
      some { td₁ with data := front ++ data ++ back })
    (hoffset : front.length = td.content.calcTdDataOffset key.type)
    (hdata : data.length = key.type.size) :
    packKey fresh td key = some { td₁ with data := front ++ key.words ++ back } := by
  rw [packKey, hspace, bind_some, ← hoffset, ← length_words key,
    moveWords_put (hdata.trans (length_words key).symm), map_some]

/-- The space of a key that is not there. -/
theorem makeSpace_eq {slack : List Uint16} (fresh : ℕ → Uint16)
    (hlayout : Layout td.content used values) (hdata : td.data = used ++ slack)
    (hkey : td.content.hasKey type = false) :
    ∃ space slack', makeSpace fresh td type = some { td.setKey type with
        data := frontOf values type ++ space ++ (backOf values type ++ slack') } ∧
      space.length = type.size := by
  obtain ⟨hused, hoffset⟩ := hlayout.split type
  have hnone : values type = [] := by
    refine eq_nil_of_length_eq_zero ?_
    rw [hlayout.length, Content.keyWords, if_neg (ne_true_of_eq_false hkey)]
  rw [hnone, append_nil] at hused
  have hsize := hlayout.length_used
  have hnew : (td.setKey type).content.calcTdDataSize = td.content.calcTdDataSize + type.size := by
    have hput := (hlayout.put (length_replicate (n := type.size) (a := 0))).length_used
    rw [← hput, ← hsize, hused]
    simp only [length_append, length_replicate]
    omega
  obtain ⟨rest, hrealloc, hrest⟩ := reallocWords_append fresh slack
    (show used.length ≤ td.content.calcTdDataSize + type.size + 1 by omega)
  have hback : td.content.calcTdDataSize - td.content.calcTdDataOffset type =
      (backOf values type).length := by
    rw [← hsize, hused, length_append, hoffset]
    omega
  rw [makeSpace]
  dsimp only
  rw [hnew, show (td.setKey type).data = td.data from rfl, hdata, hrealloc, hback, ← hoffset]
  split_ifs with hlt
  · obtain ⟨space, slack', hmove, hspace⟩ := moveWords_room (frontOf values type)
      (backOf values type) (show rest.length = type.size + 1 by omega)
    rw [← hused] at hmove
    rw [hmove, map_some]
    exact ⟨space, slack', rfl, hspace⟩
  · have hempty : backOf values type = [] := by
      refine eq_nil_of_length_eq_zero ?_
      omega
    refine ⟨rest.take type.size, rest.drop type.size, ?_, ?_⟩
    · rw [hused, hempty, append_nil, nil_append, append_assoc,
        take_append_drop]
    · rw [length_take]
      omega

/-- **A packed key takes the place of its type, and the others keep their words.** -/
theorem packKey_eq (h : PackedRecord td values) (fresh : ℕ → Uint16) (key : TdKey) :
    ∃ td', packKey fresh td key = some td' ∧
      (td'.bdaddr = td.bdaddr ∧ td'.content = (td.setKey key.type).content) ∧
      PackedRecord td' fun type => if type = key.type then key.words else values type := by
  obtain ⟨used, slack, hdata, hlayout⟩ := h
  obtain ⟨hused, hoffset⟩ := hlayout.split key.type
  have hput := hlayout.put (length_words key)
  by_cases hkey : td.content.hasKey key.type = true
  · have hold : (values key.type).length = key.type.size := by
      rw [hlayout.length, Content.keyWords, if_pos hkey]
    have hspace : (if td.content.hasKey key.type then some td else makeSpace fresh td key.type) =
        some { td with data := frontOf values key.type ++ values key.type ++
          (backOf values key.type ++ slack) } := by
      rw [if_pos hkey, ← append_assoc, ← hused, ← hdata]
    refine ⟨_, packKey_put hspace hoffset hold, ⟨rfl, ?_⟩, _, slack,
      (append_assoc _ _ _).symm, ?_⟩
    · rw [setKey_of_hasKey hkey]
    · rw [setKey_of_hasKey hkey] at hput
      exact hput
  · obtain ⟨space, slack', hspace, hlen⟩ :=
      makeSpace_eq fresh hlayout hdata (Bool.eq_false_iff.mpr hkey)
    have hspace : (if td.content.hasKey key.type then some td else makeSpace fresh td key.type) =
        some { td.setKey key.type with data := frontOf values key.type ++ space ++
          (backOf values key.type ++ slack') } := (if_neg hkey).trans hspace
    exact ⟨_, packKey_put hspace hoffset hlen, ⟨rfl, rfl⟩, _, slack',
      (append_assoc _ _ _).symm, hput⟩

/-- The part of the memory that is in use. -/
def TdData.inUse (td : TdData) : TdData :=
  { td with data := td.data.take td.content.calcTdDataSize }

/-- **The moves in the memory put the key in its place among the keys present.** -/
theorem inUse_packKey (h : PackedRecord td values) (fresh : ℕ → Uint16) (key : TdKey) :
    (packKey fresh td key).map TdData.inUse = some (packTdKey td.inUse key.words key.type) := by
  obtain ⟨td', hpack, ⟨hbdaddr, hcontent⟩, h'⟩ := packKey_eq h fresh key
  have hlayout := h.take_eq.1
  obtain ⟨hused, hoffset⟩ := hlayout.split key.type
  have hput := hlayout.put (length_words key)
  have hdata : td'.inUse.data =
      frontOf values key.type ++ key.words ++ backOf values key.type := by
    rw [TdData.inUse, h'.take_eq.1.used, hput.used]
  have hfront : td.inUse.data.take (td.content.calcTdDataOffset key.type) =
      frontOf values key.type := by
    rw [TdData.inUse, hused, ← hoffset, append_assoc, take_left' rfl]
  have hback : td.inUse.data.drop (td.content.calcTdDataOffset key.type +
      td.content.keyWords key.type) = backOf values key.type := by
    rw [TdData.inUse, hused, ← hoffset, ← hlayout.length]
    exact drop_left' (length_append ..)
  rw [hpack, map_some, some.injEq]
  calc td'.inUse
      = { td.setKey key.type with
          data := frontOf values key.type ++ key.words ++ backOf values key.type } := by
        rw [← hdata]
        simp only [TdData.inUse, TdData.setKey, hbdaddr, hcontent]
    _ = packTdKey td.inUse key.words key.type := by
        have hwords : key.words.take key.type.size = key.words :=
          take_of_length_le (Nat.le_of_eq (length_words key))
        rw [packTdKey]
        simp only [TdData.setKey]
        rw [show td.inUse.content = td.content from rfl, hfront, hback, hwords]
        rfl

/-- A record with a BR/EDR key and an identity key, and the words of both. -/
def bredrAndId : TdData :=
  { TdData.zero with
    content := { TdData.zero.content with
      dataFlags := TdlDataType.mask .keyEncBredr ||| TdlDataType.mask .keyId }
    data := [4, 11, 12, 13, 14, 15, 16, 17, 18] ++ [21, 22, 23, 24, 25, 26, 27, 28] }

/-- A diversifier goes between the two keys. -/
theorem inUse_packKey_bredrAndId :
    (packKey (fun _ => 0) bredrAndId (.div 5)).map TdData.inUse =
      some (packTdKey bredrAndId.inUse [5] .keyDiv) := by
  have h : PackedRecord bredrAndId fun
      | .keyEncBredr => [4, 11, 12, 13, 14, 15, 16, 17, 18]
      | .keyId => [21, 22, 23, 24, 25, 26, 27, 28]
      | _ => [] :=
    ⟨_, [], (append_nil _).symm, rfl, fun type => by cases type <;> rfl⟩
  exact inUse_packKey h _ (.div 5)

/-! ## Sequences -/

/-- The last value packed for a type, or the one that was there. -/
def lastValue (td : TdData) (keys : List TdKey) (type : TdlDataType) : Option (List Uint16) :=
  match (keys.filter fun key => key.type = type).getLast? with
  | some key => some key.words
  | none => if td.content.hasKey type then unpackTdKey td type else none

/-- The words of the types after the keys have been put. -/
def putAll (values : TdlDataType → List Uint16) (keys : List TdKey) : TdlDataType → List Uint16 :=
  keys.foldl (fun values key type => if type = key.type then key.words else values type) values

theorem putAll_eq (values : TdlDataType → List Uint16) (keys : List TdKey) (type : TdlDataType) :
    putAll values keys type =
      ((keys.filter fun key => key.type = type).getLast?.map TdKey.words).getD (values type) := by
  induction keys generalizing values with
  | nil => rfl
  | cons key keys ih =>
    rw [putAll, foldl_cons]
    refine (ih _).trans ?_
    by_cases hkey : key.type = type
    · rw [filter_cons, if_pos (decide_eq_true hkey), List.getLast?_cons, if_pos hkey.symm]
      cases (keys.filter fun key => key.type = type).getLast? <;> rfl
    · rw [filter_cons, if_neg fun htrue => hkey (of_decide_eq_true htrue),
        if_neg (Ne.symm hkey)]

theorem packKeys_eq (h : PackedRecord td values) (fresh : ℕ → Uint16) (keys : List TdKey) :
    ∃ td', packKeys fresh td keys = some td' ∧ PackedRecord td' (putAll values keys) ∧
      ∀ type, td'.content.hasKey type =
        (td.content.hasKey type || keys.any fun key => key.type = type) := by
  induction keys generalizing td values with
  | nil => exact ⟨td, rfl, h, fun type => (Bool.or_false _).symm⟩
  | cons key keys ih =>
    obtain ⟨td₁, hpack, ⟨-, hcontent⟩, h1⟩ := packKey_eq h fresh key
    obtain ⟨td', hpacks, h', hkeys⟩ := ih h1
    refine ⟨td', ?_, h', fun type => ?_⟩
    · rw [packKeys, foldlM_cons, hpack]
      exact hpacks
    · have hcomm : decide (type = key.type) = decide (key.type = type) :=
        decide_eq_decide.mpr eq_comm
      rw [hkeys, hcontent, hasKey_setKey, any_cons, hcomm,
        Bool.or_comm (decide (key.type = type)), Bool.or_assoc]

/-! ## Statement -/

/-- A record whose memory has room for its keys. -/
structure TdRecord where
  td : TdData
  room : td.content.calcTdDataSize ≤ td.data.length

/-- The record as a reader finds it: `tdl_find_device` reads it into memory for all the keys. -/
structure FoundAs (td found : TdData) : Prop where
  content : found.content = td.content
  used : found.data.take td.content.calcTdDataSize = td.data.take td.content.calcTdDataSize
  memory : found.data.length = 32

/-- The readers return the keys that are there. -/
structure ReadersRight (found : TdData) : Prop where
  getDevice : ∀ device, connectionAuthGetDevice (some found) = some (some device) →
    found.content.hasKey .keyEncBredr = true
  addDevice : ∃ req, dmSmAddDeviceReq found = some req ∧ ∀ present words,
    (present, words) ∈ req.keys → ∃ type, presentType type = present ∧
      found.content.hasKey type = true ∧ unpackTdKey found type = some words

/-- After the keys have been packed each key is the last one of its type, the words in use are
those of the keys, and the readers return keys that are there. -/
def PackedRight (fresh : ℕ → Uint16) (td : TdData) (keys : List TdKey) : Prop :=
  ∃ td', packKeys fresh td keys = some td' ∧
    (∀ type words, lastValue td keys type = some words → unpackTdKey td' type = some words) ∧
    td'.content.calcTdDataSize ≤ td'.data.length ∧
    td'.data.take td'.content.calcTdDataSize =
      tdlDataTypes.flatMap (fun type => (lastValue td keys type).getD []) ∧
    ∀ found, FoundAs td' found → ReadersRight found

/-! ## Readers -/

theorem addDeviceKeys_eq (h : PackedRecord td values) (types : List TdlDataType) :
    ∃ keys, addDeviceKeys td types = some keys ∧ ∀ present words, (present, words) ∈ keys →
      ∃ type, presentType type = present ∧ td.content.hasKey type = true ∧
        unpackTdKey td type = some words := by
  induction types with
  | nil => exact ⟨[], rfl, fun _ _ hmem => absurd hmem not_mem_nil⟩
  | cons type types ih =>
    obtain ⟨keys, hkeys, hall⟩ := ih
    rw [addDeviceKeys]
    split_ifs with hkey
    · have hunpack := unpackTdKey_eq h hkey
      rw [hunpack, bind_some, hkeys, map_some]
      refine ⟨_, rfl, fun present words hmem => ?_⟩
      obtain heq | hmem := mem_cons.mp hmem
      · cases heq
        exact ⟨type, rfl, hkey, hunpack⟩
      · exact hall present words hmem
    · exact ⟨keys, hkeys, hall⟩

theorem packedRecord_of_room (h : td.content.calcTdDataSize ≤ td.data.length) :
    ∃ values, PackedRecord td values := by
  have hlen : (td.data.take td.content.calcTdDataSize).length = td.content.calcTdDataSize := by
    rw [length_take]
    omega
  obtain ⟨values, hlayout⟩ := layout_of_length hlen
  exact ⟨values, _, _, (take_append_drop td.content.calcTdDataSize td.data).symm, hlayout⟩

theorem PackedRecord.found {found : TdData} (h : PackedRecord td values)
    (hfound : FoundAs td found) : PackedRecord found values := by
  refine ⟨td.data.take td.content.calcTdDataSize, found.data.drop td.content.calcTdDataSize, ?_, ?_⟩
  · rw [← hfound.used, take_append_drop]
  · rw [hfound.content]
    exact h.take_eq.1

theorem calcTdDataSize_le (content : Content) : content.calcTdDataSize ≤ 31 := by
  have hle (type : TdlDataType) : content.keyWords type ≤ type.size := by
    unfold Content.keyWords
    split_ifs
    · exact Nat.le_refl _
    · exact Nat.zero_le _
  have hb := hle .keyEncBredr
  have hc := hle .keyEncCentral
  have hd := hle .keyDiv
  have hs := hle .keySign
  have hi := hle .keyId
  simp only [TdlDataType.size] at hb hc hd hs hi
  rw [Content.calcTdDataSize]
  omega

/-- There is memory to find a record in. -/
theorem exists_foundAs (h : td.content.calcTdDataSize ≤ td.data.length) :
    ∃ found, FoundAs td found := by
  have hle := calcTdDataSize_le td.content
  have hlen : (td.data.take td.content.calcTdDataSize).length = td.content.calcTdDataSize := by
    rw [length_take]
    omega
  refine ⟨{ td with
      data := td.data.take td.content.calcTdDataSize ++
        List.replicate (32 - td.content.calcTdDataSize) 0 }, rfl, take_left' hlen, ?_⟩
  rw [length_append, hlen, length_replicate]
  omega

/-- `connectionAuthGetDevice` does not look at the flag. -/
theorem exists_authDevice {found : TdData} (h : FoundAs td found) :
    ∃ device, connectionAuthGetDevice (some found) = some (some device) := by
  have hle : found.content.calcTdDataOffset .keyEncBredr + TdlDataType.keyEncBredr.size ≤
      found.data.length := by
    rw [h.memory]
    change 0 + 9 ≤ 32
    decide
  rw [connectionAuthGetDevice, unpackTdKey, if_pos hle]
  exact ⟨_, rfl⟩

/-! ## Packing and reading -/

theorem lastValue_getD (h : PackedRecord td values) (keys : List TdKey) (type : TdlDataType) :
    (lastValue td keys type).getD [] = putAll values keys type := by
  rw [putAll_eq, lastValue]
  cases (keys.filter fun key => key.type = type).getLast? with
  | some key => rfl
  | none =>
    dsimp only
    split_ifs with hkey
    · rw [unpackTdKey_eq h hkey]
      rfl
    · obtain ⟨used, slack, -, hlayout⟩ := h
      refine (eq_nil_of_length_eq_zero ?_).symm
      change (values type).length = 0
      rw [hlayout.length, Content.keyWords, if_neg hkey]

theorem hasKey_of_lastValue (h : lastValue td keys type = some words) :
    (td.content.hasKey type || keys.any fun key => key.type = type) = true := by
  rw [lastValue] at h
  cases hlast : (keys.filter fun key => key.type = type).getLast? with
  | some key =>
    obtain ⟨hmem, htype⟩ := mem_filter.mp (List.mem_of_getLast? hlast)
    rw [List.any_eq_true.mpr ⟨key, hmem, htype⟩, Bool.or_true]
  | none =>
    rw [hlast] at h
    dsimp only at h
    split_ifs at h with hkey
    rw [hkey, Bool.true_or]

/-- **Keys are read as they were packed, exactly when there is a BR/EDR key.** -/
theorem packed_right_iff (fresh : ℕ → Uint16) (record : TdRecord) (keys : List TdKey) :
    PackedRight fresh record.td keys ↔ record.td.content.hasKey .keyEncBredr = true ∨
      ∃ key ∈ keys, key.type = .keyEncBredr := by
  obtain ⟨values, h⟩ := packedRecord_of_room record.room
  obtain ⟨td', hpack, h', hkeys⟩ := packKeys_eq h fresh keys
  obtain ⟨hlayout, hroom⟩ := h'.take_eq
  have hbredr : td'.content.hasKey .keyEncBredr = true ↔
      record.td.content.hasKey .keyEncBredr = true ∨ ∃ key ∈ keys, key.type = .keyEncBredr := by
    rw [hkeys, Bool.or_eq_true, List.any_eq_true]
    simp only [decide_eq_true_eq]
  rw [← hbredr]
  constructor
  · rintro ⟨t, ht, -, -, -, hreaders⟩
    obtain rfl : td' = t := Option.some.inj (hpack.symm.trans ht)
    obtain ⟨found, hfound⟩ := exists_foundAs hroom
    obtain ⟨device, hdevice⟩ := exists_authDevice hfound
    rw [← hfound.content]
    exact (hreaders found hfound).getDevice device hdevice
  · intro hkey
    refine ⟨td', hpack, fun type words hlast => ?_, hroom, ?_, fun found hfound => ⟨?_, ?_⟩⟩
    · rw [unpackTdKey_eq h' ((hkeys type).trans (hasKey_of_lastValue hlast)),
        ← lastValue_getD h keys type, hlast, Option.getD_some]
    · have hsign : putAll values keys .keySign = [] :=
        eq_nil_of_length_eq_zero ((hlayout.length _).trans (keyWords_sign _))
      rw [hlayout.used, tdlDataTypes]
      simp only [flatMap_cons, flatMap_nil, lastValue_getD h, hsign, nil_append,
        append_nil, append_assoc]
    · intro _ _
      rw [hfound.content]
      exact hkey
    · obtain ⟨found_keys, hfound_keys, hall⟩ := addDeviceKeys_eq (h'.found hfound) tdlDataTypes
      rw [dmSmAddDeviceReq, hfound_keys]
      exact ⟨_, rfl, hall⟩

/-- A record without keys. -/
def noKeys : TdRecord where
  td := TdData.zero
  room := by decide

/-- **Of a record with an identity key only, `connectionAuthGetDevice` returns the identity key.** -/
theorem not_packed_right :
    ((packKeys (fun _ => 0) noKeys.td [.id #v[1, 2, 3, 4, 5, 6, 7, 8]]).bind fun td =>
      connectionAuthGetDevice (some td)) = some (some ⟨.none, [2, 3, 4, 5, 6, 7, 8, 0], false⟩) ∧
    ¬ PackedRight (fun _ => 0) noKeys.td [.id #v[1, 2, 3, 4, 5, 6, 7, 8]] := by
  refine ⟨by decide +kernel, ?_⟩
  rintro ⟨td', hpack, -, hroom, -, hreaders⟩
  obtain ⟨found, hfound⟩ := exists_foundAs hroom
  obtain ⟨device, hdevice⟩ := exists_authDevice hfound
  have hkey := (hreaders found hfound).getDevice device hdevice
  rw [hfound.content] at hkey
  have hflags : (packKeys (fun _ => 0) noKeys.td [.id #v[1, 2, 3, 4, 5, 6, 7, 8]]).map
      (fun td => td.content.hasKey .keyEncBredr) = some false := by decide +kernel
  rw [hpack, Option.map_some, hkey] at hflags
  cases hflags

end Mh40.TrustedDevices
