import Mh40.Lib.Bytes
import Mh40.Upgrade.Grammar

/-!
# The main header

Which main headers `UpgradePartitionDataHandleHeaderState` accepts.

* `MainHeader`: the fields of a main header and their bytes.
* `checkHeader_eq`: the checks of the code, each in terms of the words at their places.
* `Acceptable`: the headers that should be accepted; `acceptable_iff` states it in the same terms.
* `headerRight_iff`: the code is wrong where the size that it computes in 16 bits wraps to the
  length of the data, and the current version is listed.
-/

namespace Mh40.Upgrade

open Lib.Bytes List Option

variable {device : Device} {libKeys : LibKeys} {ctx : PartitionData} {data : List UInt8} {ptr : ℕ}
  {versions : Version × ℕ}

/-! ## Words of a header -/

theorem get2BytesFromStream_eq (data : List UInt8) (i : ℕ) :
    get2BytesFromStream data i = if i + 1 < data.length then some (half data i) else none := by
  unfold get2BytesFromStream half
  split_ifs with h
  · rw [getElem?_eq_getElem h, getElem?_eq_getElem (by omega : i < data.length)]
    simp [getD_eq_getElem?_getD, h, (by omega : i < data.length)]
  · rw [getElem?_eq_none (by omega : data.length ≤ i + 1)]
    cases data[i]? <;> rfl

/-- A compatible version is the current one, or its major version with the minor `0xFFFF`. -/
def Matches (current : Version) (major minor : ℕ) : Prop :=
  major = current.major ∧ (minor = current.minor ∨ minor = 0xFFFF)

instance (current : Version) (major minor : ℕ) : Decidable (Matches current major minor) :=
  inferInstanceAs (Decidable (_ ∧ _))

/-- How many compatible versions a header has. -/
def versionCount (data : List UInt8) : ℕ := half data (idFieldSize + 4)

/-- How many compatible config versions it has. -/
def configCount (data : List UInt8) : ℕ := half data (idFieldSize + 8 + 4 * versionCount data)

/-- The size of a header with so many versions. -/
def headerSize (data : List UInt8) : ℕ :=
  idFieldSize + 12 + 4 * versionCount data + 2 * configCount data

/-- The current version is listed. -/
def VersionListed (libKeys : LibKeys) (data : List UInt8) : Prop :=
  ∃ j < versionCount data, Matches libKeys.version (half data (idFieldSize + 6 + 4 * j))
    (half data (idFieldSize + 8 + 4 * j))

instance (libKeys : LibKeys) (data : List UInt8) : Decidable (VersionListed libKeys data) :=
  inferInstanceAs (Decidable (∃ j < _, _))

/-- The config version of a header. -/
def headerConfigVersion (data : List UInt8) : ℕ := half data (idFieldSize + 6 + 4 * versionCount data)

/-- The current config version is the one of the header, or it is listed. -/
def ConfigListed (libKeys : LibKeys) (data : List UInt8) : Prop :=
  headerConfigVersion data = libKeys.configVersion ∨ ∃ j < configCount data,
    half data (idFieldSize + 10 + 4 * versionCount data + 2 * j) = libKeys.configVersion

/-- The id of a header is that of the variant, if the device has one. -/
def VariantOk (device : Device) (data : List UInt8) : Prop :=
  device.devVariant.length = 0 ∨ strncmpEq idFieldSize data device.devVariant = true

instance (device : Device) (data : List UInt8) : Decidable (VariantOk device data) :=
  inferInstanceAs (Decidable (_ ∨ _))

/-! ## Checks of the code -/

theorem searchUpgradeVersions_eq {current : Version} {n : ℕ} (h : ptr + 4 * n ≤ data.length) :
    searchUpgradeVersions data current ptr n = some (decide (∃ j < n,
      Matches current (half data (ptr + 4 * j)) (half data (ptr + 2 + 4 * j)))) := by
  induction n generalizing ptr with
  | zero => simp [searchUpgradeVersions]
  | succ n ih =>
    have hsucc : ∀ j, ptr + 4 * (j + 1) = ptr + 4 + 4 * j ∧
        ptr + 2 + 4 * (j + 1) = ptr + 4 + 2 + 4 * j := fun j => by omega
    rw [searchUpgradeVersions, get2BytesFromStream_eq, get2BytesFromStream_eq,
      if_pos (by omega), if_pos (by omega)]
    simp only [bind_eq_bind, bind_some, Option.pure_def]
    rw [ih (by omega)]
    simp only [Nat.exists_lt_succ_left, hsucc, Nat.mul_zero, Nat.add_zero]
    by_cases hm : Matches current (half data ptr) (half data (ptr + 2))
    · refine (if_pos hm).trans ?_
      simp [hm]
    · refine (if_neg hm).trans ?_
      simp [hm]

/-- The loop over the config versions stays in the data. -/
theorem searchPsVersions_eq {current n : ℕ} (h : ptr + 2 * n ≤ data.length) :
    searchPsVersions data current ptr n =
      some (decide (∃ j < n, half data (ptr + 2 * j) = current)) := by
  induction n generalizing ptr with
  | zero => simp [searchPsVersions]
  | succ n ih =>
    have hsucc : ∀ j, ptr + 2 * (j + 1) = ptr + 2 + 2 * j := fun j => by omega
    rw [searchPsVersions, get2BytesFromStream_eq, if_pos (by omega)]
    simp only [bind_eq_bind, bind_some, Option.pure_def]
    rw [ih (by omega)]
    simp only [Nat.exists_lt_succ_left, hsucc, Nat.mul_zero, Nat.add_zero]
    by_cases hm : half data ptr = current
    · rw [if_pos hm]
      simp [hm]
    · rw [if_neg hm]
      simp [hm]

/-- The loop over more config versions than there are does not end without one. -/
theorem searchPsVersions_ne {current n : ℕ} (hptr : ptr ≤ data.length)
    (h : data.length < ptr + 2 * n) : searchPsVersions data current ptr n ≠ some false := by
  induction n generalizing ptr with
  | zero => omega
  | succ n ih =>
    rw [searchPsVersions, get2BytesFromStream_eq]
    split_ifs with hread
    · simp only [bind_eq_bind, bind_some, Option.pure_def]
      split_ifs
      · nofun
      · exact ih (by omega) (by omega)
    · nofun

/-- **The checks of a main header**, in terms of its words. -/
theorem checkHeader_eq (device : Device) (libKeys : LibKeys) (data : List UInt8) :
    checkHeader device libKeys data =
      if data.length < idFieldSize + 6 then some (.error .badLengthUpgradeHeader)
      else if ¬ VariantOk device data then some (.error .wrongVariant)
      else if data.length < idFieldSize + 10 + 4 * versionCount data then
        some (.error .badLengthUpgradeHeader)
      else if data.length ≠ headerSize data % 2 ^ 16 then some (.error .badLengthUpgradeHeader)
      else if ¬ VersionListed libKeys data then some (.error .appConfigVersionIncompatible)
      else if headerConfigVersion data = libKeys.configVersion then
        some (.ok (⟨half data idFieldSize, half data (idFieldSize + 2)⟩, headerConfigVersion data))
      else (searchPsVersions data libKeys.configVersion
          (idFieldSize + 10 + 4 * versionCount data) (configCount data)).map fun found =>
        if found then
          .ok (⟨half data idFieldSize, half data (idFieldSize + 2)⟩, headerConfigVersion data)
        else .error .appConfigVersionIncompatible := by
  have hvariant : (0 < device.devVariant.length ∧
      (!strncmpEq idFieldSize data device.devVariant) = true) ↔ ¬ VariantOk device data := by
    unfold VariantOk
    rw [Bool.not_eq_true', ← Bool.not_eq_true, not_or]
    exact and_congr_left' Nat.pos_iff_ne_zero
  unfold checkHeader
  simp only [bind_eq_bind, Option.pure_def, hvariant, get2BytesFromStream_eq]
  by_cases hshort : data.length < idFieldSize + 6
  · rw [if_pos hshort]
    exact if_pos hshort
  rw [if_neg hshort]
  refine (if_neg hshort).trans (if_congr Iff.rfl rfl ?_)
  rw [if_pos (by omega), if_pos (by omega), if_pos (by omega)]
  simp only [bind_some]
  have hcount : half data (idFieldSize + 4) = versionCount data := rfl
  have hconfigs : half data (idFieldSize + 8 + 4 * versionCount data) = configCount data := rfl
  have hconfig : half data (idFieldSize + 6 + 4 * versionCount data) = headerConfigVersion data :=
    rfl
  have hplace : idFieldSize + 6 + 4 * versionCount data + 2 =
      idFieldSize + 8 + 4 * versionCount data := by omega
  have hplace' : idFieldSize + 8 + 4 * versionCount data + 2 =
      idFieldSize + 10 + 4 * versionCount data := by omega
  have hplace'' : idFieldSize + 6 + 4 * versionCount data + 4 =
      idFieldSize + 10 + 4 * versionCount data := by omega
  simp only [hcount, hconfigs, hconfig, hplace, hplace', hplace'']
  by_cases hcut : data.length < idFieldSize + 10 + 4 * versionCount data
  · rw [if_pos hcut, if_pos hcut]
  have hread : idFieldSize + 6 + 4 * versionCount data + 1 < data.length := by omega
  rw [if_neg hcut, if_neg hcut, if_pos (by omega), bind_some, if_pos hread]
  have hsize : idFieldSize + upgradeVersionSize + noOfCompatibleUpgradesSize +
      4 * versionCount data + noOfCompatiblePsVersionSize + 2 * configCount data +
        headerExtraInfo = headerSize data := by
    unfold headerSize upgradeVersionSize noOfCompatibleUpgradesSize noOfCompatiblePsVersionSize
      headerExtraInfo
    omega
  rw [hsize, searchUpgradeVersions_eq (by omega)]
  simp only [bind_some]
  refine if_congr Iff.rfl rfl (if_congr ?_ rfl (if_congr eq_comm rfl ?_))
  · rw [Bool.not_eq_true', decide_eq_false_iff_not]
    rfl
  · cases searchPsVersions data libKeys.configVersion
      (idFieldSize + 10 + 4 * versionCount data) (configCount data) with
    | none => rfl
    | some found => cases found <;> rfl

/-! ## Fields of a header -/

/-- The fields of a main header. -/
structure MainHeader where
  id : List UInt8
  id_length : id.length = idFieldSize
  major : UInt16
  minor : UInt16
  compatible : List (UInt16 × UInt16)
  compatible_lt : compatible.length < 2 ^ 16
  configVersion : UInt16
  compatibleConfigs : List UInt16
  compatibleConfigs_lt : compatibleConfigs.length < 2 ^ 16
  extra : List UInt8
  extra_length : extra.length = headerExtraInfo

/-- The words between the id and the extra information. -/
def MainHeader.words (h : MainHeader) : List UInt16 :=
  h.major :: h.minor :: UInt16.ofNat h.compatible.length :: (unpairs h.compatible ++
    h.configVersion :: UInt16.ofNat h.compatibleConfigs.length :: h.compatibleConfigs)

/-- The bytes of a main header. -/
def MainHeader.bytes (h : MainHeader) : List UInt8 := h.id ++ (bytesOf h.words ++ h.extra)

/-- The header is for the variant, for the version and for the config version of the device. -/
structure MainHeader.Suits (h : MainHeader) (device : Device) (libKeys : LibKeys) : Prop where
  variant : VariantOk device h.id
  version : ∃ v ∈ h.compatible, Matches libKeys.version v.1.toNat v.2.toNat
  config : h.configVersion.toNat = libKeys.configVersion ∨
    ∃ v ∈ h.compatibleConfigs, v.toNat = libKeys.configVersion

/-- The data is that of a header which suits the device. -/
def Acceptable (device : Device) (libKeys : LibKeys) (data : List UInt8) : Prop :=
  ∃ h : MainHeader, data = h.bytes ∧ h.Suits device libKeys

theorem strncmpEq_append {n : ℕ} {more str : List UInt8} (h : n ≤ data.length) :
    strncmpEq n (data ++ more) str = strncmpEq n data str := by
  induction n generalizing data str with
  | zero => cases data <;> rfl
  | succ n ih =>
    cases data with
    | nil => cases h
    | cons d data =>
      cases str with
      | nil => rfl
      | cons c str =>
        rw [cons_append, strncmpEq, strncmpEq, ih (Nat.le_of_succ_le_succ h)]

theorem variantOk_append {id more : List UInt8} (h : id.length = idFieldSize) :
    VariantOk device (id ++ more) ↔ VariantOk device id := by
  unfold VariantOk
  rw [strncmpEq_append h.ge]

namespace MainHeader

variable (h : MainHeader)

theorem length_words : h.words.length =
    5 + 2 * h.compatible.length + h.compatibleConfigs.length := by
  simp [words, length_unpairs]
  omega

theorem length_bytes : h.bytes.length =
    idFieldSize + 12 + 4 * h.compatible.length + 2 * h.compatibleConfigs.length := by
  rw [bytes, length_append, length_append, length_bytesOf, h.length_words, h.id_length,
    h.extra_length, headerExtraInfo]
  omega

variable {h} in
theorem half_bytes {j : ℕ} {w : UInt16} (hw : h.words[j]? = some w) :
    half h.bytes (idFieldSize + 2 * j) = w.toNat := by
  rw [bytes, ← h.id_length, half_between hw]

theorem versionCount_bytes : versionCount h.bytes = h.compatible.length := by
  have hw : h.words[2]? = some (UInt16.ofNat h.compatible.length) := rfl
  rw [← UInt16.toNat_ofNat_of_lt' h.compatible_lt, ← half_bytes hw]
  rfl

/-- The words of the compatible versions. -/
theorem getElem?_words_version {j : ℕ} {v : UInt16 × UInt16} (hv : h.compatible[j]? = some v) :
    h.words[3 + 2 * j]? = some v.1 ∧ h.words[4 + 2 * j]? = some v.2 := by
  obtain ⟨hj, -⟩ := List.getElem?_eq_some_iff.mp hv
  obtain ⟨h1, h2⟩ := getElem?_unpairs h.compatible j
  rw [hv] at h1 h2
  rw [words, show 3 + 2 * j = 2 * j + 1 + 1 + 1 by omega,
    show 4 + 2 * j = 2 * j + 1 + 1 + 1 + 1 by omega]
  simp only [getElem?_cons_succ]
  rw [getElem?_append_left (by rw [length_unpairs]; omega),
    getElem?_append_left (by rw [length_unpairs]; omega)]
  exact ⟨h1, h2⟩

/-- The words behind the compatible versions. -/
theorem getElem?_words (j : ℕ) : h.words[3 + 2 * h.compatible.length + j]? =
    (h.configVersion :: UInt16.ofNat h.compatibleConfigs.length :: h.compatibleConfigs)[j]? := by
  rw [words, show 3 + 2 * h.compatible.length + j = 2 * h.compatible.length + j + 1 + 1 + 1 by omega]
  simp only [getElem?_cons_succ]
  rw [← length_unpairs, getElem?_append_right (Nat.le_add_right _ _),
    Nat.add_sub_cancel_left]

theorem configCount_bytes : configCount h.bytes = h.compatibleConfigs.length := by
  have hw := half_bytes (h.getElem?_words 1)
  rw [UInt16.toNat_ofNat_of_lt' h.compatibleConfigs_lt] at hw
  rw [← hw, configCount, h.versionCount_bytes]
  congr 1
  omega

theorem headerConfigVersion_bytes : headerConfigVersion h.bytes = h.configVersion.toNat := by
  rw [← half_bytes (h.getElem?_words 0), headerConfigVersion, h.versionCount_bytes]
  congr 1
  omega

theorem headerSize_bytes : headerSize h.bytes = h.bytes.length := by
  rw [headerSize, h.versionCount_bytes, h.configCount_bytes, h.length_bytes]

theorem versionListed_bytes : VersionListed libKeys h.bytes ↔
    ∃ v ∈ h.compatible, Matches libKeys.version v.1.toNat v.2.toNat := by
  have hread : ∀ {j v}, h.compatible[j]? = some v →
      half h.bytes (idFieldSize + 6 + 4 * j) = v.1.toNat ∧
        half h.bytes (idFieldSize + 8 + 4 * j) = v.2.toNat := by
    intro j v hv
    obtain ⟨h1, h2⟩ := h.getElem?_words_version hv
    rw [← half_bytes h1, ← half_bytes h2]
    constructor <;> congr 1 <;> omega
  unfold VersionListed
  rw [h.versionCount_bytes]
  constructor
  · rintro ⟨j, hj, hm⟩
    obtain ⟨h1, h2⟩ := hread (getElem?_eq_getElem hj)
    rw [h1, h2] at hm
    exact ⟨_, getElem_mem hj, hm⟩
  · rintro ⟨v, hv, hm⟩
    obtain ⟨j, hj, rfl⟩ := mem_iff_getElem.mp hv
    obtain ⟨h1, h2⟩ := hread (getElem?_eq_getElem hj)
    exact ⟨j, hj, by rwa [h1, h2]⟩

theorem configListed_bytes : ConfigListed libKeys h.bytes ↔
    h.configVersion.toNat = libKeys.configVersion ∨
      ∃ v ∈ h.compatibleConfigs, v.toNat = libKeys.configVersion := by
  have hread : ∀ {j v}, h.compatibleConfigs[j]? = some v →
      half h.bytes (idFieldSize + 10 + 4 * h.compatible.length + 2 * j) = v.toNat := by
    intro j v hv
    have hw := half_bytes ((h.getElem?_words (j + 1 + 1)).trans hv)
    rw [← hw]
    congr 1
    omega
  unfold ConfigListed
  rw [h.headerConfigVersion_bytes, h.versionCount_bytes, h.configCount_bytes]
  refine or_congr Iff.rfl ⟨?_, ?_⟩
  · rintro ⟨j, hj, hm⟩
    rw [hread (getElem?_eq_getElem hj)] at hm
    exact ⟨_, getElem_mem hj, hm⟩
  · rintro ⟨v, hv, hm⟩
    obtain ⟨j, hj, rfl⟩ := mem_iff_getElem.mp hv
    exact ⟨j, hj, by rwa [hread (getElem?_eq_getElem hj)]⟩

end MainHeader

/-- Data with the size of its counts is that of a header. -/
theorem exists_mainHeader (h : data.length = headerSize data) :
    ∃ header : MainHeader, data = header.bytes := by
  have hlen : data.length = idFieldSize + 12 + 4 * versionCount data + 2 * configCount data := h
  obtain ⟨id, ws, extra, hdata, hid, hws, hextra⟩ :=
    exists_between data idFieldSize (5 + 2 * versionCount data + configCount data) (by omega)
  have hread : ∀ {j w}, ws[j]? = some w → half data (idFieldSize + 2 * j) = w.toNat := by
    intro j w hw
    rw [hdata, ← hid, half_between hw]
  -- the words before, in and behind the list of versions
  obtain ⟨w0, w1, w2, rest, rfl⟩ : ∃ w0 w1 w2 rest, ws = w0 :: w1 :: w2 :: rest := by
    match ws, hws with
    | w0 :: w1 :: w2 :: rest, _ => exact ⟨w0, w1, w2, rest, rfl⟩
    | [], hws | [_], hws | [_, _], hws => simp at hws; omega
  obtain ⟨versions, back, rfl, hversions⟩ : ∃ versions back, rest = versions ++ back ∧
      versions.length = 2 * versionCount data := by
    refine ⟨_, _, (take_append_drop (2 * versionCount data) rest).symm, ?_⟩
    simp at hws ⊢
    omega
  have hback : back.length = 2 + configCount data := by
    simp at hws
    omega
  obtain ⟨c, k, configs, rfl⟩ : ∃ c k configs, back = c :: k :: configs := by
    match back, hback with
    | c :: k :: configs, _ => exact ⟨c, k, configs, rfl⟩
    | [], hback | [_], hback => simp at hback; omega
  have hconfigs : configs.length = configCount data := by
    simp at hback
    omega
  have hpairs : (pairs versions).length = versionCount data := by
    rw [length_pairs (by omega), hversions]
    omega
  -- the counts are the words at their places
  have hn : w2.toNat = versionCount data := (hread (j := 2) rfl).symm
  have hm : k.toNat = configCount data := by
    have hk : (w0 :: w1 :: w2 :: (versions ++ c :: k :: configs))[versions.length + 1 + 3]? =
        some k := by
      simp only [getElem?_cons_succ]
      rw [getElem?_append_right (Nat.le_add_right _ _), Nat.add_sub_cancel_left]
      rfl
    rw [← hread hk, configCount, hversions]
    congr 1
    omega
  refine ⟨⟨id, hid, w0, w1, pairs versions, ?_, c, configs, ?_, extra, ?_⟩, ?_⟩
  · rw [hpairs, ← hn]
    exact w2.toNat_lt
  · rw [hconfigs, ← hm]
    exact k.toNat_lt
  · rw [hextra, headerExtraInfo]
    omega
  · refine hdata.trans ?_
    simp only [MainHeader.bytes, MainHeader.words]
    rw [unpairs_pairs (by omega), hpairs, hconfigs, ← hn, ← hm, UInt16.ofNat_toNat,
      UInt16.ofNat_toNat]

/-- **What should be accepted**, in terms of the words of the data. -/
theorem acceptable_iff (device : Device) (libKeys : LibKeys) (data : List UInt8) :
    Acceptable device libKeys data ↔ data.length = headerSize data ∧ VariantOk device data ∧
      VersionListed libKeys data ∧ ConfigListed libKeys data := by
  have hsuits : ∀ h : MainHeader, h.Suits device libKeys ↔ VariantOk device h.bytes ∧
      VersionListed libKeys h.bytes ∧ ConfigListed libKeys h.bytes := by
    intro h
    rw [MainHeader.bytes, variantOk_append h.id_length, ← MainHeader.bytes,
      h.versionListed_bytes, h.configListed_bytes]
    exact ⟨fun hs => ⟨hs.variant, hs.version, hs.config⟩, fun hs => ⟨hs.1, hs.2.1, hs.2.2⟩⟩
  constructor
  · rintro ⟨h, rfl, hs⟩
    exact ⟨h.headerSize_bytes.symm, (hsuits h).mp hs⟩
  · rintro ⟨hlen, hs⟩
    obtain ⟨h, rfl⟩ := exists_mainHeader hlen
    exact ⟨h, rfl, (hsuits h).mpr hs⟩

/-! ## Headers that are accepted -/

/-- A header is refused for what is in it. -/
def IsRefusal (rc : HostErrorCode) : Prop :=
  rc = .badLengthUpgradeHeader ∨ rc = .wrongVariant ∨ rc = .appConfigVersionIncompatible

/-- What should happen to the data of a main header: no byte behind it is read; what is acceptable
is accepted, and at most the store of it fails; and all else is refused and changes nothing. -/
def HeaderRight (device : Device) (ctx : PartitionData) (data : List UInt8) : Prop :=
  ∃ rc ctx', handleHeaderState device ctx data = some (rc, ctx') ∧
    (Acceptable device ctx.libKeys data → rc = .success ∨ rc = .noMemory) ∧
    (¬ Acceptable device ctx.libKeys data → IsRefusal rc ∧ ctx' = ctx)

/-- The size of the header is not the length of the data, but it wraps to it in 16 bits. -/
def Wraps (data : List UInt8) : Prop :=
  idFieldSize + 10 + 4 * versionCount data ≤ data.length ∧ headerSize data ≠ data.length ∧
    headerSize data % 2 ^ 16 = data.length

instance (data : List UInt8) : Decidable (Wraps data) := inferInstanceAs (Decidable (_ ∧ _ ∧ _))

/-- An error of the checks refuses the header. -/
theorem headerRight_of_error {rc : HostErrorCode}
    (hcheck : checkHeader device ctx.libKeys data = some (.error rc)) (hrc : IsRefusal rc)
    (hnot : ¬ Acceptable device ctx.libKeys data) : HeaderRight device ctx data := by
  refine ⟨rc, ctx, ?_, fun h => absurd h hnot, fun _ => ⟨hrc, rfl⟩⟩
  rw [handleHeaderState, hcheck]
  rfl

theorem andThen_fst {r : HostErrorCode × PartitionData}
    {next : PartitionData → HostErrorCode × PartitionData} (h : ∀ ctx, (next ctx).1 = .success) :
    (andThen r next).1 = r.1 := by
  unfold andThen
  split_ifs with hr
  · rw [h, hr]
  · rfl

section

variable (hcheck : checkHeader device ctx.libKeys data = some (.ok versions))
include hcheck

/-- A header that passes the checks is stored. -/
theorem handleHeaderState_of_ok :
    ∃ r, handleHeaderState device ctx data = some r ∧ (r.1 = .success ∨ r.1 = .noMemory) := by
  obtain ⟨version, psVersion⟩ := versions
  rw [handleHeaderState, hcheck]
  refine ⟨_, rfl, ?_⟩
  rw [andThen_fst fun _ => rfl]
  exact saveRounds_rc _ _ data

/-- A header that passes the checks, and should. -/
theorem headerRight_of_ok (hok : Acceptable device ctx.libKeys data) :
    HeaderRight device ctx data := by
  obtain ⟨⟨rc, ctx'⟩, hr, hrc⟩ := handleHeaderState_of_ok hcheck
  exact ⟨rc, ctx', hr, fun _ => hrc, fun h => absurd hok h⟩

/-- A header that passes the checks, and should not. -/
theorem not_headerRight_of_ok (hnot : ¬ Acceptable device ctx.libKeys data) :
    ¬ HeaderRight device ctx data := by
  rintro ⟨rc, ctx', hr, -, hright⟩
  obtain ⟨r, hr', hrc⟩ := handleHeaderState_of_ok hcheck
  rw [hr] at hr'
  cases hr'
  obtain ⟨hrefusal, -⟩ := hright hnot
  rcases hrc with rfl | rfl <;> exact absurd hrefusal (by unfold IsRefusal; decide)

end

/-- **When the main header is checked as it should be.** The size that its counts give does not
wrap to the length of the data, or the header is refused for its versions or its variant. -/
theorem headerRight_iff (hlen : data.length < 2 ^ 16) : HeaderRight device ctx data ↔
    ¬ (Wraps data ∧ VariantOk device data ∧ VersionListed ctx.libKeys data) := by
  have heq := checkHeader_eq device ctx.libKeys data
  have hiff := acceptable_iff device ctx.libKeys data
  unfold Wraps
  by_cases hshort : data.length < idFieldSize + 6
  · rw [if_pos hshort] at heq
    refine iff_of_true (headerRight_of_error heq (.inl rfl) fun hok => ?_) (by omega)
    have := (hiff.mp hok).1
    unfold headerSize at this
    omega
  rw [if_neg hshort] at heq
  by_cases hvariant : VariantOk device data
  swap
  · rw [if_pos hvariant] at heq
    exact iff_of_true (headerRight_of_error heq (.inr (.inl rfl)) fun hok =>
      hvariant (hiff.mp hok).2.1) fun h => hvariant h.2.1
  rw [if_neg (not_not.mpr hvariant)] at heq
  by_cases hcut : data.length < idFieldSize + 10 + 4 * versionCount data
  · rw [if_pos hcut] at heq
    refine iff_of_true (headerRight_of_error heq (.inl rfl) fun hok => ?_) (by omega)
    have := (hiff.mp hok).1
    unfold headerSize at this
    omega
  rw [if_neg hcut] at heq
  by_cases hsize : data.length ≠ headerSize data % 2 ^ 16
  · rw [if_pos hsize] at heq
    refine iff_of_true (headerRight_of_error heq (.inl rfl) fun hok => ?_) (by omega)
    rw [← (hiff.mp hok).1] at hsize
    omega
  rw [if_neg hsize] at heq
  by_cases hlisted : VersionListed ctx.libKeys data
  swap
  · rw [if_pos hlisted] at heq
    exact iff_of_true (headerRight_of_error heq (.inr (.inr rfl)) fun hok =>
      hlisted (hiff.mp hok).2.2.1) fun h => hlisted h.2.2
  rw [if_neg (not_not.mpr hlisted)] at heq
  have hend : idFieldSize + 10 + 4 * versionCount data + 2 * configCount data + 2 =
      headerSize data := by
    unfold headerSize
    omega
  by_cases hwrap : headerSize data = data.length
  · -- the header has the size that its counts give
    refine iff_of_true ?_ fun h => h.1.2.1 hwrap
    rw [searchPsVersions_eq (by omega), Option.map_some] at heq
    by_cases hconfig : ConfigListed ctx.libKeys data
    · have hok := hiff.mpr ⟨hwrap.symm, hvariant, hlisted, hconfig⟩
      rcases hconfig with hsame | hother
      · rw [if_pos hsame] at heq
        exact headerRight_of_ok heq hok
      · rw [decide_eq_true hother, if_pos rfl, ite_self] at heq
        exact headerRight_of_ok heq hok
    · rw [if_neg fun h => hconfig (.inl h), decide_eq_false fun h => hconfig (.inr h),
        if_neg Bool.false_ne_true] at heq
      exact headerRight_of_error heq (.inr (.inr rfl)) fun hok => hconfig (hiff.mp hok).2.2.2
  · -- the lists of the header are longer than the data
    refine iff_of_false ?_ (not_not.mpr ⟨⟨by omega, hwrap, by omega⟩, hvariant, hlisted⟩)
    have hnot : ¬ Acceptable device ctx.libKeys data := fun hok => hwrap (hiff.mp hok).1.symm
    by_cases hsame : headerConfigVersion data = ctx.libKeys.configVersion
    · rw [if_pos hsame] at heq
      exact not_headerRight_of_ok heq hnot
    rw [if_neg hsame] at heq
    have hne : searchPsVersions data ctx.libKeys.configVersion
        (idFieldSize + 10 + 4 * versionCount data) (configCount data) ≠ some false :=
      searchPsVersions_ne (by omega) (by omega)
    cases hs : searchPsVersions data ctx.libKeys.configVersion
        (idFieldSize + 10 + 4 * versionCount data) (configCount data) with
    | none =>
      rw [hs] at heq
      rintro ⟨rc, ctx', hr, -⟩
      rw [handleHeaderState, heq] at hr
      cases hr
    | some found =>
      cases found with
      | false => exact absurd hs hne
      | true =>
        rw [hs, Option.map_some, if_pos rfl] at heq
        exact not_headerRight_of_ok heq hnot

/-- A header with one version and no config versions. -/
def sampleHeader : List UInt8 :=
  [1, 2, 3, 4, 5, 6, 7, 8, 0, 2, 0, 0, 0, 1, 0, 1, 0, 0, 0, 1, 0, 0, 0, 0]

/-- The same with the count of config versions `0x8000`, and another config version. -/
def wrappedHeader : List UInt8 :=
  [1, 2, 3, 4, 5, 6, 7, 8, 0, 2, 0, 0, 0, 1, 0, 1, 0, 0, 0, 2, 0x80, 0, 0, 0]

theorem headerRight_sampleHeader :
    HeaderRight sampleDevice (fresh ⟨1, 0⟩ 1 0 fun _ => []).ctx sampleHeader :=
  (headerRight_iff (by decide)).mpr (by decide)

/-- The loop over the config versions leaves the data. -/
theorem not_headerRight_wrappedHeader :
    ¬ HeaderRight sampleDevice (fresh ⟨1, 0⟩ 1 0 fun _ => []).ctx wrappedHeader := by
  rintro ⟨rc, ctx', hr, -⟩
  have hnone : (handleHeaderState sampleDevice (fresh ⟨1, 0⟩ 1 0 fun _ => []).ctx
      wrappedHeader).isNone = true := by
    decide +kernel
  rw [hr] at hnone
  cases hnone

end Mh40.Upgrade
