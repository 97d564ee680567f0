import Mh40.DeviceDb.RoundTrip

/-!
# Backup of two devices

Model of `device_db_serialiser_backup.c`: the frames of the first two devices are stored one behind
the other under one key, each padded to whole words, and put back under the keys of their
attributes.

* What is stored under a key is the list of its octets, two for each word; all stores succeed.
* `first` and `second` are the devices that `DeviceDbSerialiser_GetDeviceFromPsKey` finds.
* `Agrees`: the restore stores what serialising the devices would have stored. `Whole`: what a
  device has stored is a frame with all its data.
* **`agrees_iff`**: when that is so. `not_agrees_252`: a frame of 256 octets.
-/

namespace Mh40.DeviceDb

open Lib.Buffer List Option

variable {Device : Type}

/-- `device_order_t`. -/
inductive DeviceOrder where
  | first
  | second
  deriving DecidableEq, Repr

/-- `DeviceDbSerialiser_GetAttributePsKey`. -/
def getAttributePsKey : DeviceOrder → ℕ
  | .first => 100
  | .second => 101

/-- A call of `PsStore`: the key and the words, as octets. -/
abbrev PsStore := ℕ × List UInt8

/-- `deviceDbSerialiser_GetFrameSizeForDevice`. -/
def getFrameSizeForDevice (r : Registry Device) (device : Device) : UInt16 :=
  sumAllPdduPayloads (getAllPddusPayloadLengths r device) + UInt16.ofNat sizeOfTypeAndLen

/-- `deviceDbSerialiser_PopulateBuffer`, from the octet `offset` of the buffer on. -/
def populateBuffer (r : Registry Device) (device : Device) (buffer : List UInt8) (offset : ℕ)
    (size : UInt16) : Option (List UInt8) := do
  let buffer ← writeAt buffer (offset + typeOffsetInFrame) [dbsPddFrameType]
  let buffer ← writeAt buffer (offset + lenOffsetInFrame) [size.toUInt8]
  let frame ← populatePddFrame r device (buffer.drop offset) (getAllPddusPayloadLengths r device)
  some (buffer.take offset ++ frame)

/-- `DeviceDbSerialiser_MakeBackup`: what it stores under `PS_KEY_EARBUD_DEVICES_BACKUP`, if it
stores anything. -/
def makeBackup (r : Registry Device) (first second : Option Device) :
    Option (Option (List UInt8)) :=
  if r.numRegisteredPddus = 0 then some none
  else
    match first, second with
    | some first, some second => do
      let firstSize := getFrameSizeForDevice r first
      let secondSize := getFrameSizeForDevice r second
      let numOfWords := psSizeAdj firstSize.toNat + psSizeAdj secondSize.toNat
      let offsetToSecond := psSizeAdj firstSize.toNat * 2
      let buffer ← populateBuffer r first (List.replicate (numOfWords * 2) 0) 0 firstSize
      let buffer ← populateBuffer r second buffer offsetToSecond secondSize
      some (some buffer)
    | _, _ => some none

/-- `DeviceDbSerialiser_RestoreBackup`, from what is stored under `PS_KEY_EARBUD_DEVICES_BACKUP`. -/
def restoreBackup (buffer : List UInt8) : Option (List PsStore) :=
  if buffer.length / 2 > 2 then do
    let firstSize ← buffer[lenOffsetInFrame]?
    let offsetToSecond := psSizeAdj firstSize.toNat * 2
    let secondSize ← buffer[offsetToSecond + lenOffsetInFrame]?
    let firstWords ← readAt buffer 0 (psSizeAdj firstSize.toNat * 2)
    let secondWords ← readAt buffer offsetToSecond (psSizeAdj secondSize.toNat * 2)
    some [(getAttributePsKey .first, firstWords), (getAttributePsKey .second, secondWords)]
  else some []

/-- The words that `ConnectionSmPutAttributeReq` stores of a frame. -/
def attributeWords (pddFrame : List UInt8) : Option (List UInt8) := do
  let len ← pddFrame[lenOffsetInFrame]?
  readAt pddFrame 0 (psSizeAdj len.toNat * 2)

/-- What serialising a device stores. -/
def serialiseStores (list : DeviceList Device) (r : Registry Device) (order : DeviceOrder)
    (device : Device) : Option (List PsStore) :=
  (serialiseDevice list r device).bind fun
    | none => some []
    | some (_, pddFrame) =>
      (attributeWords pddFrame).map fun words => [(getAttributePsKey order, words)]

/-- The restore makes the stores that serialising both devices would have made. -/
def Agrees (list : DeviceList Device) (r : Registry Device) (first second : Device) : Prop :=
  ∃ buffer firstStores secondStores, makeBackup r (some first) (some second) = some (some buffer) ∧
    serialiseStores list r .first first = some firstStores ∧
    serialiseStores list r .second second = some secondStores ∧
    restoreBackup buffer = some (firstStores ++ secondStores)

/-- What serialising the device stores is a frame that has the data of all users: its length octet
counts them. Nothing is stored when there are none. -/
def Whole (list : DeviceList Device) (r : Registry Device) (device : Device) : Prop :=
  ∃ stored, serialiseDevice list r device = some stored ∧
    match stored with
    | none => payloadLength r.pddus device = 0
    | some (_, pddFrame) => ∃ len, pddFrame[lenOffsetInFrame]? = some len ∧
        len.toNat = sizeOfTypeAndLen + payloadLength r.pddus device

/-! ## Frames that fit -/

section

variable {list : DeviceList Device} {r : Registry Device} {device first second : Device}
  {users : List (Pddu Device)} {addr : Bdaddr}

/-- The frame of a device, padded to whole words. -/
def paddedFrame (users : List (Pddu Device)) (device : Device) : List UInt8 :=
  [dbsPddFrameType, UInt8.ofNat (payloadLength users device) + 2] ++ parts users device ++
    List.replicate (psSizeAdj (payloadLength users device + 2) * 2 -
      (payloadLength users device + 2)) 0

theorem length_paddedFrame (users : List (Pddu Device)) (device : Device) :
    (paddedFrame users device).length = psSizeAdj (payloadLength users device + 2) * 2 := by
  unfold paddedFrame
  rw [length_append, length_append, length_parts, length_replicate, psSizeAdj]
  simp only [length_cons, length_nil]
  omega

/-- Users that fit have lengths that do not wrap. -/
theorem getLen_le_of_fits (hfit : payloadLength users device ≤ 253) :
    ∀ u ∈ users, (u.getLen device).toNat ≤ 253 := by
  intro u hu
  have hle := partLength_le device hu
  by_cases h0 : u.getLen device = 0
  · rw [h0]
    exact Nat.zero_le _
  · rw [partLength, if_neg h0] at hle
    omega

section

variable (hfit : payloadLength r.pddus device ≤ 253)
include hfit

/-- The sum of the lengths does not wrap. -/
theorem sum_of_fits :
    (sumAllPdduPayloads (getAllPddusPayloadLengths r device)).toNat =
      payloadLength r.pddus device := by
  have hsum := toNat_sumAllPdduPayloads (getLen_le_of_fits hfit)
  rw [Nat.mod_eq_of_lt (by omega)] at hsum
  rw [← hsum]
  simp [sumAllPdduPayloads, getAllPddusPayloadLengths]

theorem toNat_getFrameSizeForDevice :
    (getFrameSizeForDevice r device).toNat = payloadLength r.pddus device + 2 := by
  have h2 : (UInt16.ofNat sizeOfTypeAndLen).toNat = 2 := rfl
  rw [getFrameSizeForDevice, UInt16.toNat_add, sum_of_fits hfit, h2]
  omega

theorem toUInt8_getFrameSizeForDevice :
    (getFrameSizeForDevice r device).toUInt8 =
      UInt8.ofNat (payloadLength r.pddus device) + 2 := by
  refine UInt8.toNat_inj.mp ?_
  have h2 : (2 : UInt8).toNat = 2 := rfl
  rw [UInt16.toNat_toUInt8, toNat_getFrameSizeForDevice hfit, UInt8.toNat_add, h2,
    UInt8.toNat_ofNat']
  omega

/-- The frame of a device is written in front of what is left of the buffer. -/
theorem populateBuffer_eq (front : List UInt8) {offset : ℕ} (hoffset : front.length = offset)
    {a b : UInt8} {back : List UInt8} (hback : payloadLength r.pddus device ≤ back.length) :
    populateBuffer r device (front ++ a :: b :: back) offset (getFrameSizeForDevice r device) =
      some (front ++ ([dbsPddFrameType, UInt8.ofNat (payloadLength r.pddus device) + 2] ++
        parts r.pddus device ++ back.drop (payloadLength r.pddus device))) := by
  subst hoffset
  have htype := writeAt_append (i := front.length) front [a] [dbsPddFrameType] (b :: back) rfl rfl
  have hlen := writeAt_append (i := front.length + 1) (front ++ [dbsPddFrameType]) [b]
    [(getFrameSizeForDevice r device).toUInt8] back (by simp) rfl
  have hpopulate := populatePddFrameFrom_parts
    [dbsPddFrameType, (getFrameSizeForDevice r device).toUInt8] [] back 0 rfl rfl
    (by simpa using hfit) hback
  simp only [append_assoc, cons_append, nil_append] at htype hlen hpopulate
  unfold populateBuffer typeOffsetInFrame lenOffsetInFrame populatePddFrame
    getAllPddusPayloadLengths
  simp only [bind_eq_bind, Nat.add_zero, htype, hlen, bind_some]
  rw [drop_left, take_left, hpopulate, bind_some,
    toUInt8_getFrameSizeForDevice hfit]
  rfl

/-- The frame of a device is written in front of zeros. -/
theorem populateBuffer_zeros (front : List UInt8) {offset : ℕ} (hoffset : front.length = offset)
    (n : ℕ) :
    populateBuffer r device (front ++
        List.replicate ((psSizeAdj (payloadLength r.pddus device + 2) + n) * 2) 0) offset
        (getFrameSizeForDevice r device) =
      some (front ++ paddedFrame r.pddus device ++ List.replicate (n * 2) 0) := by
  obtain ⟨k, hk⟩ : ∃ k, (psSizeAdj (payloadLength r.pddus device + 2) + n) * 2 = k + 1 + 1 :=
    ⟨(psSizeAdj (payloadLength r.pddus device + 2) + n) * 2 - 2, by unfold psSizeAdj; omega⟩
  have hlen : payloadLength r.pddus device ≤ k := by
    unfold psSizeAdj at hk
    omega
  have hrest : k - payloadLength r.pddus device =
      (psSizeAdj (payloadLength r.pddus device + 2) * 2 - (payloadLength r.pddus device + 2)) +
        n * 2 := by
    unfold psSizeAdj at hk ⊢
    omega
  rw [hk, replicate_succ, replicate_succ,
    populateBuffer_eq hfit front hoffset (by rwa [length_replicate]), drop_replicate,
    hrest, replicate_add]
  simp only [paddedFrame, append_assoc]

end

/-- **The backup of devices that fit** is their frames, one behind the other. -/
theorem makeBackup_of_fits (hn : r.numRegisteredPddus ≠ 0)
    (hfirst : payloadLength r.pddus first ≤ 253) (hsecond : payloadLength r.pddus second ≤ 253) :
    makeBackup r (some first) (some second) =
      some (some (paddedFrame r.pddus first ++ paddedFrame r.pddus second)) := by
  have hbuffer := populateBuffer_zeros hfirst [] length_nil
    (psSizeAdj (payloadLength r.pddus second + 2))
  have hrest := populateBuffer_zeros hsecond (paddedFrame r.pddus first)
    (length_paddedFrame r.pddus first) 0
  rw [nil_append, nil_append] at hbuffer
  rw [Nat.add_zero, Nat.zero_mul, replicate_zero, append_nil] at hrest
  unfold makeBackup
  rw [if_neg hn]
  simp only [toNat_getFrameSizeForDevice hfirst, toNat_getFrameSizeForDevice hsecond,
    bind_eq_bind, hbuffer, bind_some, hrest]

/-- The length octet of a frame that fits. -/
theorem toNat_len (hfit : payloadLength users device ≤ 253) :
    (UInt8.ofNat (payloadLength users device) + 2).toNat = payloadLength users device + 2 := by
  have h2 : (2 : UInt8).toNat = 2 := rfl
  rw [UInt8.toNat_add, h2, UInt8.toNat_ofNat']
  omega

/-- Serialising a device with data that fit stores its frame, padded to whole words. -/
theorem serialiseDevice_of_fits (hn : r.numRegisteredPddus ≠ 0)
    (hon : list.isDeviceOnList device = true) (haddr : list.bdaddr device = some addr)
    (hfit : payloadLength r.pddus device ≤ 253) :
    serialiseDevice list r device = some (if payloadLength r.pddus device = 0 then none else
      some (addr, paddedFrame r.pddus device)) := by
  have hsum := sum_of_fits hfit
  have hsum8 : (sumAllPdduPayloads (getAllPddusPayloadLengths r device)).toUInt8.toNat =
      payloadLength r.pddus device := by
    rw [UInt16.toNat_toUInt8, hsum]
    omega
  unfold serialiseDevice
  rw [hon, Bool.not_true, if_neg Bool.false_ne_true, if_neg hn, haddr]
  dsimp only
  generalize (sumAllPdduPayloads (getAllPddusPayloadLengths r device)).toUInt8 = payloadLen
    at hsum8
  by_cases hzero : payloadLength r.pddus device = 0
  · have hlen : payloadLen = 0 := UInt8.toNat_inj.mp (hsum8.trans hzero)
    rw [if_neg (not_not.mpr hlen), if_pos hzero]
  · have hlen : payloadLen ≠ 0 := fun h => hzero (hsum8 ▸ congrArg UInt8.toNat h)
    have hlenEq : payloadLen = UInt8.ofNat (payloadLength r.pddus device) := by
      rw [← hsum8, UInt8.ofNat_toNat]
    have hpopulate := populatePddFrameFrom_parts [dbsPddFrameType, payloadLen + 2] []
      (List.replicate (psSizeAdj (payloadLen.toNat + 2) * 2 - 2) 0) 0 rfl rfl
      (by simpa using hfit) (by
        rw [length_replicate, hsum8, psSizeAdj]
        omega)
    rw [if_pos hlen, if_neg hzero, createPddFrame_eq, populatePddFrame, getAllPddusPayloadLengths]
    rw [append_nil] at hpopulate
    rw [hpopulate, map_some, drop_replicate, hsum8, Nat.sub_sub, Nat.add_comm 2, hlenEq]
    rfl

theorem getElem?_paddedFrame (users : List (Pddu Device)) (device : Device) :
    (paddedFrame users device)[lenOffsetInFrame]? =
      some (UInt8.ofNat (payloadLength users device) + 2) := rfl

/-- What serialising a device that fits stores. -/
theorem serialiseStores_of_fits (hn : r.numRegisteredPddus ≠ 0)
    (hon : list.isDeviceOnList device = true) (haddr : list.bdaddr device = some addr)
    (hfit : payloadLength r.pddus device ≤ 253) (order : DeviceOrder) :
    serialiseStores list r order device = some (if payloadLength r.pddus device = 0 then [] else
      [(getAttributePsKey order, paddedFrame r.pddus device)]) := by
  unfold serialiseStores
  rw [serialiseDevice_of_fits hn hon haddr hfit]
  by_cases hzero : payloadLength r.pddus device = 0
  · rw [if_pos hzero, if_pos hzero]
    rfl
  · rw [if_neg hzero, if_neg hzero, bind_some]
    have hread := readAt_append [] (paddedFrame r.pddus device) [] length_nil
      (length_paddedFrame r.pddus device)
    rw [nil_append, append_nil] at hread
    simp only [attributeWords, getElem?_paddedFrame, bind_eq_bind, bind_some,
      toNat_len hfit, hread, map_some]

/-- **The restore takes the frames apart again**, unless both devices have no data. -/
theorem restoreBackup_of_fits (hfirst : payloadLength users first ≤ 253)
    (hsecond : payloadLength users second ≤ 253) :
    restoreBackup (paddedFrame users first ++ paddedFrame users second) =
      some (if payloadLength users first = 0 ∧ payloadLength users second = 0 then [] else
        [(getAttributePsKey .first, paddedFrame users first),
          (getAttributePsKey .second, paddedFrame users second)]) := by
  have hlenFirst := length_paddedFrame users first
  have hlenSecond := length_paddedFrame users second
  have hcond : (paddedFrame users first ++ paddedFrame users second).length / 2 > 2 ↔
      ¬(payloadLength users first = 0 ∧ payloadLength users second = 0) := by
    rw [length_append, hlenFirst, hlenSecond, psSizeAdj, psSizeAdj]
    omega
  unfold restoreBackup
  by_cases hzero : payloadLength users first = 0 ∧ payloadLength users second = 0
  · rw [if_neg (fun h => hcond.mp h hzero), if_pos hzero]
  · have hreadFirst := readAt_append [] (paddedFrame users first) (paddedFrame users second)
      length_nil hlenFirst
    have hreadSecond := readAt_append (paddedFrame users first) (paddedFrame users second) []
      hlenFirst hlenSecond
    rw [nil_append] at hreadFirst
    rw [append_nil] at hreadSecond
    have hsizeFirst : (paddedFrame users first ++ paddedFrame users second)[lenOffsetInFrame]? =
        some (UInt8.ofNat (payloadLength users first) + 2) := rfl
    have hsizeSecond : (paddedFrame users first ++ paddedFrame users second)[
        psSizeAdj (payloadLength users first + 2) * 2 + lenOffsetInFrame]? =
        some (UInt8.ofNat (payloadLength users second) + 2) := by
      rw [getElem?_append_right (by rw [hlenFirst]; exact Nat.le_add_right _ _), hlenFirst,
        Nat.add_sub_cancel_left]
      rfl
    rw [if_pos (hcond.mpr hzero), if_neg hzero]
    simp only [bind_eq_bind, hsizeFirst, bind_some, toNat_len hfirst, hsizeSecond,
      toNat_len hsecond, hreadFirst, hreadSecond]

/-- A frame has one octet for its length. -/
theorem Whole.fits (h : Whole list r device) : payloadLength r.pddus device ≤ 253 := by
  obtain ⟨stored, -, hstored⟩ := h
  split at hstored
  · omega
  · obtain ⟨len, -, hlen⟩ := hstored
    have hlt := len.toNat_lt
    unfold sizeOfTypeAndLen at hlen
    omega

/-- Devices that fit have whole frames. -/
theorem whole_of_fits (hn : r.numRegisteredPddus ≠ 0) (hon : list.isDeviceOnList device = true)
    (haddr : list.bdaddr device = some addr) (hfit : payloadLength r.pddus device ≤ 253) :
    Whole list r device := by
  refine ⟨_, serialiseDevice_of_fits hn hon haddr hfit, ?_⟩
  by_cases hzero : payloadLength r.pddus device = 0
  · rw [if_pos hzero]
    exact hzero
  · rw [if_neg hzero]
    refine ⟨_, getElem?_paddedFrame _ _, ?_⟩
    rw [toNat_len hfit, Nat.add_comm]
    rfl

/-- **Backup and restore agree with serialising the devices** iff the data of each fit into a frame,
and both devices have data or none has. -/
theorem agrees_iff {firstAddr secondAddr : Bdaddr} (hn : r.numRegisteredPddus ≠ 0)
    (hfirstOn : list.isDeviceOnList first = true) (hfirst : list.bdaddr first = some firstAddr)
    (hsecondOn : list.isDeviceOnList second = true)
    (hsecond : list.bdaddr second = some secondAddr) :
    Agrees list r first second ∧ Whole list r first ∧ Whole list r second ↔
      payloadLength r.pddus first ≤ 253 ∧ payloadLength r.pddus second ≤ 253 ∧
        (payloadLength r.pddus first = 0 ↔ payloadLength r.pddus second = 0) := by
  constructor
  · rintro ⟨⟨buffer, firstStores, secondStores, hbackup, hserialise, hserialise', hrestore⟩,
      hwhole, hwhole'⟩
    have hfit := hwhole.fits
    have hfit' := hwhole'.fits
    refine ⟨hfit, hfit', ?_⟩
    rw [makeBackup_of_fits hn hfit hfit'] at hbackup
    obtain rfl := Option.some.inj (Option.some.inj hbackup)
    rw [serialiseStores_of_fits hn hfirstOn hfirst hfit] at hserialise
    rw [serialiseStores_of_fits hn hsecondOn hsecond hfit'] at hserialise'
    obtain rfl := Option.some.inj hserialise
    obtain rfl := Option.some.inj hserialise'
    rw [restoreBackup_of_fits hfit hfit'] at hrestore
    have hlength := congrArg List.length (Option.some.inj hrestore)
    by_cases hzero : payloadLength r.pddus first = 0 <;>
      by_cases hzero' : payloadLength r.pddus second = 0 <;> simp_all
  · rintro ⟨hfit, hfit', hboth⟩
    refine ⟨⟨_, _, _, makeBackup_of_fits hn hfit hfit',
      serialiseStores_of_fits hn hfirstOn hfirst hfit .first,
      serialiseStores_of_fits hn hsecondOn hsecond hfit' .second, ?_⟩,
      whole_of_fits hn hfirstOn hfirst hfit, whole_of_fits hn hsecondOn hsecond hfit'⟩
    rw [restoreBackup_of_fits hfit hfit']
    by_cases hzero : payloadLength r.pddus first = 0
    · have hzero' := hboth.mp hzero
      rw [if_pos ⟨hzero, hzero'⟩, if_pos hzero, if_pos hzero']
      rfl
    · have hzero' : payloadLength r.pddus second ≠ 0 := fun h => hzero (hboth.mpr h)
      rw [if_neg (fun h => hzero h.1), if_neg hzero, if_neg hzero']
      rfl

end

/-! ## Two devices -/

/-- A user with `len` octets for the device `true`, and 3 for the other. -/
def userOfTwo (len : UInt8) : Pddu Bool :=
  ⟨1, fun device => if device then len else 3,
    fun device => List.replicate (if device then len else 3).toNat 7,
    fun _ => length_replicate⟩

/-- Two devices with addresses. -/
def bothDevices : DeviceList Bool := ⟨fun _ => true, fun device => some ⟨device.toNat, 2, 3⟩⟩

theorem agrees_iff_two :
    Agrees bothDevices (registerAll [userOfTwo 4]) true false ∧
        Whole bothDevices (registerAll [userOfTwo 4]) true ∧
        Whole bothDevices (registerAll [userOfTwo 4]) false ↔
      payloadLength (registerAll [userOfTwo 4]).pddus true ≤ 253 ∧
        payloadLength (registerAll [userOfTwo 4]).pddus false ≤ 253 ∧
        (payloadLength (registerAll [userOfTwo 4]).pddus true = 0 ↔
          payloadLength (registerAll [userOfTwo 4]).pddus false = 0) :=
  agrees_iff (by decide) rfl rfl rfl rfl

/-- **Backup and restore do not always agree**: with 252 octets of the user, the first frame has
256, which its length octet does not say, and the restore deletes the attributes of both devices. -/
theorem not_agrees_252 :
    ¬ ∀ (list : DeviceList Bool) (r : Registry Bool) (first second : Bool),
      r.numRegisteredPddus ≠ 0 → list.isDeviceOnList first → list.isDeviceOnList second →
      list.bdaddr first ≠ none → list.bdaddr second ≠ none → Agrees list r first second := by
  intro h
  obtain ⟨buffer, firstStores, secondStores, hbackup, -, hsecond, hrestore⟩ :=
    h bothDevices (registerAll [userOfTwo 252]) true false (by decide) rfl rfl (by decide)
      (by decide)
  have hrestored : (makeBackup (registerAll [userOfTwo 252]) (some true) (some false)).map
      (·.map restoreBackup) = some (some (some [(100, []), (101, [])])) := by decide +kernel
  have hserialised : serialiseStores bothDevices (registerAll [userOfTwo 252]) .second false =
      some [(101, [0xDB, 7, 1, 5, 7, 7, 7, 0])] := by decide +kernel
  rw [hbackup, Option.map_some, Option.map_some, hrestore] at hrestored
  rw [hserialised] at hsecond
  obtain rfl := Option.some.inj hsecond
  have hmem : ((101, [0xDB, 7, 1, 5, 7, 7, 7, 0]) : PsStore) ∈
      ([(100, []), (101, [])] : List PsStore) := by
    rw [← Option.some.inj (Option.some.inj (Option.some.inj hrestored))]
    exact List.mem_append_right _ (List.mem_singleton_self _)
  revert hmem
  decide

end Mh40.DeviceDb
