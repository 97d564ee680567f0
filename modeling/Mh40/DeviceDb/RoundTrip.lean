import Mathlib
import Mh40.DeviceDb.Serialiser

/-!
# The device database round trip

Which users of a device get their data back from the frame that `deviceDbSerialiser_SerialiseDevice`
stores.

* `Restores`: the writes stay in the frame, and `deser` is called once for every user with data, in
  the order of registration, with the octets that `ser` wrote.
* `payloadLength`: the octets that the users need in the frame, two of them for each user's header.
* `restores_iff`: a frame restores its users iff nobody has data, or at most 255 users need at most
  253 octets. From 254 octets on the length of the frame, which is a `uint8`, wraps; from 256 on the
  allocation and the write offset wrap too; the count of 256 users wraps to zero.
-/

namespace Mh40.DeviceDb

open Lib.Buffer List Option

variable {Device : Type} {device : Device} {r : Registry Device} {users us : List (Pddu Device)}
  {u : Pddu Device} {frame frame' : List UInt8}

/-- The users, registered in order. -/
def registerAll (users : List (Pddu Device)) : Registry Device :=
  users.foldl registerPersistentDeviceDataUser pdduInit

/-- The call that gives a user its data back. -/
def Pddu.restored (u : Pddu Device) (device : Device) : DeserCall :=
  ⟨u.id, u.ser device, u.getLen device⟩

/-- The calls that give all users with data their data back. -/
def restoredCalls (users : List (Pddu Device)) (device : Device) : List DeserCall :=
  (users.filter (·.getLen device ≠ 0)).map (·.restored device)

/-- The writes stay in the frame, and from the frame each user gets its data back. -/
def Restores (list : DeviceList Device) (users : List (Pddu Device)) (device : Device) : Prop :=
  ∃ stored, serialiseDevice list (registerAll users) device = some stored ∧
    match stored with
    | none => restoredCalls users device = []
    | some (_, pddFrame) =>
      deserialisePddFrame (registerAll users) pddFrame = some (restoredCalls users device)

/-- The octets of one user in a frame, as a number. -/
def partLength (device : Device) (u : Pddu Device) : ℕ :=
  if u.getLen device = 0 then 0 else sizeOfTypeAndLen + (u.getLen device).toNat

/-- The octets of all users in a frame, as a number. -/
def payloadLength (users : List (Pddu Device)) (device : Device) : ℕ :=
  (users.map (partLength device)).sum

/-- The part of one user. -/
def part (device : Device) (u : Pddu Device) : List UInt8 :=
  if u.getLen device = 0 then [] else
    u.id :: pdduPayloadLength device u :: u.ser device

/-- The parts of all users. -/
def parts (users : List (Pddu Device)) (device : Device) : List UInt8 :=
  users.flatMap (part device)

/-! ## Registration -/

theorem registerAll_eq (h : users.length ≤ 256) :
    registerAll users = ⟨users, UInt8.ofNat users.length⟩ := by
  unfold registerAll
  induction users using List.reverseRecOn with
  | nil => rfl
  | append_singleton us u ih =>
    have hlen : us.length < 256 := by simpa using h
    rw [foldl_append, ih (Nat.le_of_lt hlen), foldl_cons, foldl_nil,
      registerPersistentDeviceDataUser]
    have hnat : (UInt8.ofNat us.length).toNat = us.length := by
      rw [UInt8.toNat_ofNat', Nat.mod_eq_of_lt hlen]
    simp [hnat]

theorem length_le_of_nodup (hids : (users.map (·.id)).Nodup) : users.length ≤ 256 := by
  have hnat : ((users.map (·.id)).map UInt8.toNat).Nodup :=
    hids.map fun _ _ h => UInt8.toNat_inj.mp h
  have hsub : (users.map (·.id)).map UInt8.toNat ⊆ List.range 256 := by
    intro n hn
    obtain ⟨id, _, rfl⟩ := List.mem_map.mp hn
    exact mem_range.mpr id.toNat_lt
  simpa using (subperm_of_subset hnat hsub).length_le

theorem registerAll_pddus (h : users.length ≤ 255) : (registerAll users).pddus = users := by
  rw [registerAll_eq (Nat.le_succ_of_le h), Registry.pddus]
  have hnat : (UInt8.ofNat users.length).toNat = users.length := by
    rw [UInt8.toNat_ofNat', Nat.mod_eq_of_lt (by omega)]
  simp [hnat]

/-- A registered user is found by its id. -/
theorem getRegisteredPddu_registerAll (hids : (users.map (·.id)).Nodup) (h : users.length ≤ 255)
    (hu : u ∈ users) : getRegisteredPddu (registerAll users) u.id = some u := by
  rw [getRegisteredPddu, registerAll_pddus h]
  clear h
  induction users with
  | nil => cases hu
  | cons v users ih =>
    rw [map_cons, nodup_cons] at hids
    rw [find?_cons]
    rcases mem_cons.mp hu with rfl | hu
    · simp
    · have hne : v.id ≠ u.id := fun heq => hids.1 (heq ▸ List.mem_map_of_mem hu)
      simpa [hne] using ih hids.2 hu

/-! ## Lengths -/

/-- A length callback's result that leaves room for the header in a `uint8`. -/
theorem toNat_pdduPayloadLength (h : (u.getLen device).toNat ≤ 253) :
    (pdduPayloadLength device u).toNat = partLength device u := by
  unfold pdduPayloadLength partLength
  by_cases h0 : u.getLen device = 0
  · simp [h0]
  · have h2 : (UInt8.ofNat sizeOfTypeAndLen).toNat = 2 := rfl
    simp only [ne_eq, h0, not_false_eq_true, if_true, if_false, UInt8.toNat_add, h2]
    unfold sizeOfTypeAndLen
    omega

theorem length_part (u : Pddu Device) (device : Device) :
    (part device u).length = partLength device u := by
  unfold part partLength
  split
  · rfl
  · simp [u.length_ser, sizeOfTypeAndLen]
    omega

theorem length_parts (users : List (Pddu Device)) (device : Device) :
    (parts users device).length = payloadLength users device := by
  rw [parts, length_flatMap, payloadLength]
  congr 1
  exact map_congr_left fun u _ => length_part u device

theorem payloadLength_cons (u : Pddu Device) (us : List (Pddu Device)) (device : Device) :
    payloadLength (u :: us) device = partLength device u + payloadLength us device := by
  simp [payloadLength]

theorem partLength_le (device : Device) (hu : u ∈ users) : partLength device u ≤ payloadLength users device :=
  le_sum_of_mem (List.mem_map_of_mem hu)

/-! ## Serialisation -/

/-- A user's header and data are written as one block. -/
theorem addPdduData_eq (u : Pddu Device) (frame : List UInt8) (payload : ℕ) (len : UInt8) :
    addPdduData device u frame payload len =
      writeAt frame payload (u.id :: len :: u.ser device) := by
  simp only [addPdduData, typeOffsetInFrame, lenOffsetInFrame, payloadOffsetInFrame,
    sizeOfTypeAndLen, Nat.add_zero, bind_eq_bind]
  by_cases hfit : payload + (u.id :: len :: u.ser device).length ≤ frame.length
  · simp only [length_cons] at hfit
    obtain ⟨front, a, b, cs, back, rfl, hfront, hcs⟩ : ∃ front a b cs back,
        frame = front ++ a :: b :: (cs ++ back) ∧ front.length = payload ∧
          cs.length = (u.ser device).length := by
      refine ⟨frame.take payload, frame[payload], frame[payload + 1],
        (frame.drop (payload + 2)).take (u.ser device).length,
        (frame.drop (payload + 2)).drop (u.ser device).length, ?_, by simp; omega, by simp; omega⟩
      rw [take_append_drop, ← drop_eq_getElem_cons, ← drop_eq_getElem_cons,
        take_append_drop]
    have h1 := writeAt_append front [a] [u.id] (b :: (cs ++ back)) hfront rfl
    have h2 := writeAt_append (i := payload + 1) (front ++ [u.id]) [b] [len] (cs ++ back)
      (by simp [hfront]) rfl
    have h3 := writeAt_append (i := payload + 2) (front ++ [u.id, len]) cs (u.ser device) back
      (by simp [hfront]) hcs
    have h := writeAt_append front (a :: b :: cs) (u.id :: len :: u.ser device) back hfront
      (by simp [hcs])
    simp only [append_assoc, cons_append, nil_append] at h1 h2 h3 h
    rw [h1, bind_some, h2, bind_some, h3, h]
  · rw [writeAt_eq_none_iff.mpr (Nat.not_le.mp hfit)]
    simp only [length_cons, Nat.not_le] at hfit
    refine bind_eq_none_iff.mpr fun f₁ h₁ => bind_eq_none_iff.mpr fun f₂ h₂ => ?_
    rw [writeAt_eq_none_iff, length_of_writeAt h₂, length_of_writeAt h₁]
    omega

theorem length_addPdduData (u : Pddu Device) (device : Device) (len : UInt8)
    (h : u.getLen device ≠ 0) :
    (u.id :: len :: u.ser device).length = partLength device u := by
  simp [partLength, h, u.length_ser, sizeOfTypeAndLen]
  omega

theorem pdduPayloadLength_eq_zero_iff (h : (u.getLen device).toNat ≤ 253) :
    pdduPayloadLength device u = 0 ↔ u.getLen device = 0 := by
  rw [← UInt8.toNat_inj, toNat_pdduPayloadLength h, partLength]
  split <;> simp_all [sizeOfTypeAndLen]

/-- **The users' parts are written one behind the other** when they need at most 253 octets. -/
theorem populatePddFrameFrom_parts (front done back : List UInt8) (offset : UInt8)
    (hfront : front.length = payloadOffsetInFrame) (hdone : done.length = offset.toNat)
    (hfit : offset.toNat + payloadLength us device ≤ 253)
    (hback : payloadLength us device ≤ back.length) :
    populatePddFrameFrom device (us.zip (us.map (pdduPayloadLength device))) offset
        (front ++ done ++ back) =
      some (front ++ done ++ parts us device ++ back.drop (payloadLength us device)) := by
  induction us generalizing done back offset with
  | nil => simp [populatePddFrameFrom, parts, payloadLength]
  | cons u us ih =>
    rw [payloadLength_cons] at hfit hback
    have hlen : (u.getLen device).toNat ≤ 253 := by
      by_cases h0 : u.getLen device = 0
      · simp [h0]
      · simp only [partLength, if_neg h0] at hfit
        omega
    have hnat := toNat_pdduPayloadLength hlen
    simp only [map_cons, zip_cons_cons, populatePddFrameFrom]
    by_cases h0 : u.getLen device = 0
    · have hpart : partLength device u = 0 := by simp [partLength, h0]
      rw [hpart, Nat.zero_add] at hfit hback
      have hparts : parts (u :: us) device = parts us device := by simp [parts, part, h0]
      rw [if_neg (by simpa using (pdduPayloadLength_eq_zero_iff hlen).mpr h0),
        ih _ _ _ hdone hfit hback, hparts, payloadLength_cons, hpart, Nat.zero_add]
    · have hblock := length_addPdduData u device (pdduPayloadLength device u) h0
      have hwrite := writeAt_append (i := payloadOffsetInFrame + offset.toNat) (front ++ done)
        (back.take (partLength device u)) (u.id :: pdduPayloadLength device u :: u.ser device)
        (back.drop (partLength device u)) (by simp [hfront, hdone]) (by rw [hblock]; simp; omega)
      rw [append_assoc (front ++ done), take_append_drop] at hwrite
      rw [if_pos (by rwa [ne_eq, pdduPayloadLength_eq_zero_iff hlen]), addPdduData_eq, hwrite]
      have hoffset : (offset + pdduPayloadLength device u).toNat =
          offset.toNat + partLength device u := by
        rw [UInt8.toNat_add, hnat]
        omega
      have hparts : parts (u :: us) device =
          u.id :: pdduPayloadLength device u :: u.ser device ++ parts us device := by
        simp [parts, part, h0]
      have := ih (done ++ u.id :: pdduPayloadLength device u :: u.ser device)
        (back.drop (partLength device u)) (offset + pdduPayloadLength device u)
        (by rw [length_append, hblock, hdone, hoffset]) (by omega) (by simp; omega)
      simp only [bind_eq_bind, bind_some]
      rw [← append_assoc] at this
      rw [this, hparts, payloadLength_cons, drop_drop]
      simp

/-- The two octets in front of the payload stay as they are. -/
theorem take_of_populatePddFrameFrom {entries : List (Pddu Device × UInt8)} {offset : UInt8}
    (h : populatePddFrameFrom device entries offset frame = some frame') :
    frame'.take payloadOffsetInFrame = frame.take payloadOffsetInFrame := by
  induction entries generalizing frame offset with
  | nil =>
    cases h
    rfl
  | cons entry entries ih =>
    unfold populatePddFrameFrom at h
    split at h
    · obtain ⟨frame₁, hadd, h⟩ := bind_eq_some_iff.mp h
      rw [addPdduData_eq] at hadd
      rw [ih h, take_of_writeAt hadd (Nat.le_add_right _ _)]
    · exact ih h

/-- **The writes leave a frame** of at most 257 octets when the users need more than 255. -/
theorem populatePddFrameFrom_fault {offset : UInt8} (hframe : frame.length ≤ 257)
    (hlens : ∀ u ∈ us, (u.getLen device).toNat ≤ 253)
    (hover : 256 ≤ offset.toNat + payloadLength us device) :
    populatePddFrameFrom device (us.zip (us.map (pdduPayloadLength device))) offset frame =
      none := by
  induction us generalizing frame offset with
  | nil =>
    have := offset.toNat_lt
    simp [payloadLength] at hover
    omega
  | cons u us ih =>
    obtain ⟨hlen, hlens⟩ := forall_mem_cons.mp hlens
    have hnat := toNat_pdduPayloadLength hlen
    rw [payloadLength_cons] at hover
    simp only [map_cons, zip_cons_cons, populatePddFrameFrom]
    by_cases h0 : u.getLen device = 0
    · have hpart : partLength device u = 0 := by simp [partLength, h0]
      rw [if_neg (by simpa using (pdduPayloadLength_eq_zero_iff hlen).mpr h0)]
      exact ih hframe hlens (by omega)
    · have hblock := length_addPdduData u device (pdduPayloadLength device u) h0
      rw [if_pos (by rwa [ne_eq, pdduPayloadLength_eq_zero_iff hlen]), addPdduData_eq]
      refine bind_eq_none_iff.mpr fun frame₁ hwrite => ?_
      by_cases hcross : 256 ≤ offset.toNat + partLength device u
      · -- this user's part reaches over the end of every frame
        rw [writeAt_eq_none_iff.mpr (by
          rw [hblock, payloadOffsetInFrame, sizeOfTypeAndLen]
          omega)] at hwrite
        cases hwrite
      · refine ih (by rwa [length_of_writeAt hwrite]) hlens ?_
        rw [UInt8.toNat_add, hnat]
        omega

/-! ## Deserialisation -/

theorem dataLength_pdduPayloadLength (hlen : (u.getLen device).toNat ≤ 253)
    (h0 : u.getLen device ≠ 0) : dataLength (pdduPayloadLength device u) = u.getLen device := by
  have hnat := toNat_pdduPayloadLength hlen
  rw [partLength, if_neg h0, sizeOfTypeAndLen] at hnat
  have h2 : (UInt8.ofNat sizeOfMetadata).toNat = 2 := rfl
  rw [dataLength, if_neg (by rw [hnat, sizeOfMetadata]; omega), ← UInt8.toNat_inj,
    UInt8.toNat_sub, hnat, h2]
  omega

/-- **From the parts of its payload a frame hands every user its data back.** -/
theorem deserialisePddFrameFrom_parts (us : List (Pddu Device)) (front back : List UInt8) (watchdog : ℕ)
    (hfound : ∀ u ∈ us, getRegisteredPddu r u.id = some u)
    (hlens : ∀ u ∈ us, (u.getLen device).toNat ≤ 253)
    (hwatchdog : payloadLength us device < watchdog) :
    deserialisePddFrameFrom r (front ++ parts us device ++ back)
      (front.length + payloadLength us device) watchdog front.length =
      some (restoredCalls us device) := by
  induction us generalizing front watchdog with
  | nil =>
    obtain ⟨watchdog, rfl⟩ : ∃ n, watchdog = n + 1 := ⟨watchdog - 1, by omega⟩
    simp [deserialisePddFrameFrom, payloadLength, restoredCalls]
  | cons u us ih =>
    obtain ⟨hlen, hlens⟩ := forall_mem_cons.mp hlens
    obtain ⟨hu, hfound⟩ := forall_mem_cons.mp hfound
    rw [payloadLength_cons] at hwatchdog ⊢
    by_cases h0 : u.getLen device = 0
    · have hpart : partLength device u = 0 := by simp [partLength, h0]
      have hparts : parts (u :: us) device = parts us device := by simp [parts, part, h0]
      have hcalls : restoredCalls (u :: us) device = restoredCalls us device := by
        simp [restoredCalls, h0]
      rw [hpart, Nat.zero_add] at hwatchdog ⊢
      rw [hparts, hcalls]
      exact ih front watchdog hfound hlens hwatchdog
    · have hpart : partLength device u = 2 + (u.getLen device).toNat := by
        simp [partLength, h0, sizeOfTypeAndLen]
      have hparts : parts (u :: us) device =
          u.id :: pdduPayloadLength device u :: u.ser device ++ parts us device := by
        simp [parts, part, h0]
      have hcalls : restoredCalls (u :: us) device = u.restored device :: restoredCalls us device := by
        simp [restoredCalls, h0]
      obtain ⟨watchdog, rfl⟩ : ∃ n, watchdog = n + 1 := ⟨watchdog - 1, by omega⟩
      have hblock := length_addPdduData u device (pdduPayloadLength device u) h0
      have hrest := ih (front ++ u.id :: pdduPayloadLength device u :: u.ser device) watchdog hfound
        hlens (by omega)
      rw [length_append, hblock] at hrest
      have hread : readAt (front ++ parts (u :: us) device ++ back) (front.length + 2)
          (u.getLen device).toNat = some (u.ser device) := by
        have := readAt_append (front ++ [u.id, pdduPayloadLength device u]) (u.ser device)
          (parts us device ++ back) (i := front.length + 2) (by simp) (u.length_ser device)
        simpa [hparts] using this
      have hframe : front ++ u.id :: pdduPayloadLength device u :: u.ser device ++
          parts us device ++ back = front ++ parts (u :: us) device ++ back := by
        simp [hparts]
      rw [hframe] at hrest
      have hid : (front ++ parts (u :: us) device ++ back)[front.length + typeOffsetInFrame]? =
          some u.id := by
        simp [hparts, typeOffsetInFrame]
      have hlenOctet : (front ++ parts (u :: us) device ++ back)[front.length + lenOffsetInFrame]? =
          some (pdduPayloadLength device u) := by
        simp [hparts, lenOffsetInFrame]
      unfold deserialisePddFrameFrom
      rw [if_pos (by omega), hid, hlenOctet]
      simp only [bind_eq_bind, bind_some, deserialisePddu, hu, payloadOffsetInFrame,
        sizeOfTypeAndLen, dataLength_pdduPayloadLength hlen h0, hread, toNat_pdduPayloadLength hlen]
      rw [← Nat.add_assoc, hrest, hcalls]
      rfl

theorem dataLength_le (len : UInt8) : (dataLength len).toNat ≤ 253 := by
  have h2 : (UInt8.ofNat sizeOfMetadata).toNat = 2 := rfl
  have := len.toNat_lt
  unfold dataLength sizeOfMetadata at *
  split
  · simp
  · rw [UInt8.toNat_sub, h2]
    omega

/-- No user is told that it has more than 253 octets. -/
theorem dataLength_of_deserialisePddFrameFrom {endOfPddFrame watchdog payload : ℕ}
    {calls : List DeserCall} {call : DeserCall}
    (h : deserialisePddFrameFrom r frame endOfPddFrame watchdog payload = some calls)
    (hcall : call ∈ calls) : call.dataLength.toNat ≤ 253 := by
  induction watchdog generalizing payload calls with
  | zero => cases h
  | succ watchdog ih =>
    unfold deserialisePddFrameFrom at h
    split at h
    · simp only [bind_eq_bind, bind_eq_some_iff, some.injEq] at h
      obtain ⟨id, _, len, _, first, hfirst, rest, hrest, rfl⟩ := h
      rcases mem_append.mp hcall with hcall | hcall
      · unfold deserialisePddu at hfirst
        split at hfirst
        · obtain ⟨buf, _, hfirst⟩ := bind_eq_some_iff.mp hfirst
          cases hfirst
          rw [mem_singleton.mp hcall]
          exact dataLength_le len
        · cases hfirst
          cases hcall
      · exact ih hrest hcall
    · cases h
      cases hcall

/-! ## The round trip -/

section

variable {list : DeviceList Device} {addr : Bdaddr}

theorem createPddFrame_eq (payloadLen : UInt8) :
    createPddFrame payloadLen.toUInt16 = [dbsPddFrameType, payloadLen + 2] ++
      List.replicate (psSizeAdj (payloadLen.toNat + 2) * 2 - 2) 0 := by
  have := payloadLen.toNat_lt
  have hlen : (payloadLen.toUInt16 + UInt16.ofNat sizeOfTypeAndLen).toNat =
      payloadLen.toNat + 2 := by
    have h2 : (UInt16.ofNat sizeOfTypeAndLen).toNat = 2 := rfl
    rw [UInt16.toNat_add, h2, UInt8.toNat_toUInt16]
    omega
  have htrunc : (payloadLen.toUInt16 + UInt16.ofNat sizeOfTypeAndLen).toUInt8 = payloadLen + 2 := by
    simp [sizeOfTypeAndLen]
  obtain ⟨n, hn⟩ : ∃ n, psSizeAdj (payloadLen.toNat + 2) * 2 = n + 2 :=
    ⟨psSizeAdj (payloadLen.toNat + 2) * 2 - 2, by unfold psSizeAdj; omega⟩
  simp only [createPddFrame, hlen, htrunc, hn]
  rfl

/-- The `uint8` sum of the lengths. -/
theorem toNat_sumAllPdduPayloads (hlens : ∀ u ∈ us, (u.getLen device).toNat ≤ 253) :
    (sumAllPdduPayloads (us.map (pdduPayloadLength device))).toUInt8.toNat =
      payloadLength us device % 256 := by
  have hfold : ∀ start : UInt8, ((us.map (pdduPayloadLength device)).foldl (· + ·) start).toNat =
      (start.toNat + payloadLength us device) % 256 := by
    induction us with
    | nil =>
      intro start
      have := start.toNat_lt
      simp [payloadLength]
    | cons u us ih =>
      obtain ⟨hlen, hlens⟩ := forall_mem_cons.mp hlens
      intro start
      rw [map_cons, foldl_cons, ih hlens, UInt8.toNat_add, toNat_pdduPayloadLength hlen,
        payloadLength_cons]
      omega
  have := hfold 0
  rw [UInt8.toNat_zero, Nat.zero_add] at this
  rw [← this]
  simp [sumAllPdduPayloads]

/-- What is stored for a device on the list that has an address. -/
theorem serialiseDevice_eq (hon : list.isDeviceOnList device = true)
    (haddr : list.bdaddr device = some addr) (h : users.length ≤ 255) :
    serialiseDevice list (registerAll users) device =
      let lengths := users.map (pdduPayloadLength device)
      let payloadLen := (sumAllPdduPayloads lengths).toUInt8
      if payloadLen = 0 then some none
      else (populatePddFrameFrom device (users.zip lengths) 0
        (createPddFrame payloadLen.toUInt16)).map fun pddFrame => some (addr, pddFrame) := by
  have hpddus := registerAll_pddus h
  simp only [serialiseDevice, hon, Bool.not_true, Bool.false_eq_true, if_false, haddr,
    getAllPddusPayloadLengths, populatePddFrame, hpddus, ne_eq, ite_not]
  by_cases hzero : (registerAll users).numRegisteredPddus = 0
  · have hnil : users = [] := by
      rw [← hpddus, Registry.pddus, hzero]
      rfl
    subst hnil
    simp [hzero, sumAllPdduPayloads]
  · rw [if_neg hzero]

theorem restoredCalls_eq_nil_iff :
    restoredCalls users device = [] ↔ ∀ u ∈ users, u.getLen device = 0 := by
  simp [restoredCalls, filter_eq_nil_iff]

theorem payloadLength_eq_zero (h : ∀ u ∈ users, u.getLen device = 0) :
    payloadLength users device = 0 := by
  rw [payloadLength, sum_eq_zero_iff]
  intro n hn
  obtain ⟨u, hu, rfl⟩ := List.mem_map.mp hn
  simp [partLength, h u hu]

/-- Users that need 253 octets or fewer get their data back. -/
theorem restores_of_payloadLength_le (hids : (users.map (·.id)).Nodup)
    (hon : list.isDeviceOnList device = true) (haddr : list.bdaddr device = some addr)
    (h : users.length ≤ 255) (hfit : payloadLength users device ≤ 253) :
    Restores list users device := by
  have hlens : ∀ u ∈ users, (u.getLen device).toNat ≤ 253 := by
    intro u hu
    have := partLength_le device hu
    by_cases h0 : u.getLen device = 0
    · simp [h0]
    · rw [partLength, if_neg h0] at this
      omega
  have hsum := toNat_sumAllPdduPayloads hlens
  rw [Nat.mod_eq_of_lt (by omega)] at hsum
  unfold Restores
  rw [serialiseDevice_eq hon haddr h]
  simp only
  generalize (sumAllPdduPayloads (users.map (pdduPayloadLength device))).toUInt8 = payloadLen
    at hsum ⊢
  by_cases hzero : payloadLen = 0
  · rw [if_pos hzero]
    refine ⟨none, rfl, restoredCalls_eq_nil_iff.mpr fun u hu => ?_⟩
    rw [hzero, UInt8.toNat_zero] at hsum
    have := partLength_le device hu
    by_contra h0
    rw [partLength, if_neg h0, sizeOfTypeAndLen] at this
    omega
  · rw [if_neg hzero, createPddFrame_eq]
    have hspace : payloadLength users device ≤ psSizeAdj (payloadLen.toNat + 2) * 2 - 2 := by
      rw [hsum, psSizeAdj]
      omega
    have hframe := populatePddFrameFrom_parts [dbsPddFrameType, payloadLen + 2] []
      (List.replicate (psSizeAdj (payloadLen.toNat + 2) * 2 - 2) 0) 0 rfl rfl
      (by simpa using hfit) (by rwa [length_replicate])
    rw [append_nil] at hframe
    rw [hframe]
    refine ⟨_, rfl, ?_⟩
    have hend : (payloadLen + 2).toNat = 2 + payloadLength users device := by
      have h2 : (2 : UInt8).toNat = 2 := rfl
      rw [UInt8.toNat_add, h2, hsum]
      omega
    have := deserialisePddFrameFrom_parts users [dbsPddFrameType, payloadLen + 2]
      ((List.replicate (psSizeAdj (payloadLen.toNat + 2) * 2 - 2) 0).drop
        (payloadLength users device)) 255
      (fun u hu => getRegisteredPddu_registerAll hids h hu) hlens (by omega)
    simp only [deserialisePddFrame, lenOffsetInFrame, cons_append, getElem?_cons_succ,
      getElem?_cons_zero, bind_eq_bind, bind_some, hend]
    exact this

/-- Users that need 254 octets or more do not get their data back. -/
theorem not_restores (hon : list.isDeviceOnList device = true)
    (haddr : list.bdaddr device = some addr) (h : users.length ≤ 255)
    (hover : 254 ≤ payloadLength users device) : ¬Restores list users device := by
  rintro ⟨stored, hstored, hcalls⟩
  by_cases hlens : ∀ u ∈ users, (u.getLen device).toNat ≤ 253
  · have hne : restoredCalls users device ≠ [] := by
      intro hnil
      have := payloadLength_eq_zero (restoredCalls_eq_nil_iff.mp hnil)
      omega
    rw [serialiseDevice_eq hon haddr h] at hstored
    simp only at hstored
    have hsum := toNat_sumAllPdduPayloads hlens
    generalize (sumAllPdduPayloads (users.map (pdduPayloadLength device))).toUInt8 = payloadLen
      at hstored hsum
    split at hstored
    · cases hstored
      exact hne hcalls
    · obtain ⟨frame, hframe, rfl⟩ := map_eq_some_iff.mp hstored
      by_cases hsmall : payloadLen.toNat ≤ 253
      · rw [populatePddFrameFrom_fault ?_ hlens (by simp; omega)] at hframe
        · cases hframe
        · rw [createPddFrame_eq, length_append, length_replicate, psSizeAdj,
            length_cons, length_singleton]
          omega
      · -- the frame's length wraps to an offset in front of the payload
        have htake := take_of_populatePddFrameFrom hframe
        rw [createPddFrame_eq] at htake
        have hlen : frame[lenOffsetInFrame]? = some (payloadLen + 2) := by
          have := congrArg (·[lenOffsetInFrame]?) htake
          simpa [payloadOffsetInFrame, sizeOfTypeAndLen, lenOffsetInFrame, getElem?_take]
            using this
        have hend : ¬payloadOffsetInFrame < (payloadLen + 2).toNat := by
          have h2 : (2 : UInt8).toNat = 2 := rfl
          have := payloadLen.toNat_lt
          rw [UInt8.toNat_add, h2, payloadOffsetInFrame, sizeOfTypeAndLen]
          omega
        have hnocall : deserialisePddFrameFrom (registerAll users) frame (payloadLen + 2).toNat
            (254 + 1) payloadOffsetInFrame = some [] := by
          rw [deserialisePddFrameFrom, if_neg hend]
        simp only [deserialisePddFrame, hlen, bind_eq_bind, bind_some] at hcalls
        exact hne (some.inj (hcalls.symm.trans hnocall))
  · -- a user with more data than one part can hold
    obtain ⟨u, hu, hlong⟩ : ∃ u ∈ users, 254 ≤ (u.getLen device).toNat := by
      push Not at hlens
      exact hlens
    have hmem : u.restored device ∈ restoredCalls users device := by
      refine List.mem_map_of_mem (mem_filter.mpr ⟨hu, ?_⟩)
      simp only [ne_eq, decide_eq_true_eq]
      intro h0
      rw [h0] at hlong
      cases hlong
    rcases stored with _ | ⟨_, frame⟩
    · rw [show restoredCalls users device = [] from hcalls] at hmem
      cases hmem
    · obtain ⟨_, _, hcalls⟩ := bind_eq_some_iff.mp hcalls
      have := dataLength_of_deserialisePddFrameFrom hcalls hmem
      exact absurd this (by simp only [Pddu.restored]; omega)

/-- **A frame restores its users** iff they need at most 253 octets, or none of them has data. -/
theorem restores_iff {addr : Bdaddr} (hids : (users.map (·.id)).Nodup)
    (hon : list.isDeviceOnList device = true) (haddr : list.bdaddr device = some addr) :
    Restores list users device ↔ (∀ u ∈ users, u.getLen device = 0) ∨
      users.length ≤ 255 ∧ payloadLength users device ≤ 253 := by
  by_cases h : users.length ≤ 255
  · by_cases hfit : payloadLength users device ≤ 253
    · exact iff_of_true (restores_of_payloadLength_le hids hon haddr h hfit) (.inr ⟨h, hfit⟩)
    · refine iff_of_false (not_restores hon haddr h (by omega)) ?_
      rintro (hzero | ⟨_, hle⟩)
      · rw [payloadLength_eq_zero hzero] at hfit
        omega
      · exact hfit hle
  · -- 256 users are counted as none
    obtain hlen : users.length = 256 := by
      have := length_le_of_nodup hids
      omega
    have hnone : serialiseDevice list (registerAll users) device = some none := by
      rw [registerAll_eq (Nat.le_of_eq hlen), hlen]
      simp [serialiseDevice, hon]
    simp only [Restores, hnone, Option.some.injEq, exists_eq_left', restoredCalls_eq_nil_iff, h,
      false_and, or_false]

end

/-! ## A device whose users have data of a fixed length -/

/-- A user with `len` octets of one value. -/
def constantUser (id len : UInt8) : Pddu Unit :=
  ⟨id, fun _ => len, fun _ => List.replicate len.toNat 7, fun _ => length_replicate⟩

/-- The only device, with an address. -/
def singleDevice : DeviceList Unit := ⟨fun _ => true, fun _ => some ⟨1, 2, 3⟩⟩

theorem restores_iff_two : Restores singleDevice [constantUser 1 3, constantUser 2 0] () :=
  (restores_iff (by decide) rfl rfl).mpr (.inr (by decide))

/-- The data of a user with 252 octets is lost: the length of its frame wraps to zero. -/
theorem not_restores_252 : ¬Restores singleDevice [constantUser 1 252] () :=
  not_restores rfl rfl (by decide) (by decide)

end Mh40.DeviceDb
