import Mathlib.Data.List.Dedup

/-!
# The slots of the device list

Model of `device_list.c`: a fixed number of slots, each with a device or empty.

* `Slot`: a `device_t`, where `none` is `NULL`. `DeviceTable`: `device_list` after its allocation,
  with `trusted_device_list` slots.
* `fill_cases`, `erase_cases`: everything that an add and a remove can do.
-/

namespace Mh40.DeviceList

open List Option

variable {δ : Type} [DecidableEq δ] {d : δ} {device : Option δ} {slots pre post : List (Option δ)}
  {i : ℕ} {b : UInt8}

/-- `device_t`. -/
abbrev Slot (δ : Type) := Option δ

structure DeviceTable (δ : Type) where
  slots : List (Slot δ)
  size_le : slots.length ≤ 255

/-! ## Functions -/

/-- `DeviceList_Init`. -/
def deviceListInit (numDevices : UInt8) : DeviceTable δ :=
  ⟨List.replicate numDevices.toNat none, by
    rw [length_replicate]
    exact Nat.le_of_lt_succ numDevices.toNat_lt⟩

/-- `DeviceList_GetNumOfDevices`. -/
def getNumOfDevices (s : DeviceTable δ) : ℕ :=
  s.slots.foldl (fun count slot => if slot.isSome then count + 1 else count) 0

/-- The loop of `DeviceList_AddDevice`. -/
def fill : List (Slot δ) → Slot δ → Bool × List (Slot δ)
  | [], _ => (false, [])
  | slot :: slots, device =>
    if slot = none then (true, device :: slots)
    else if slot = device then (false, slot :: slots)
    else ((fill slots device).1, slot :: (fill slots device).2)

/-- The loop of `DeviceList_RemoveDevice`. -/
def erase : List (Slot δ) → Slot δ → List (Slot δ)
  | [], _ => []
  | slot :: slots, device => if slot = device then none :: slots else slot :: erase slots device

theorem length_fill : ∀ slots : List (Slot δ), (fill slots device).2.length = slots.length
  | [] => rfl
  | slot :: slots => by
    unfold fill
    split
    · rfl
    · split
      · rfl
      · rw [length_cons, length_cons, length_fill slots]

theorem length_erase : ∀ slots : List (Slot δ), (erase slots device).length = slots.length
  | [] => rfl
  | slot :: slots => by
    unfold erase
    split
    · rfl
    · rw [length_cons, length_cons, length_erase slots]

/-- `DeviceList_AddDevice`. -/
def addDevice (s : DeviceTable δ) (device : Slot δ) : Bool × DeviceTable δ :=
  ((fill s.slots device).1, ⟨(fill s.slots device).2, by rw [length_fill]; exact s.size_le⟩)

/-- `DeviceList_RemoveDevice`. -/
def removeDevice (s : DeviceTable δ) (device : Slot δ) : DeviceTable δ :=
  ⟨erase s.slots device, by rw [length_erase]; exact s.size_le⟩

/-- `DeviceList_IsDeviceOnList`. -/
def isDeviceOnList (s : DeviceTable δ) (device : Slot δ) : Bool :=
  if device = none then false else s.slots.any (· = device)

/-- The loop of `DeviceList_GetIndexOfDevice`, with an 8-bit index. -/
def indexFrom (device : Slot δ) : UInt8 → List (Slot δ) → UInt8
  | _, [] => 0xFF
  | i, slot :: slots => if slot = device then i else indexFrom device (i + 1) slots

/-- `DeviceList_GetIndexOfDevice`. -/
def getIndexOfDevice (s : DeviceTable δ) (device : Slot δ) : UInt8 :=
  if device = none then 0xFF else indexFrom device 0 s.slots

/-- `DeviceList_GetDeviceAtIndex`. -/
def getDeviceAtIndex (s : DeviceTable δ) (index : UInt8) : Slot δ :=
  if index.toNat < s.slots.length then (s.slots[index.toNat]?).getD none else none

/-! ## What the loops do -/

/-- The devices, slot after slot. -/
def devices (slots : List (Slot δ)) : List δ := slots.filterMap id

omit [DecidableEq δ] in
theorem mem_devices : d ∈ devices slots ↔ some d ∈ slots := by
  rw [devices, mem_filterMap]
  exact ⟨fun ⟨_, h, hd⟩ => hd ▸ h, fun h => ⟨some d, h, rfl⟩⟩

omit [DecidableEq δ] in
theorem devices_append : devices (pre ++ post) = devices pre ++ devices post :=
  filterMap_append

omit [DecidableEq δ] in
theorem devices_empty : devices (pre ++ none :: post) = devices pre ++ devices post :=
  devices_append

omit [DecidableEq δ] in
theorem devices_filled : devices (pre ++ some d :: post) = devices pre ++ d :: devices post :=
  devices_append

omit [DecidableEq δ] in
theorem getNumOfDevices_eq (s : DeviceTable δ) : getNumOfDevices s = (devices s.slots).length := by
  have hcount : ∀ (slots : List (Slot δ)) (n : ℕ),
      slots.foldl (fun count slot => if slot.isSome then count + 1 else count) n =
        n + (devices slots).length := by
    intro slots
    induction slots with
    | nil => exact fun _ => rfl
    | cons slot slots ih =>
      intro n
      rw [foldl_cons, ih]
      cases slot with
      | none => rfl
      | some d =>
        have hlen : (devices (some d :: slots)).length = (devices slots).length + 1 := rfl
        rw [if_pos isSome_some, hlen]
        omega
  rw [getNumOfDevices, hcount, Nat.zero_add]

/-- **An add** takes the first empty slot, or stops at the device in front of any, or finds
neither. -/
theorem fill_cases (device : Slot δ) : ∀ slots : List (Slot δ),
    (∃ pre post, slots = pre ++ none :: post ∧ none ∉ pre ∧ device ∉ pre ∧
      fill slots device = (true, pre ++ device :: post)) ∨
    (∃ pre d post, device = some d ∧ slots = pre ++ some d :: post ∧ none ∉ pre ∧ device ∉ pre ∧
      fill slots device = (false, slots)) ∨
    none ∉ slots ∧ device ∉ slots ∧ fill slots device = (false, slots)
  | [] => .inr (.inr ⟨not_mem_nil, not_mem_nil, rfl⟩)
  | none :: slots => .inl ⟨[], slots, rfl, not_mem_nil, not_mem_nil, rfl⟩
  | some x :: slots => by
    by_cases hx : some x = device
    · refine .inr (.inl ⟨[], x, slots, hx.symm, rfl, not_mem_nil,
        not_mem_nil, ?_⟩)
      rw [fill, if_neg (some_ne_none x), if_pos hx]
    have hstep : fill (some x :: slots) device =
        ((fill slots device).1, some x :: (fill slots device).2) := by
      rw [fill, if_neg (some_ne_none x), if_neg hx]
    have hnone : ∀ {l : List (Slot δ)}, none ∉ l → none ∉ some x :: l := fun h hmem =>
      h ((mem_cons.mp hmem).resolve_left fun h => some_ne_none x h.symm)
    have hdevice : ∀ {l : List (Slot δ)}, device ∉ l → device ∉ some x :: l := fun h hmem =>
      h ((mem_cons.mp hmem).resolve_left fun h => hx h.symm)
    obtain ⟨pre, post, rfl, h1, h2, hfill⟩ | ⟨pre, d, post, hd, rfl, h1, h2, hfill⟩ |
      ⟨h1, h2, hfill⟩ := fill_cases device slots
    · refine .inl ⟨some x :: pre, post, rfl, hnone h1, hdevice h2, ?_⟩
      rw [hstep, hfill]
      rfl
    · refine .inr (.inl ⟨some x :: pre, d, post, hd, rfl, hnone h1, hdevice h2, ?_⟩)
      rw [hstep, hfill]
    · refine .inr (.inr ⟨hnone h1, hdevice h2, ?_⟩)
      rw [hstep, hfill]

theorem isDeviceOnList_iff {s : DeviceTable δ} : isDeviceOnList s (some d) = true ↔
    d ∈ devices s.slots := by
  rw [isDeviceOnList, if_neg (some_ne_none d), List.any_eq_true, mem_devices]
  simp only [decide_eq_true_eq, exists_eq_right]

/-- **A remove** empties the first slot of the device. -/
theorem erase_cases (device : Slot δ) : ∀ slots : List (Slot δ),
    (∃ pre post, slots = pre ++ device :: post ∧ erase slots device = pre ++ none :: post) ∨
      device ∉ slots ∧ erase slots device = slots
  | [] => .inr ⟨not_mem_nil, rfl⟩
  | slot :: slots => by
    rw [erase]
    by_cases hslot : slot = device
    · obtain rfl := hslot
      exact .inl ⟨[], slots, rfl, if_pos rfl⟩
    rw [if_neg hslot]
    obtain ⟨pre, post, rfl, herase⟩ | ⟨hmem, herase⟩ := erase_cases device slots
    · exact .inl ⟨slot :: pre, post, rfl, by rw [herase]; rfl⟩
    · refine .inr ⟨fun h => ?_, by rw [herase]⟩
      exact (mem_cons.mp h).elim (fun h => hslot h.symm) hmem

/-- An index that is found is the one of the slot, and 255 means that there is none. -/
theorem indexFrom_cases (device : Slot δ) : ∀ (slots : List (Slot δ)) (b : UInt8),
    b.toNat + slots.length ≤ 255 →
      (∃ i, slots[i]? = some device ∧ (indexFrom device b slots).toNat = b.toNat + i) ∨
        device ∉ slots ∧ indexFrom device b slots = 0xFF
  | [], _, _ => .inr ⟨not_mem_nil, rfl⟩
  | slot :: slots, b, hle => by
    rw [length_cons] at hle
    rw [indexFrom]
    by_cases hslot : slot = device
    · obtain rfl := hslot
      exact .inl ⟨0, rfl, by rw [if_pos rfl]; rfl⟩
    have hnext : (b + 1).toNat = b.toNat + 1 := by
      rw [UInt8.toNat_add]
      exact Nat.mod_eq_of_lt (by have : (1 : UInt8).toNat = 1 := rfl; omega)
    rw [if_neg hslot]
    obtain ⟨i, hi, hindex⟩ | ⟨hmem, hindex⟩ :=
      indexFrom_cases device slots (b + 1) (by rw [hnext]; omega)
    · refine .inl ⟨i + 1, hi, ?_⟩
      rw [hindex, hnext]
      omega
    · refine .inr ⟨fun h => ?_, hindex⟩
      exact (mem_cons.mp h).elim (fun h => hslot h.symm) hmem

end Mh40.DeviceList
