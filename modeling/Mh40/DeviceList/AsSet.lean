import Mh40.DeviceList.Slots
import Mh40.Lib.Run

/-!
# The device list as a set

An add stops at the first empty slot, so it does not see a device in a slot behind it.

* `IsSet`: no device has two slots, and the count and the indices are those of a set.
* `Answers`: what an add and a remove tell and leave.
* **`set_throughout_iff_permits`**: a run from the initial list is right exactly when no device is
  added again while there is an empty slot in front of its own.
-/

namespace Mh40.DeviceList

open Lib List Option

variable {δ : Type} [DecidableEq δ] {d : δ} {device : Option δ} {s s' : DeviceTable δ}
  {slots pre post : List (Option δ)}

/-! ## Statement -/

structure IsSet (s : DeviceTable δ) : Prop where
  distinct : ∀ (i j : ℕ) d, s.slots[i]? = some (some d) → s.slots[j]? = some (some d) → i = j
  count : getNumOfDevices s = (devices s.slots).dedup.length
  device : ∀ d, isDeviceOnList s (some d) = true →
    getDeviceAtIndex s (getIndexOfDevice s (some d)) = some d
  index : ∀ b d, getDeviceAtIndex s b = some d → getIndexOfDevice s (some d) = b

inductive DeviceListCall (δ : Type) where
  | add (device : Slot δ)
  | remove (device : Slot δ)
  deriving DecidableEq

/-- The list after a call. -/
def deviceListStep (s : DeviceTable δ) : DeviceListCall δ → Option (DeviceTable δ)
  | .add device => some (addDevice s device).2
  | .remove device => some (removeDevice s device)

def Answers (s : DeviceTable δ) : DeviceListCall δ → Prop
  | .add device =>
    (addDevice s device).1 = true ↔ isDeviceOnList s device = false ∧ none ∈ s.slots
  | .remove device => isDeviceOnList (removeDevice s device) device = false

/-- There is no empty slot in front of a device that is added again. -/
def Permits (s : DeviceTable δ) : DeviceListCall δ → Prop
  | .add (some d) => some d ∈ s.slots → none ∉ s.slots.takeWhile (· ≠ some d)
  | .add none => True
  | .remove _ => True

/-! ## Sets -/

omit [DecidableEq δ] in
theorem nodup_iff_distinct : (devices slots).Nodup ↔
    ∀ (i j : ℕ) d, slots[i]? = some (some d) → slots[j]? = some (some d) → i = j := by
  rw [List.Nodup, devices, pairwise_filterMap, pairwise_iff_getElem]
  constructor
  · intro h i j d hi hj
    obtain ⟨hi, hid⟩ := List.getElem?_eq_some_iff.mp hi
    obtain ⟨hj, hjd⟩ := List.getElem?_eq_some_iff.mp hj
    refine Nat.le_antisymm (Nat.not_lt.mp fun hlt => ?_) (Nat.not_lt.mp fun hlt => ?_)
    · exact h j i hj hi hlt d hjd d hid rfl
    · exact h i j hi hj hlt d hid d hjd rfl
  · rintro h i j hi hj hlt d hid _ hjd rfl
    refine absurd (h i j d ?_ ?_) (Nat.ne_of_lt hlt)
    · rw [getElem?_eq_getElem hi]
      exact congrArg some hid
    · rw [getElem?_eq_getElem hj]
      exact congrArg some hjd

omit [DecidableEq δ] in
theorem getDeviceAtIndex_iff {b : UInt8} :
    getDeviceAtIndex s b = some d ↔ s.slots[b.toNat]? = some (some d) := by
  unfold getDeviceAtIndex
  by_cases h : b.toNat < s.slots.length
  · rw [if_pos h, getElem?_eq_getElem h, getD_some, some.injEq]
  · rw [if_neg h, getElem?_eq_none (Nat.not_lt.mp h)]
    exact iff_of_false (some_ne_none d).symm (some_ne_none _).symm

/-- The index of a device that is on the list is the one of a slot that it has. -/
theorem getElem?_getIndexOfDevice (h : d ∈ devices s.slots) :
    s.slots[(getIndexOfDevice s (some d)).toNat]? = some (some d) := by
  rw [getIndexOfDevice, if_neg (some_ne_none d)]
  obtain ⟨i, hi, hindex⟩ | ⟨hmem, -⟩ := indexFrom_cases (some d) s.slots 0 (by
    have := s.size_le
    have h0 : (0 : UInt8).toNat = 0 := rfl
    omega)
  · have h0 : (0 : UInt8).toNat = 0 := rfl
    rw [hindex, h0, Nat.zero_add, hi]
  · exact absurd (mem_devices.mp h) hmem

theorem isSet_iff_nodup : IsSet s ↔ (devices s.slots).Nodup := by
  refine ⟨fun h => nodup_iff_distinct.mpr h.distinct, fun h => ?_⟩
  have hdistinct := nodup_iff_distinct.mp h
  refine ⟨hdistinct, ?_, fun d hd => ?_, fun b d hb => ?_⟩
  · rw [getNumOfDevices_eq, dedup_eq_self.mpr h]
  · exact getDeviceAtIndex_iff.mpr (getElem?_getIndexOfDevice (isDeviceOnList_iff.mp hd))
  · have hb := getDeviceAtIndex_iff.mp hb
    have hmem : d ∈ devices s.slots := mem_devices.mpr (mem_of_getElem? hb)
    exact UInt8.toNat_inj.mp (hdistinct _ _ d (getElem?_getIndexOfDevice hmem) hb)

/-! ## Calls -/

theorem takeWhile_of_notMem (h : device ∉ pre) :
    (pre ++ slots).takeWhile (· ≠ device) = pre ++ slots.takeWhile (· ≠ device) :=
  takeWhile_append_of_pos fun _ hx => decide_eq_true fun hxd => h (hxd ▸ hx)

/-- An add to a set leaves a set exactly when it is permitted. -/
theorem nodup_fill_iff (h : (devices s.slots).Nodup) :
    (devices (fill s.slots device).2).Nodup ↔ Permits s (.add device) := by
  cases device with
  | none =>
    refine iff_of_true ?_ trivial
    obtain ⟨pre, post, hslots, -, -, hfill⟩ | ⟨_, _, _, hd, -⟩ | ⟨-, -, hfill⟩ :=
      fill_cases none s.slots
    · rw [hfill, ← hslots]
      exact h
    · cases hd
    · rw [hfill]
      exact h
  | some d =>
    rw [Permits]
    obtain ⟨pre, post, hslots, -, hmem, hfill⟩ | ⟨pre, x, post, hx, hslots, hnone, hmem, hfill⟩ |
      ⟨-, hmem, hfill⟩ := fill_cases (some d) s.slots
    · have hdevices : devices s.slots = devices pre ++ devices post := by
        rw [hslots, devices_empty]
      have htake : none ∈ s.slots.takeWhile (· ≠ some d) := by
        rw [hslots, takeWhile_of_notMem hmem,
          takeWhile_cons_of_pos (by simp)]
        exact mem_append_right _ mem_cons_self
      rw [hfill, devices_filled, nodup_middle, nodup_cons, ← hdevices, and_iff_left h,
        mem_devices]
      exact ⟨fun hnot hd => absurd hd hnot, fun hperm hd => hperm hd htake⟩
    · obtain rfl := some.inj hx
      refine iff_of_true ?_ fun _ => ?_
      · rw [hfill]
        exact h
      · rw [hslots, takeWhile_of_notMem hmem, takeWhile_cons_of_neg (by simp),
          append_nil]
        exact hnone
    · refine iff_of_true ?_ fun hd => absurd hd hmem
      rw [hfill]
      exact h

/-- A remove leaves a set, without the device. -/
theorem nodup_erase (h : (devices slots).Nodup) :
    (devices (erase slots device)).Nodup ∧ ∀ d, device = some d →
      d ∉ devices (erase slots device) := by
  obtain ⟨pre, post, rfl, herase⟩ | ⟨hmem, herase⟩ := erase_cases device slots
  · rw [herase, devices_empty]
    cases device with
    | none => exact ⟨devices_empty ▸ h, fun _ hd => absurd hd (some_ne_none _).symm⟩
    | some d =>
      rw [devices_filled, nodup_middle, nodup_cons] at h
      exact ⟨h.2, fun _ hd => some.inj hd ▸ h.1⟩
  · rw [herase]
    exact ⟨h, fun d hd => fun hmem' => hmem (hd ▸ mem_devices.mp hmem')⟩

theorem isSet_step {call : DeviceListCall δ} (h : IsSet s)
    (hstep : deviceListStep s call = some s') : Permits s call ↔ IsSet s' := by
  rw [isSet_iff_nodup] at h ⊢
  cases call with
  | add device =>
    obtain rfl := some.inj hstep
    exact (nodup_fill_iff h).symm
  | remove device =>
    obtain rfl := some.inj hstep
    exact iff_of_true trivial (nodup_erase h).1

theorem answers_of_permits {call : DeviceListCall δ} (h : IsSet s) (hpermits : Permits s call) :
    Answers s call := by
  cases call with
  | add device =>
    have hleft := (nodup_fill_iff (isSet_iff_nodup.mp h)).mpr hpermits
    have hadded : (addDevice s device).1 = (fill s.slots device).1 := rfl
    rw [Answers, hadded]
    obtain ⟨pre, post, hslots, -, hmem, hfill⟩ | ⟨pre, d, post, rfl, hslots, -, -, hfill⟩ |
      ⟨hnone, -, hfill⟩ := fill_cases device s.slots
    · refine iff_of_true (by rw [hfill]) ⟨?_, hslots ▸ mem_append_right _ mem_cons_self⟩
      cases device with
      | none => rfl
      | some d =>
        rw [hfill, devices_filled, nodup_middle, nodup_cons] at hleft
        rw [← Bool.not_eq_true, isDeviceOnList_iff, hslots, devices_empty]
        exact hleft.1
    · rw [hfill]
      refine iff_of_false Bool.false_ne_true fun hadd => ?_
      have hon : isDeviceOnList s (some d) = true := by
        rw [isDeviceOnList_iff, hslots, mem_devices]
        exact mem_append_right _ mem_cons_self
      exact Bool.false_ne_true (hadd.1.symm.trans hon)
    · rw [hfill]
      exact iff_of_false Bool.false_ne_true fun hadd => hnone hadd.2
  | remove device =>
    cases device with
    | none => rfl
    | some d =>
      rw [Answers, ← Bool.not_eq_true, isDeviceOnList_iff]
      exact (nodup_erase (isSet_iff_nodup.mp h)).2 d rfl

/-! ## Runs -/

theorem exists_run (calls : List (DeviceListCall δ)) :
    ∀ s : DeviceTable δ, ∃ s', run deviceListStep s calls = some s' := by
  induction calls with
  | nil => exact fun s => ⟨s, rfl⟩
  | cons call calls ih =>
    intro s
    obtain ⟨t, ht⟩ : ∃ t, deviceListStep s call = some t := by cases call <;> exact ⟨_, rfl⟩
    obtain ⟨s', hs'⟩ := ih t
    exact ⟨s', run_cons.mpr ⟨t, ht, hs'⟩⟩

theorem isSet_init (numDevices : UInt8) : IsSet (deviceListInit numDevices : DeviceTable δ) := by
  rw [isSet_iff_nodup, deviceListInit]
  have hnone : devices (List.replicate numDevices.toNat (none : Slot δ)) = [] := by
    refine eq_nil_iff_forall_not_mem.mpr fun d hd => ?_
    exact some_ne_none d (eq_of_mem_replicate (mem_devices.mp hd))
  rw [hnone]
  exact nodup_nil

/-- **The device list is a set, and the calls answer as one**, exactly in the runs that add no
device behind an empty slot. -/
theorem set_throughout_iff_permits (numDevices : UInt8) (calls : List (DeviceListCall δ)) :
    Throughout deviceListStep IsSet (deviceListInit numDevices) calls ∧
      Meets deviceListStep Answers (deviceListInit numDevices) calls ↔
        Meets deviceListStep Permits (deviceListInit numDevices : DeviceTable δ) calls := by
  obtain ⟨s', hrun⟩ := exists_run calls (deviceListInit numDevices : DeviceTable δ)
  have hinit : IsSet (deviceListInit numDevices : DeviceTable δ) := isSet_init numDevices
  have hset : Throughout deviceListStep IsSet (deviceListInit numDevices : DeviceTable δ) calls ↔
      Meets deviceListStep Permits (deviceListInit numDevices) calls :=
    throughout_iff_meets_of_good (fun _ (h : IsSet _) => h)
      (fun _ _ _ h hC ht => (isSet_step h ht).mp hC)
      (fun _ _ _ h ht hP => (isSet_step h ht).mpr hP) hinit hrun
  have hanswers : ∀ (s : DeviceTable δ) call, IsSet s → Permits s call → Answers s call ∧
      ∀ s', deviceListStep s call = some s' → IsSet s' := fun s call h hpermits =>
    ⟨answers_of_permits h hpermits, fun s' ht => (isSet_step h ht).mp hpermits⟩
  rw [hset]
  exact ⟨fun h => h.1, fun h => ⟨h, meets_of_meets hanswers hinit h⟩⟩

/-- Two devices are added, the first is removed, and the second is added again: it has both
slots. -/
theorem not_set_throughout : ¬ ∀ (numDevices : UInt8) (calls : List (DeviceListCall ℕ)),
    Throughout deviceListStep IsSet (deviceListInit numDevices : DeviceTable ℕ) calls ∧
      Meets deviceListStep Answers (deviceListInit numDevices) calls := by
  intro h
  have hset := (h 2 [.add (some 1), .add (some 2), .remove (some 1), .add (some 2)]).1
    _ ⟨[some 2, some 2], by decide⟩ (List.prefix_refl _) rfl
  exact absurd (hset.distinct 0 1 2 rfl rfl) Nat.zero_ne_one

end Mh40.DeviceList
