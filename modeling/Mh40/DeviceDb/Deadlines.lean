import Mh40.DeviceDb.Later

/-!
# The deadlines of a delayed serialisation

The one message of a device is due at the earliest of the strict deadlines that are outstanding, or,
without any, at the latest of the lazy ones.

* `Honours`: the message is the right one for the requests.
* `honours_later`: a call keeps this, when it leaves a message behind.
* **`kept_of_schedules`**: deadlines are kept over every run of such calls.
* `not_kept_zero`: a delay of 0.
-/

namespace Mh40.DeviceDb.Later

open Lib VmMessage List Option Function

variable {queue : List AppMessage} {now due : ℤ} {device other : Device} {delay : BitVec 32}
  {id : ℕ} {s s' : State} {rs : List Request} {r : Request} {a : AppMessage}

/-! ## The messages of a device -/

theorem belongs_lazy (device : Device) : Belongs device (idLazy device) := .inl rfl

theorem belongs_strict (device : Device) : Belongs device (idStrict device) := .inr rfl

/-- An id belongs to one device. -/
theorem Belongs.unique (h : Belongs device id) (h' : Belongs other id) : device = other := by
  have hlt := device.isLt
  have hlt' := other.isLt
  unfold Belongs idLazy idStrict delayedSerialiseStrictMessageOffset at h h'
  exact Fin.ext (by omega)

theorem idLazy_ne_idStrict (device : Device) : idLazy device ≠ idStrict device := by
  unfold idLazy idStrict delayedSerialiseStrictMessageOffset
  omega

/-- The handler serialises the device that the id belongs to. -/
theorem Belongs.deviceOf (h : Belongs device id) : deviceOf id = device.val := by
  have hlt := device.isLt
  unfold Later.deviceOf
  unfold Belongs idLazy idStrict delayedSerialiseStrictMessageOffset at *
  split <;> omega

theorem mem_pendingFor :
    a ∈ pendingFor queue device ↔ a ∈ queue ∧ Belongs device a.id := by
  rw [pendingFor, mem_filter, decide_eq_true_iff]

theorem pendingFor_cons (h : Belongs device a.id) :
    pendingFor (a :: queue) device = a :: pendingFor queue device :=
  filter_cons_of_pos (decide_eq_true h)

theorem pendingFor_cons_of_ne (h : Belongs device a.id) (hne : other ≠ device) :
    pendingFor (a :: queue) other = pendingFor queue other :=
  filter_cons_of_neg fun hother => hne ((of_decide_eq_true hother).unique h)

section

variable (h : Belongs device id)
include h

/-- Messages of other devices are not seen. -/
theorem pendingFor_send_of_ne (hne : other ≠ device) :
    pendingFor (messageSendLater queue now id delay) other = pendingFor queue other :=
  filter_insert_of_neg fun hother => hne ((of_decide_eq_true hother).unique h)

theorem pendingFor_cancel_of_ne (hne : other ≠ device) :
    pendingFor (messageCancelFirst queue id) other = pendingFor queue other :=
  filter_cancelFirst_of_disjoint fun _ ha hother =>
    hne ((of_decide_eq_true hother).unique (ha ▸ h))

/-- A message of the device is cancelled among those of the device. -/
theorem pendingFor_cancel :
    pendingFor (messageCancelFirst queue id) device =
      messageCancelFirst (pendingFor queue device) id :=
  filter_cancelFirst fun _ ha => decide_eq_true (ha ▸ h)

theorem messagePendingFirst_pendingFor :
    messagePendingFirst queue now id = messagePendingFirst (pendingFor queue device) now id :=
  (messagePendingFirst_filter fun _ ha => decide_eq_true (ha ▸ h)).symm

end

/-- A message of the device that is sent stands among the pending ones of the device. -/
theorem pendingFor_insert (queue : List AppMessage) {b : AppMessage} (h : Belongs device b.id) :
    ∃ front back, pendingFor queue device = front ++ back ∧
      pendingFor (VmMessage.insert b queue) device = front ++ b :: back :=
  filter_insert_of_pos (decide_eq_true h)

/-- The message that is sent is the only one when there was none. -/
theorem pendingFor_send (h : Belongs device id) (hnil : pendingFor queue device = []) :
    pendingFor (messageSendLater queue now id delay) device = [⟨id, now + delay.toNat⟩] := by
  have hinsert : Belongs device (⟨id, now + delay.toNat⟩ : AppMessage).id := h
  obtain ⟨front, back, hqueue, hsent⟩ := pendingFor_insert queue hinsert
  obtain ⟨rfl, rfl⟩ := append_eq_nil_iff.mp (hqueue.symm.trans hnil)
  exact hsent

/-- A strict message takes the place of a lazy one. -/
theorem pendingFor_send_cancel (hpending : pendingFor queue device = [a])
    (ha : a.id = idLazy device) :
    pendingFor (messageCancelFirst (messageSendLater queue now (idStrict device) delay)
      (idLazy device)) device = [⟨idStrict device, now + delay.toNat⟩] := by
  have hne := idLazy_ne_idStrict device
  rw [pendingFor_cancel (belongs_lazy device)]
  have hinsert : Belongs device (⟨idStrict device, now + delay.toNat⟩ : AppMessage).id :=
    belongs_strict device
  obtain ⟨front, back, hqueue, hsent⟩ := pendingFor_insert queue hinsert
  unfold messageSendLater
  rw [hsent]
  rcases append_eq_singleton_iff.mp (hqueue.symm.trans hpending) with
    ⟨rfl, rfl⟩ | ⟨rfl, rfl⟩
  · simp [messageCancelFirst, ha, hne.symm]
  · simp [messageCancelFirst, ha]

/-! ## Delays -/

/-- The deadline of a strict request. -/
theorem toInt_neg_delay (hneg : delay.toInt < 0) (hmin : delay.toInt ≠ -2 ^ 31) :
    (-delay).toInt = -delay.toInt ∧ ((-delay).toNat : ℤ) = -delay.toInt := by
  have hlt := delay.isLt
  have hneg' := BitVec.toInt_eq_toNat_cond delay
  have hpos := BitVec.toInt_eq_toNat_cond (-delay)
  rw [BitVec.toNat_neg] at hpos ⊢
  split at hneg' <;> split at hpos <;> omega

/-- The deadline of a lazy request. -/
theorem toNat_delay (hpos : ¬delay.toInt < 0) : (delay.toNat : ℤ) = delay.toInt := by
  have hlt := delay.isLt
  have htoInt := BitVec.toInt_eq_toNat_cond delay
  split at htoInt <;> omega

theorem requestOf_strict (hneg : delay.toInt < 0) :
    requestOf now delay = ⟨true, now - delay.toInt⟩ := by
  unfold requestOf
  rw [decide_eq_true hneg, Int.ofNat_natAbs_of_nonpos hneg.le, sub_eq_add_neg]

theorem requestOf_lazy (hpos : ¬delay.toInt < 0) :
    requestOf now delay = ⟨false, now + delay.toInt⟩ := by
  unfold requestOf
  rw [decide_eq_false hpos, Int.natAbs_of_nonneg (Int.not_lt.mp hpos)]

/-! ## One call -/

/-- The deadlines of the strict requests. -/
def strictDeadlines (requests : List Request) : Set ℤ :=
  {t | ∃ r ∈ requests, r.strict ∧ r.deadline = t}

theorem deadlines_append (rs : List Request) (r : Request) :
    deadlines (rs ++ [r]) = insert r.deadline (deadlines rs) := by
  ext t
  unfold deadlines
  simp only [mem_append, mem_singleton, Set.mem_ofPred_eq, Set.mem_insert_iff]
  grind

theorem strictDeadlines_append_strict (rs : List Request) (hr : r.strict) :
    strictDeadlines (rs ++ [r]) = insert r.deadline (strictDeadlines rs) := by
  ext t
  unfold strictDeadlines
  simp only [mem_append, mem_singleton, Set.mem_ofPred_eq, Set.mem_insert_iff]
  grind

theorem strictDeadlines_append_lazy (rs : List Request) (hr : ¬r.strict) :
    strictDeadlines (rs ++ [r]) = strictDeadlines rs := by
  ext t
  unfold strictDeadlines
  simp only [mem_append, mem_singleton, Set.mem_ofPred_eq]
  grind

/-- The pending messages of a device are right for its requests. -/
inductive Honours (device : Device) (rs : List Request) : List AppMessage → Prop
  | none (hrs : rs = []) : Honours device rs []
  | strict (due : ℤ) (hdue : IsLeast (strictDeadlines rs) due) :
      Honours device rs [⟨idStrict device, due⟩]
  | lazy (due : ℤ) (hlazy : ∀ r ∈ rs, ¬r.strict) (hdue : IsGreatest (deadlines rs) due) :
      Honours device rs [⟨idLazy device, due⟩]

/-- The first strict request. -/
theorem Honours.of_strict (hr : r.strict) (hlazy : ∀ r ∈ rs, ¬r.strict) :
    Honours device (rs ++ [r]) [⟨idStrict device, r.deadline⟩] := by
  refine .strict _ ?_
  have hempty : strictDeadlines rs = ∅ :=
    Set.eq_empty_iff_forall_notMem.mpr fun t ⟨r, hmem, hstrict, _⟩ => hlazy r hmem hstrict
  rw [strictDeadlines_append_strict rs hr, hempty, insert_empty_eq]
  exact isLeast_singleton

/-- The first request, a lazy one. -/
theorem Honours.of_lazy (hr : ¬r.strict) :
    Honours device ([] ++ [r]) [⟨idLazy device, r.deadline⟩] := by
  refine .lazy _ (fun r' hr' => mem_singleton.mp hr' ▸ hr) ?_
  have hempty : deadlines [] = ∅ :=
    Set.eq_empty_iff_forall_notMem.mpr fun t ⟨r, hmem, _⟩ => (nomatch hmem)
  rw [deadlines_append, hempty, insert_empty_eq]
  exact isGreatest_singleton

/-- What a call finds pending. -/
theorem messagePendingFirst_singleton (a : AppMessage) :
    messagePendingFirst [a] now id = if a.id = id then some (vmDiff a.due now) else none := by
  unfold messagePendingFirst
  by_cases h : a.id = id <;> simp [h]

/-- **A call keeps the message right**, when it leaves one behind. -/
theorem honours_later (ho : Ordered queue now)
    (h : Honours device rs (pendingFor queue device))
    (hzero : delay = 0 → pendingFor queue device ≠ [])
    (hmax : delay.toInt = -int32Max → messagePendingFirst queue now (idStrict device) ≠ none)
    (hmin : delay.toInt ≠ -2 ^ 31) :
    Honours device (rs ++ [requestOf now delay])
      (pendingFor (serialiseDeviceLater queue now device delay) device) := by
  have hne := idLazy_ne_idStrict device
  have hrange : -2 ^ 31 ≤ delay.toInt := BitVec.le_toInt delay
  have hpending : ∀ id, Belongs device id → messagePendingFirst queue now id =
      messagePendingFirst (pendingFor queue device) now id :=
    fun _ hid => messagePendingFirst_pendingFor hid
  have hlazyPending := hpending _ (belongs_lazy device)
  have hstrictPending := hpending _ (belongs_strict device)
  have hdiff : ∀ a, pendingFor queue device = [a] → vmDiff a.due now = a.due - now := by
    intro a ha
    exact ho.vmDiff_eq (mem_pendingFor.mp (ha ▸ mem_singleton_self a)).1
  generalize hp : pendingFor queue device = as at h
  rw [hp] at hlazyPending hstrictPending hzero
  unfold serialiseDeviceLater
  cases h with
  | none hrs =>
    subst hrs
    rw [hlazyPending, hstrictPending]
    simp only [messagePendingFirst, find?_nil, map_none, getD_none,
      isSome_none, Bool.false_eq_true, if_false]
    by_cases hneg : delay.toInt < 0
    · obtain ⟨htoInt, htoNat⟩ := toInt_neg_delay hneg hmin
      have hlt : int32Max > (-delay).toInt := by
        have hnotMax : delay.toInt ≠ -int32Max := fun heq => hmax heq hstrictPending
        unfold int32Max at *
        omega
      rw [if_pos hneg, if_pos hlt, pendingFor_send (belongs_strict device) hp, htoNat,
        requestOf_strict hneg, ← sub_eq_add_neg]
      exact .of_strict rfl fun r hr => (nomatch hr)
    · have hpos : 0 < delay.toInt := by
        have hnonzero : delay.toInt ≠ 0 := fun heq => hzero (BitVec.toInt_inj.mp heq) rfl
        omega
      rw [if_neg hneg, if_pos hpos, pendingFor_send (belongs_lazy device) hp, toNat_delay hneg,
        requestOf_lazy hneg]
      exact .of_lazy Bool.false_ne_true
  | strict due hdue =>
    have hdue' := hdiff _ hp
    rw [messagePendingFirst_singleton, if_neg hne.symm] at hlazyPending
    rw [messagePendingFirst_singleton, if_pos rfl, hdue'] at hstrictPending
    rw [hlazyPending, hstrictPending]
    simp only [getD_none, getD_some, isSome_none, isSome_some,
      Bool.false_eq_true, if_false, if_true]
    by_cases hneg : delay.toInt < 0
    · obtain ⟨htoInt, htoNat⟩ := toInt_neg_delay hneg hmin
      have hleast : IsLeast (strictDeadlines (rs ++ [requestOf now delay]))
          (min (now - delay.toInt) due) := by
        rw [requestOf_strict hneg, strictDeadlines_append_strict rs rfl]
        exact hdue.insert _
      rw [if_pos hneg]
      by_cases hlt : due - now > (-delay).toInt
      · have hcancel : pendingFor (messageCancelFirst queue (idStrict device)) device = [] := by
          rw [pendingFor_cancel (belongs_strict device), hp]
          simp [messageCancelFirst]
        rw [if_pos hlt, pendingFor_send (belongs_strict device) hcancel, htoNat, ← sub_eq_add_neg]
        rw [min_eq_left (by omega)] at hleast
        exact .strict _ hleast
      · rw [if_neg hlt, hp]
        rw [min_eq_right (by omega)] at hleast
        exact .strict _ hleast
    · rw [if_neg hneg, hp]
      refine .strict _ ?_
      rwa [requestOf_lazy hneg, strictDeadlines_append_lazy rs Bool.false_ne_true]
  | lazy due hlazy hdue =>
    have hdue' := hdiff _ hp
    rw [messagePendingFirst_singleton, if_pos rfl, hdue'] at hlazyPending
    rw [messagePendingFirst_singleton, if_neg hne] at hstrictPending
    rw [hlazyPending, hstrictPending]
    simp only [getD_none, getD_some, isSome_none, isSome_some,
      Bool.false_eq_true, if_false, if_true]
    by_cases hneg : delay.toInt < 0
    · obtain ⟨htoInt, htoNat⟩ := toInt_neg_delay hneg hmin
      have hlt : int32Max > (-delay).toInt := by
        have hnotMax : delay.toInt ≠ -int32Max := fun heq => hmax heq hstrictPending
        unfold int32Max at *
        omega
      rw [if_pos hneg, if_pos hlt, pendingFor_send_cancel hp rfl, htoNat, requestOf_strict hneg,
        ← sub_eq_add_neg]
      exact .of_strict rfl hlazy
    · have hgreatest : IsGreatest (deadlines (rs ++ [requestOf now delay]))
          (max (now + delay.toInt) due) := by
        rw [requestOf_lazy hneg, deadlines_append]
        exact hdue.insert _
      have hlazy' : ∀ r ∈ rs ++ [requestOf now delay], ¬r.strict := by
        refine forall_mem_append.mpr ⟨hlazy, fun r hr => ?_⟩
        rw [mem_singleton.mp hr, requestOf_lazy hneg]
        exact Bool.false_ne_true
      rw [if_neg hneg]
      by_cases hlt : due - now < delay.toInt
      · have hcancel : pendingFor (messageCancelFirst queue (idLazy device)) device = [] := by
          rw [pendingFor_cancel (belongs_lazy device), hp]
          simp [messageCancelFirst]
        rw [if_pos hlt, pendingFor_send (belongs_lazy device) hcancel, toNat_delay hneg]
        rw [max_eq_left (by omega)] at hgreatest
        exact .lazy _ hlazy' hgreatest
      · rw [if_neg hlt, hp]
        rw [max_eq_right (by omega)] at hgreatest
        exact .lazy _ hlazy' hgreatest

/-- A call sends and cancels messages of its device. -/
theorem later_induction {P : List AppMessage → Prop} (hmin : delay.toInt ≠ -2 ^ 31)
    (hcancel : ∀ queue id, Belongs device id → P queue → P (messageCancelFirst queue id))
    (hsend : ∀ queue id (delay : BitVec 32), Belongs device id → (delay.toNat : ℤ) < 2 ^ 31 →
      P queue → P (messageSendLater queue now id delay)) (h : P queue) :
    P (serialiseDeviceLater queue now device delay) := by
  have hlazy := belongs_lazy device
  have hstrict := belongs_strict device
  have hrange : -2 ^ 31 ≤ delay.toInt := BitVec.le_toInt delay
  have hrange' : delay.toInt < 2 ^ 31 := BitVec.toInt_lt
  unfold serialiseDeviceLater
  dsimp only
  by_cases hneg : delay.toInt < 0
  · obtain ⟨-, htoNat⟩ := toInt_neg_delay hneg hmin
    have hlt : ((-delay).toNat : ℤ) < 2 ^ 31 := by omega
    rw [if_pos hneg]
    split_ifs
    · exact hcancel _ _ hlazy (hsend _ _ _ hstrict hlt (hcancel _ _ hstrict h))
    · exact hcancel _ _ hlazy (hsend _ _ _ hstrict hlt h)
    · exact hsend _ _ _ hstrict hlt (hcancel _ _ hstrict h)
    · exact hsend _ _ _ hstrict hlt h
    · exact h
  · have hlt : (delay.toNat : ℤ) < 2 ^ 31 := by rwa [toNat_delay hneg]
    rw [if_neg hneg]
    split_ifs
    · exact h
    · exact hsend _ _ _ hlazy hlt (hcancel _ _ hlazy h)
    · exact hsend _ _ _ hlazy hlt h
    · exact h

/-- A call keeps the order of the queue. -/
theorem ordered_later (ho : Ordered queue now) (hmin : delay.toInt ≠ -2 ^ 31) :
    Ordered (serialiseDeviceLater queue now device delay) now := by
  refine later_induction (P := fun q => Ordered q now) hmin (fun _ id _ h => h.cancelFirst id)
    (fun _ _ _ _ hlt h => h.insert ?_ ?_) ho
  · exact Int.le_add_of_nonneg_right (Int.natCast_nonneg _)
  · exact Int.add_lt_add_left hlt now

/-- A call leaves the messages of other devices. -/
theorem pendingFor_later_of_ne (hmin : delay.toInt ≠ -2 ^ 31) (hne : other ≠ device) :
    pendingFor (serialiseDeviceLater queue now device delay) other = pendingFor queue other :=
  later_induction (P := fun q => pendingFor q other = pendingFor queue other) hmin
    (fun _ _ hid h => (pendingFor_cancel_of_ne hid hne).trans h)
    (fun _ _ _ hid _ h => (pendingFor_send_of_ne hid hne).trans h) rfl

/-- Every message belongs to a device. -/
def Known (queue : List AppMessage) : Prop := ∀ a ∈ queue, ∃ device, Belongs device a.id

theorem Known.sublist {rest : List AppMessage} (h : Known queue) (hsub : rest.Sublist queue) :
    Known rest :=
  fun a ha => h a (hsub.subset ha)

theorem known_later (h : Known queue) (hmin : delay.toInt ≠ -2 ^ 31) :
    Known (serialiseDeviceLater queue now device delay) := by
  refine later_induction (P := Known) hmin (fun _ _ _ h => h.sublist eraseP_sublist)
    (fun _ _ _ hid _ h a ha => ?_) h
  rcases mem_insert.mp ha with rfl | ha
  · exact ⟨device, hid⟩
  · exact h a ha

/-! ## Cancelling -/

/-- Nothing is pending for a device that has been serialised. -/
theorem pendingFor_cancelDelayedSerialise (h : Honours device rs (pendingFor queue device)) :
    pendingFor (cancelDelayedSerialise queue device) device = [] := by
  unfold cancelDelayedSerialise
  rw [pendingFor_cancel (belongs_strict device), pendingFor_cancel (belongs_lazy device)]
  generalize pendingFor queue device = as at h
  have hne := idLazy_ne_idStrict device
  cases h <;> simp [messageCancelFirst, hne.symm]

theorem pendingFor_cancelDelayedSerialise_of_ne (hne : other ≠ device) :
    pendingFor (cancelDelayedSerialise queue device) other = pendingFor queue other :=
  (pendingFor_cancel_of_ne (belongs_strict device) hne).trans
    (pendingFor_cancel_of_ne (belongs_lazy device) hne)

theorem cancelDelayedSerialise_sublist :
    (cancelDelayedSerialise queue device).Sublist queue :=
  eraseP_sublist.trans eraseP_sublist

/-- **The devices that have been serialised** have no requests and no messages, and nothing changes
for the others. -/
theorem honours_serialised {requests : Device → List Request} (devices : List Device)
    (h : ∀ device, Honours device (requests device) (pendingFor queue device)) (device : Device) :
    Honours device (if device ∈ devices then [] else requests device)
      (pendingFor (devices.foldl cancelDelayedSerialise queue) device) := by
  induction devices generalizing queue requests with
  | nil => simpa using h device
  | cons x xs ih =>
    have hx : ∀ device, Honours device (Function.update requests x [] device)
        (pendingFor (cancelDelayedSerialise queue x) device) := by
      intro device
      by_cases hdevice : device = x
      · subst hdevice
        rw [update_self, pendingFor_cancelDelayedSerialise (h device)]
        exact .none rfl
      · rw [update_of_ne hdevice, pendingFor_cancelDelayedSerialise_of_ne hdevice]
        exact h device
    have hxs := ih hx
    rw [foldl_cons]
    by_cases hdevice : device = x
    · subst hdevice
      rw [if_pos mem_cons_self]
      rwa [update_self, ite_self] at hxs
    · rw [update_of_ne hdevice] at hxs
      simpa [hdevice] using hxs

theorem foldl_cancelDelayedSerialise_sublist (devices : List Device) :
    (devices.foldl cancelDelayedSerialise queue).Sublist queue := by
  induction devices generalizing queue with
  | nil => exact Sublist.refl _
  | cons x xs ih => exact ih.trans cancelDelayedSerialise_sublist

/-! ## Runs -/

/-- What every step keeps. -/
structure Timely (s : State) : Prop where
  ordered : Ordered s.queue s.now
  known : Known s.queue
  honours : ∀ device, Honours device (s.requests device) (pendingFor s.queue device)
  servedStrict : ∀ v ∈ s.served, ∀ r ∈ v.requests, r.strict → v.time ≤ r.deadline
  servedLazy : ∀ v ∈ s.served, (∀ r ∈ v.requests, ¬r.strict) →
    IsGreatest (deadlines v.requests) v.time

theorem timely_start (now : ℤ) : Timely (start now) :=
  ⟨.nil now, fun _ h => (nomatch h), fun _ => .none rfl, fun _ h => (nomatch h),
    fun _ h => (nomatch h)⟩

/-- The message that is due first serves its requests. -/
theorem Honours.served (h : Honours device rs [a]) :
    (∀ r ∈ rs, r.strict → a.due ≤ r.deadline) ∧
      ((∀ r ∈ rs, ¬r.strict) → IsGreatest (deadlines rs) a.due) := by
  cases h with
  | strict due hdue =>
    refine ⟨fun r hr hstrict => hdue.2 ⟨r, hr, hstrict, rfl⟩, fun hlazy => ?_⟩
    obtain ⟨r, hr, hstrict, -⟩ := hdue.1
    exact absurd hstrict (hlazy r hr)
  | lazy due hlazy hdue => exact ⟨fun r hr hstrict => absurd hstrict (hlazy r hr), fun _ => hdue⟩

theorem Timely.kept (h : Timely s) : Kept s := by
  have hone : ∀ device, s.requests device = [] ∧ pendingFor s.queue device = [] ∨
      ∃ a, pendingFor s.queue device = [a] := by
    intro device
    have hh := h.honours device
    generalize pendingFor s.queue device = as at hh
    cases hh with
    | none hrs => exact .inl ⟨hrs, rfl⟩
    | strict | lazy => exact .inr ⟨_, rfl⟩
  refine ⟨fun device => ?_, fun device hne => ?_, fun device r hr hstrict => ?_,
    fun device hlazy a ha => ?_, h.servedStrict, h.servedLazy⟩
  · rcases hone device with ⟨-, hnil⟩ | ⟨a, ha⟩
    · rw [hnil]
      exact Nat.zero_le _
    · rw [ha]
      exact Nat.le_refl _
  · exact (hone device).resolve_left fun hnil => hne hnil.1
  · rcases hone device with ⟨hnil, -⟩ | ⟨a, ha⟩
    · rw [hnil] at hr
      cases hr
    · have hdue := (ha ▸ h.honours device).served.1 r hr hstrict
      have hmem := (mem_pendingFor.mp (ha ▸ mem_singleton_self a)).1
      refine ⟨(h.ordered.soon a hmem).1.trans hdue, fun b hb => ?_⟩
      rw [ha] at hb
      rwa [mem_singleton.mp hb]
  · rcases hone device with ⟨-, hnil⟩ | ⟨b, hb⟩
    · rw [hnil] at ha
      cases ha
    · have hserved := (hb ▸ h.honours device).served.2 hlazy
      rw [hb] at ha
      rwa [mem_singleton.mp ha]

/-- Time passes, until the first message is due. -/
theorem timely_wait {ms : ℕ} (h : Timely s)
    (hsoon : ∀ a ∈ s.queue, s.now + ms ≤ a.due) : Timely { s with now := s.now + ms } := by
  refine ⟨⟨h.ordered.sorted, fun a ha => ⟨hsoon a ha, ?_⟩⟩, h.known, h.honours, h.servedStrict,
    h.servedLazy⟩
  have hhigh := (h.ordered.soon a ha).2
  change a.due < s.now + ms + 2 ^ 31
  omega

/-- A message is delivered when it is due. -/
theorem timely_deliver {peers : List Device} (h : Timely s)
    (hs : step s (.deliver peers) = some s') : Timely s' := by
  obtain ⟨⟨a, rest⟩, hnext, rfl⟩ := map_eq_some_iff.mp hs
  obtain ⟨hqueue, hdue⟩ : s.queue = a :: rest ∧ a.due = s.now := by
    unfold vmMessageNext at hnext
    split at hnext
    · cases hnext
    · rename_i b bs hcons
      split_ifs at hnext with hlate
      cases hnext
      have hmem : a ∈ s.queue := hcons ▸ mem_cons_self
      rw [h.ordered.vmDiff_eq hmem] at hlate
      have hlow := (h.ordered.soon a hmem).1
      exact ⟨hcons, by omega⟩
  have hsub : rest.Sublist s.queue := hqueue ▸ sublist_cons_self a rest
  obtain ⟨device, hid⟩ := h.known a (hqueue ▸ mem_cons_self)
  have hlt : deviceOf a.id < 0xFF := hid.deviceOf ▸ device.isLt
  have hdevice : (⟨deviceOf a.id, hlt⟩ : Device) = device := Fin.ext hid.deviceOf
  have hpending : pendingFor s.queue device = a :: pendingFor rest device := by
    rw [hqueue, pendingFor_cons hid]
  obtain ⟨hnil, hserved⟩ : pendingFor rest device = [] ∧
      Honours device (s.requests device) [a] := by
    have hh := h.honours device
    rw [hpending] at hh
    generalize hrest : pendingFor rest device = as at hh
    cases hh with
    | strict due hleast => exact ⟨rfl, .strict due hleast⟩
    | lazy due hlazy hgreatest => exact ⟨rfl, .lazy due hlazy hgreatest⟩
  obtain ⟨hstrict, hlazy⟩ := hserved.served
  rw [hdue] at hstrict hlazy
  have hrest : ∀ d, Honours d (Function.update s.requests device [] d) (pendingFor rest d) := by
    intro d
    by_cases hd : d = device
    · subst hd
      rw [update_self, hnil]
      exact .none rfl
    · have hother : pendingFor s.queue d = pendingFor rest d := by
        rw [hqueue, pendingFor_cons_of_ne hid hd]
      rw [update_of_ne hd, ← hother]
      exact h.honours d
  dsimp only
  rw [dif_pos hlt, hdevice]
  refine ⟨h.ordered.sublist ((foldl_cancelDelayedSerialise_sublist _).trans hsub),
    h.known.sublist ((foldl_cancelDelayedSerialise_sublist _).trans hsub), fun d => ?_,
    fun v hv => ?_, fun v hv => ?_⟩
  · have hd := honours_serialised (device :: peers) hrest d
    by_cases hmem : d ∈ device :: peers
    · rw [if_pos hmem] at hd
      change Honours d (if d ∈ device :: peers then [] else s.requests d) _
      rwa [if_pos hmem]
    · have hne : d ≠ device := fun heq => hmem (mem_cons.mpr (.inl heq))
      rw [if_neg hmem, update_of_ne hne] at hd
      change Honours d (if d ∈ device :: peers then [] else s.requests d) _
      rwa [if_neg hmem]
  · rcases mem_append.mp hv with hv | hv
    · exact h.servedStrict v hv
    · rw [mem_singleton.mp hv]
      exact hstrict
  · rcases mem_append.mp hv with hv | hv
    · exact h.servedLazy v hv
    · rw [mem_singleton.mp hv]
      exact hlazy

/-- **A step keeps the deadlines**, when its call leaves a message behind. -/
theorem timely_step (s : State) (op : Op) (s' : State) (h : Timely s) (hop : Schedules s op)
    (hs : step s op = some s') : Timely s' := by
  cases op with
  | serialiseDeviceLater device delay =>
    obtain rfl := some.inj hs
    obtain ⟨hzero, hmax, hmin⟩ := hop
    refine ⟨ordered_later h.ordered hmin, known_later h.known hmin, fun d => ?_, h.servedStrict,
      h.servedLazy⟩
    by_cases hd : d = device
    · subst hd
      dsimp only
      rw [update_self]
      exact honours_later h.ordered (h.honours d) hzero hmax hmin
    · dsimp only
      rw [update_of_ne hd, pendingFor_later_of_ne hmin hd]
      exact h.honours d
  | serialiseDevice devices =>
    obtain rfl := some.inj hs
    have hsub : (devices.foldl cancelDelayedSerialise s.queue).Sublist s.queue :=
      foldl_cancelDelayedSerialise_sublist devices
    exact ⟨h.ordered.sublist hsub, h.known.sublist hsub, honours_serialised devices h.honours,
      h.servedStrict, h.servedLazy⟩
  | serialise =>
    obtain rfl := some.inj hs
    exact ⟨.nil _, fun _ h => (nomatch h), fun _ => .none rfl, h.servedStrict, h.servedLazy⟩
  | wait ms =>
    unfold step at hs
    dsimp only at hs
    split at hs
    · rename_i hnil
      obtain rfl := some.inj hs
      exact timely_wait h fun a ha => by
        rw [hnil] at ha
        cases ha
    · rename_i a rest hcons
      split_ifs at hs with hle
      obtain rfl := some.inj hs
      have hsorted := hcons ▸ h.ordered.sorted
      rw [h.ordered.vmDiff_eq (hcons ▸ mem_cons_self)] at hle
      refine timely_wait h fun b hb => ?_
      rw [hcons] at hb
      rcases mem_cons.mp hb with rfl | hb
      · omega
      · have hab := (pairwise_cons.mp hsorted).1 b hb
        omega
  | deliver peers => exact timely_deliver h hs

/-- **The deadlines are kept over every run** whose calls leave a message behind. -/
theorem kept_of_schedules {now : ℤ} {ops : List Op} (hops : Meets step Schedules (start now) ops) :
    Throughout step Kept (start now) ops := by
  intro ks t hks ht
  exact (invariant_of_meets timely_step (timely_start now) (hops.of_prefix hks) ht).kept

/-- A lazy deadline that is put off, and a strict one that is not. -/
theorem kept_of_schedules_three :
    Throughout step Kept (start 0) [.serialiseDeviceLater 0 5, .serialiseDeviceLater 0 7,
      .serialiseDeviceLater 0 (-6), .wait 6, .deliver []] :=
  kept_of_schedules (by decide +kernel)

/-- **Not every call leaves a message behind**: a delay of 0, with nothing pending. -/
theorem not_kept_zero : ¬ ∀ (now : ℤ) (ops : List Op), Throughout step Kept (start now) ops := by
  intro h
  have hkept := h 0 [.serialiseDeviceLater 0 0] [.serialiseDeviceLater 0 0] _ List.prefix_rfl rfl
  obtain ⟨a, ha⟩ := hkept.pending 0 (List.cons_ne_nil _ _)
  have hnil : serialiseDeviceLater [] 0 0 0 = [] := by decide
  change pendingFor (serialiseDeviceLater [] 0 0 0) 0 = [a] at ha
  rw [hnil] at ha
  cases ha

end Mh40.DeviceDb.Later
