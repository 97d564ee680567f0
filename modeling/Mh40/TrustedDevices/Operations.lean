import Mh40.TrustedDevices.Moves

/-!
# The operations as moves

* `Spot`: where a new device goes, and the device that makes room for it.
* `Moves.put`: a new device is stored there.
* `outcome_perform`: every operation on one device that keeps to `Regular` is a move about its
  targets and the device dropped.
-/

namespace Mh40.TrustedDevices

open List Option Function

variable {cfg : Config} {s s' : Tdl} {slots : List Slot} {about : List TypedBdaddr}
  {taddr : TypedBdaddr} {pos idx : ℕ} {op : Op}

/-! ## Devices that are listed -/

section Listed

variable {before after : List Slot} {x : Slot} {addr : Bdaddr}

/-- The slot of a device. -/
theorem exists_slot (h : taddr ∈ slots.map Slot.taddr) :
    ∃ before x after, slots = before ++ x :: after ∧ x.taddr = taddr := by
  obtain ⟨x, hx, rfl⟩ := List.mem_map.mp h
  obtain ⟨before, after, rfl⟩ := append_of_mem hx
  exact ⟨before, x, after, rfl, rfl⟩

section

variable (h : Holds cfg s (before ++ x :: after))
include h

/-- Other slots have other addresses. -/
theorem taddr_ne_of_split :
    ∀ y ∈ before ++ after, y.taddr ≠ x.taddr := by
  intro y hy heq
  have hnodup : ((x :: (before ++ after)).map Slot.taddr).Nodup :=
    (perm_middle.map Slot.taddr).nodup_iff.mp h.stored.taddrs
  rw [map_cons, nodup_cons] at hnodup
  exact hnodup.1 (heq ▸ List.mem_map_of_mem hy)

/-- A record is written for the device that has it. -/
theorem Moves.rewrite (hx : x.taddr ∈ about) {td : TdData} (htd : td.taddr = x.taddr) :
    Moves cfg about s (before ++ x :: after) (s.psStore (.record x.pos (some td)))
      (before ++ { x with td := td } :: after) := by
  have hhash : x.HashOk := h.hash x (mem_append_right _ mem_cons_self)
  have htaddr : ({ x with td := td } : Slot).taddr = x.taddr := htd
  refine Moves.record h rfl (fun y hy => htaddr ▸ taddr_ne_of_split h y hy) ?_ hx
    (htaddr ▸ hx) rfl rfl fun rest hrest => ?_
  · unfold Slot.HashOk
    rw [htaddr]
    exact hhash
  · rw [map_append, map_cons]
    exact hrest.trans (by rw [map_append, map_cons])

/-- A record is written over another one, and its hash is cached. -/
theorem Moves.replace (hx : x.taddr ∈ about) {td : TdData} (htd : td.taddr ∈ about)
    (hne : ∀ y ∈ before ++ after, y.taddr ≠ td.taddr) :
    Moves cfg about s (before ++ x :: after)
      ((s.psStore (.record x.pos (some td))).setHash before.length (tdiHash td.taddr.addr))
      (before ++ ⟨⟨tdiHash td.taddr.addr, x.pos⟩, td⟩ :: after) := by
  refine Moves.record h rfl hne (.inr rfl) hx htd rfl rfl fun rest hrest => ?_
  have hlen : before.length = (before.map Slot.element).length := (length_map _).symm
  change s.tdi.modify before.length _ = _
  rw [hrest, map_append, map_append, map_cons, map_cons, append_assoc,
    append_assoc, cons_append, cons_append, hlen, modify_length]
  rfl

/-- A device that is listed gets or loses the priority flag. -/
theorem Moves.setPriority (hx : x.taddr ∈ about) (haddr : x.taddr = ⟨.bdaddrPublic, addr⟩)
    (isPriorityDevice : Bool) :
    ∃ slots', Moves cfg about s (before ++ x :: after)
        (s.connectionAuthSetPriorityDevice cfg addr isPriorityDevice).2 slots' ∧
      (slots'.map Slot.taddr).Perm ((before ++ x :: after).map Slot.taddr) := by
  have hfind := h.tdlFindDevice_of_mem rfl haddr
  unfold Tdl.connectionAuthSetPriorityDevice
  rw [hfind]
  dsimp only
  generalize htd : ({ x.td with content :=
    { x.td.content with priorityDevice := isPriorityDevice } } : TdData) = td
  have htaddr : td.taddr = x.taddr := by rw [← htd]; rfl
  have hrewrite := Moves.rewrite h hx htaddr
  have htouch := Moves.updateTrustedDeviceIndex (x := { x with td := td }) hrewrite.holds
    (show td.taddr ∈ about from htaddr ▸ hx)
  have hmoves := hrewrite.trans htouch
  have hperm : (({ x with td := td } :: (before ++ after)).map Slot.taddr).Perm
      ((before ++ x :: after).map Slot.taddr) := by
    refine List.Perm.trans ?_ (perm_middle.symm.map Slot.taddr)
    rw [map_cons, map_cons]
    exact Perm.of_eq (congrArg (· :: _) htaddr)
  by_cases hprio : (!isPriorityDevice) = true
  · rw [if_pos hprio]
    obtain ⟨front, back, hsplit, hsink⟩ :=
      Moves.sink htouch.holds (show td.taddr ∈ about from htaddr ▸ hx) td
    refine ⟨_, hmoves.trans hsink, List.Perm.trans ?_ hperm⟩
    rw [hsplit]
    exact perm_middle.map Slot.taddr
  · rw [if_neg hprio]
    exact ⟨_, hmoves, hperm⟩

end

/-- A device that is not listed cannot be made a priority device. -/
theorem setPriority_of_forall_ne (h : Holds cfg s slots)
    (hne : ∀ x ∈ slots, x.taddr ≠ ⟨.bdaddrPublic, addr⟩) (isPriorityDevice : Bool) :
    (s.connectionAuthSetPriorityDevice cfg addr isPriorityDevice).2 = s := by
  unfold Tdl.connectionAuthSetPriorityDevice
  rw [h.tdlFindDevice_of_forall_ne hne]
  split_ifs <;> rfl

/-- A device gets or loses the priority flag, if it is listed. -/
theorem exists_setPriority (h : Holds cfg s slots)
    (haddr : (⟨.bdaddrPublic, addr⟩ : TypedBdaddr) ∈ slots.map Slot.taddr →
      (⟨.bdaddrPublic, addr⟩ : TypedBdaddr) ∈ about) (isPriorityDevice : Bool) :
    ∃ slots', Moves cfg about s slots
        (s.connectionAuthSetPriorityDevice cfg addr isPriorityDevice).2 slots' ∧
      (slots'.map Slot.taddr).Perm (slots.map Slot.taddr) := by
  by_cases hl : (⟨.bdaddrPublic, addr⟩ : TypedBdaddr) ∈ slots.map Slot.taddr
  · obtain ⟨before, x, after, rfl, hx⟩ := exists_slot hl
    exact Moves.setPriority h (hx ▸ haddr hl) hx isPriorityDevice
  · rw [setPriority_of_forall_ne h fun x hx heq => hl (List.mem_map.mpr ⟨x, hx, heq⟩)]
    exact ⟨slots, Moves.refl h, List.Perm.refl _⟩

end Listed

/-! ## New devices -/

/-- Where a new device goes: a free position behind the list, or the place of the device dropped;
and the slots left. -/
inductive Spot (cfg : Config) (slots : List Slot) : ℕ → ℕ → List TypedBdaddr → List Slot → Prop
  | free {pos : ℕ} (hpos : pos ∉ slots.map Slot.pos) (hlt : pos < cfg.maxTrustedDevices)
    (hroom : slots.length < cfg.maxTrustedDevices) : Spot cfg slots pos slots.length [] slots
  | victim {before after : List Slot} {x : Slot} (hslots : slots = before ++ x :: after)
    (hvictim : IsVictim before x after) (hfull : slots.length = cfg.maxTrustedDevices) :
    Spot cfg slots x.pos before.length [x.taddr] (before ++ after)

/-- There is room for a new device, or a device but the first one has no priority flag. -/
def Roomy (cfg : Config) (records : List TdData) : Prop :=
  records.length < cfg.maxTrustedDevices ∨ cfg.maxTrustedDevices = 1 ∨
    ∃ td ∈ records.tail, td.content.priorityDevice = false

/-- The last device without the priority flag. -/
theorem exists_last {l : List Slot} (h : ∃ x ∈ l, x.td.content.priorityDevice = false) :
    ∃ before x after, l = before ++ x :: after ∧ x.td.content.priorityDevice = false ∧
      ∀ y ∈ after, y.td.content.priorityDevice = true := by
  induction l with
  | nil =>
    obtain ⟨x, hx, -⟩ := h
    cases hx
  | cons y l ih =>
    by_cases hl : ∃ x ∈ l, x.td.content.priorityDevice = false
    · obtain ⟨before, x, after, rfl, hx, hafter⟩ := ih hl
      exact ⟨y :: before, x, after, rfl, hx, hafter⟩
    · refine ⟨[], y, l, rfl, ?_, fun z hz => ?_⟩
      · obtain ⟨x, hx, hprio⟩ := h
        rcases mem_cons.mp hx with rfl | hx
        · exact hprio
        · exact (hl ⟨x, hx, hprio⟩).elim
      · exact Bool.eq_true_of_not_eq_false fun hprio => hl ⟨z, hz, hprio⟩

/-- A new device finds its spot. -/
theorem Holds.exists_spot (h : Holds cfg s slots) (hne : ∀ x ∈ slots, x.taddr ≠ taddr)
    (hroomy : Roomy cfg (slots.map Slot.td)) :
    ∃ pos idx dropped left, s.tdlFindDevice cfg taddr = ⟨none, pos, idx⟩ ∧
      Spot cfg slots pos idx dropped left := by
  have hle := h.stored.le
  by_cases hlt : slots.length < cfg.maxTrustedDevices
  · obtain ⟨pos, hfind, hpos, hposlt⟩ := h.tdlFindDevice_of_lt hne hlt
    exact ⟨_, _, _, _, hfind, .free hpos hposlt hlt⟩
  · have hfull : slots.length = cfg.maxTrustedDevices := by omega
    have hcfg := cfg.pos
    obtain ⟨before, x, after, hslots, hvictim⟩ :
        ∃ before x after, slots = before ++ x :: after ∧ IsVictim before x after := by
      rcases hroomy with hroom | hone | ⟨td, htd, hprio⟩
      · rw [length_map] at hroom
        omega
      · obtain ⟨x, rfl⟩ := length_eq_one_iff.mp (hfull.trans hone)
        exact ⟨[], x, [], rfl, fun y hy => (by cases hy), .inr ⟨rfl, rfl⟩⟩
      · rw [← map_tail] at htd
        obtain ⟨y, hy, rfl⟩ := List.mem_map.mp htd
        obtain ⟨before, x, after, heq, hx, hafter⟩ := exists_last ⟨y, hy, hprio⟩
        cases slots with
        | nil => exact absurd heq (by simp)
        | cons y slots =>
          rw [tail_cons] at heq
          subst heq
          exact ⟨y :: before, x, after, rfl, hafter, .inl ⟨cons_ne_nil _ _, hx⟩⟩
    exact ⟨_, _, _, _, h.tdlFindDevice_of_isVictim hne hlt hslots hvictim,
      .victim hslots hvictim hfull⟩

section Put

variable {dropped : List TypedBdaddr} {left : List Slot}

/-- The slots left are slots of the list. -/
theorem Spot.mem_left (hspot : Spot cfg slots pos idx dropped left) : ∀ x ∈ left, x ∈ slots := by
  intro x hx
  cases hspot with
  | free hpos hlt hroom => exact hx
  | victim hslots hvictim hfull =>
    rw [hslots]
    exact (mem_append.mp hx).elim (mem_append_left _)
      fun hx => mem_append_right _ (mem_cons_of_mem _ hx)

/-- The position of a spot is not that of another device. -/
theorem Spot.pos_ne (hspot : Spot cfg slots pos idx dropped left) (h : Holds cfg s slots)
    (hdropped : ∀ t ∈ dropped, t ∈ about) : ∀ x ∈ otherSlots about slots, x.pos ≠ pos := by
  intro x hx
  cases hspot with
  | free hpos hlt hroom =>
    exact fun heq => hpos (heq ▸ List.mem_map_of_mem (mem_of_mem_filter hx))
  | victim hslots hvictim hfull =>
    subst hslots
    rw [otherSlots_split (hdropped _ mem_cons_self)] at hx
    exact pos_ne_of_split h.stored x (mem_of_mem_filter hx)

/-- A new device is stored, and becomes the one used most recently. -/
theorem Moves.put (h : Holds cfg s slots) (hspot : Spot cfg slots pos idx dropped left)
    (td : TdData) (hne : ∀ x ∈ slots, x.taddr ≠ td.taddr) (htd : td.taddr ∈ about)
    (hdropped : ∀ t ∈ dropped, t ∈ about) :
    Moves cfg about s slots
      (((s.psStore (.record pos (some td))).setHash idx (tdiHash td.taddr.addr))
        |>.updateTrustedDeviceIndex cfg pos idx)
      (⟨⟨tdiHash td.taddr.addr, pos⟩, td⟩ :: left) := by
  cases hspot with
  | free hpos hlt hroom =>
    exact Moves.push (x := ⟨⟨tdiHash td.taddr.addr, pos⟩, td⟩) h hpos hlt hroom hne (.inr rfl) htd
  | @victim before after x hslots hvictim hfull =>
    subst hslots
    have hx := hdropped _ mem_cons_self
    have hsub : ∀ y ∈ before ++ after, y.taddr ≠ td.taddr := fun y hy =>
      hne y ((mem_append.mp hy).elim (mem_append_left _)
        fun hy => mem_append_right _ (mem_cons_of_mem _ hy))
    have hreplace := Moves.replace h hx htd hsub
    exact hreplace.trans (Moves.updateTrustedDeviceIndex
      (x := ⟨⟨tdiHash td.taddr.addr, x.pos⟩, td⟩) hreplace.holds htd)

end Put

/-! ## Operations -/

/-- The elements in use. -/
def Tdl.used (s : Tdl) : List Element := s.tdi.takeWhile fun e => decide (e.order ≠ tdiOrderUnused)

/-- The records listed. -/
def Tdl.records (s : Tdl) : List TdData := s.used.filterMap fun e => s.ps.record e.order

/-- The device is listed. -/
def Tdl.lists (s : Tdl) (taddr : TypedBdaddr) : Bool :=
  s.records.any fun td => decide (td.taddr = taddr)

theorem Holds.used_eq (h : Holds cfg s slots) : s.used = slots.map Slot.element := by
  obtain ⟨rest, hrest, hunused⟩ := h.tdi
  have hne := h.pos_ne_unused
  unfold Tdl.used
  rw [hrest, takeWhile_append_of_pos fun e he => ?_]
  · cases rest with
    | nil => rw [takeWhile_nil, append_nil]
    | cons e rest =>
      have he : e.order = tdiOrderUnused := hunused e mem_cons_self
      have hnil : (e :: rest).takeWhile (fun e => decide (e.order ≠ tdiOrderUnused)) = [] := by
        simp [he]
      rw [hnil, append_nil]
  · obtain ⟨x, hx, rfl⟩ := List.mem_map.mp he
    exact decide_eq_true (hne x hx)

theorem Holds.records_eq (h : Holds cfg s slots) : s.records = slots.map Slot.td := by
  have hrecord := h.stored.record
  unfold Tdl.records
  rw [h.used_eq]
  clear h
  induction slots with
  | nil => rfl
  | cons x slots ih =>
    have hx : s.ps.record x.element.order = some x.td := hrecord x mem_cons_self
    rw [map_cons, filterMap_cons, hx,
      ih fun y hy => hrecord y (mem_cons_of_mem x hy)]
    rfl

theorem Holds.lists_iff (h : Holds cfg s slots) :
    s.lists taddr = true ↔ taddr ∈ slots.map Slot.taddr := by
  unfold Tdl.lists
  rw [h.records_eq, List.any_map, List.any_eq_true, List.mem_map]
  exact exists_congr fun x => and_congr_right fun _ => decide_eq_true_iff

/-- What an operation is to do. -/
inductive Kind
  | /-- Nobody is put on the list, or taken off it. -/
    kept
  | /-- A device is put on the list. -/
    put (taddr : TypedBdaddr)
  | /-- A device is taken off the list. -/
    removed (taddr : TypedBdaddr)
  | /-- A device is not stored; its place is cleared. -/
    cleared (taddr : TypedBdaddr)
deriving DecidableEq, Repr

/-- What an operation on one device is to do with the list. -/
def Op.kind (s : Tdl) : Op → Kind
  | .addDevice req =>
    if s.lists ⟨.bdaddrPublic, req.bdAddr⟩ then
      if req.bonded then .kept else .removed ⟨.bdaddrPublic, req.bdAddr⟩
    else if req.isStored then .put ⟨.bdaddrPublic, req.bdAddr⟩
    else .cleared ⟨.bdaddrPublic, req.bdAddr⟩
  | .addDeviceRaw taddr data =>
    if !s.lists taddr && data.isSome then .put taddr else .kept
  | .updateTdl taddr _ => if s.lists taddr then .kept else .put taddr
  | .deleteDevice taddr =>
    if s.records.any fun td => decide (td.taddr = taddr) && !td.content.priorityDevice then
      .removed taddr
    else .kept
  | .deleteDeviceFromTdl taddr => if s.lists taddr then .removed taddr else .kept
  | .duplicate existingAddr newAddr =>
    if existingAddr.isZero || newAddr.isZero || !s.lists ⟨.bdaddrPublic, existingAddr⟩ ||
        s.lists ⟨.bdaddrPublic, newAddr⟩ then .kept
    else .put ⟨.bdaddrPublic, newAddr⟩
  | _ => .kept

/-- The addresses that an operation on one device is about. -/
def Op.targets : Op → List TypedBdaddr
  | .addDevice req => [⟨.bdaddrPublic, req.bdAddr⟩]
  | .addDeviceRaw taddr _ => [taddr]
  | .updateTdl taddr _ => [taddr]
  | .replaceIrk addr _ => [⟨.bdaddrPublic, addr⟩]
  | .deleteDevice taddr => [taddr]
  | .deleteAllDevice => []
  | .deleteDeviceFromTdl taddr => [taddr]
  | .setPriorityDevice addr _ => [⟨.bdaddrPublic, addr⟩]
  | .updateMru addr => [⟨.bdaddrPublic, addr⟩]
  | .setTrustLevel addr _ => [⟨.bdaddrPublic, addr⟩]
  | .setBlePrivacyMode taddr _ => [taddr]
  | .duplicate _ newAddr => [⟨.bdaddrPublic, newAddr⟩]
  | .putAttribute taddr _ => [taddr]
  | .putGattAttribute taddr _ => [taddr]

/-- A device that is put on the list was not there, and is what the operation is about. -/
theorem kind_put (hkind : op.kind s = .put taddr) :
    op.targets = [taddr] ∧ s.lists taddr = false := by
  cases op <;> unfold Op.kind at hkind <;> dsimp only at hkind <;> try split_ifs at hkind
  all_goals try cases hkind
  all_goals
    refine ⟨rfl, ?_⟩
    simp_all

theorem kind_removed (hkind : op.kind s = .removed taddr) : op.targets = [taddr] := by
  cases op <;> unfold Op.kind at hkind <;> dsimp only at hkind <;> try split_ifs at hkind
  all_goals try cases hkind
  all_goals rfl

theorem kind_cleared (hkind : op.kind s = .cleared taddr) : s.lists taddr = false := by
  cases op <;> unfold Op.kind at hkind <;> dsimp only at hkind <;> try split_ifs at hkind
  all_goals try cases hkind
  all_goals simp_all

/-- The addresses that an operation on one device touches: after raw data are added, the priority
flag of the public address is cleared, which may be that of another device. -/
def Op.touched (s : Tdl) : Op → List TypedBdaddr
  | .addDeviceRaw taddr data =>
    if !s.lists taddr && data.isSome && s.lists ⟨.bdaddrPublic, taddr.addr⟩ then
      [taddr, ⟨.bdaddrPublic, taddr.addr⟩]
    else [taddr]
  | op => op.targets

/-- What an operation does. -/
inductive Outcome (cfg : Config) (targets : List TypedBdaddr) (s : Tdl) (slots : List Slot)
    (s' : Tdl) : Kind → Prop
  | kept {slots' : List Slot} (hmoves : Moves cfg targets s slots s' slots')
    (hperm : (slots'.map Slot.taddr).Perm (slots.map Slot.taddr)) :
    Outcome cfg targets s slots s' .kept
  | put {pos idx : ℕ} {dropped : List TypedBdaddr} {left slots' : List Slot} {taddr : TypedBdaddr}
    (hspot : Spot cfg slots pos idx dropped left)
    (hmoves : Moves cfg (targets ++ dropped) s slots s' slots')
    (hperm : (slots'.map Slot.taddr).Perm (taddr :: left.map Slot.taddr)) :
    Outcome cfg targets s slots s' (.put taddr)
  | removed {before after : List Slot} {x : Slot} (hslots : slots = before ++ x :: after)
    (hmoves : Moves cfg targets s slots s' (before ++ after))
    (hattribute : s'.ps.tdlAttribute x.pos = none)
    (hgatt : s'.ps.tdlGattAttribute x.pos = none) :
    Outcome cfg targets s slots s' (.removed x.taddr)
  | cleared {taddr : TypedBdaddr} (heq : s' = s.deleteAttribute (s.tdlFindDevice cfg taddr).pos) :
    Outcome cfg targets s slots s' (.cleared taddr)

/-- An operation does not reach a place where the list goes wrong: a device that is put on a full
list does not find only priority devices behind the first one; raw data are those of the address;
a copy does not replace a listed device but the last one; no priority device follows one that all
deleting deletes. -/
def Regular (cfg : Config) (s : Tdl) (op : Op) : Prop :=
  (∀ taddr, op.kind s = .put taddr → Roomy cfg s.records) ∧
    match op with
    | .addDeviceRaw taddr data => s.lists taddr = false → ∀ td ∈ data, td.taddr = taddr
    | .duplicate existingAddr newAddr =>
      (existingAddr.isZero || newAddr.isZero || !s.lists ⟨.bdaddrPublic, existingAddr⟩) = false →
        s.lists ⟨.bdaddrPublic, newAddr⟩ = true →
          s.records.getLast?.map TdData.taddr = some ⟨.bdaddrPublic, newAddr⟩
    | .deleteAllDevice => s.records.Pairwise fun td td' =>
      td'.content.priorityDevice = true → td.content.priorityDevice = true
    | _ => True

section Perform

variable {targets : List TypedBdaddr} {before after : List Slot} {x : Slot} {td : TdData}

theorem Holds.find_none (h : Holds cfg s slots) (hne : taddr ∉ slots.map Slot.taddr) :
    (s.tdlFindDevice cfg taddr).td = none := by
  rw [h.tdlFindDevice_of_forall_ne fun x hx heq => hne (List.mem_map.mpr ⟨x, hx, heq⟩)]
  split_ifs <;> rfl

theorem Holds.lists_eq_false (h : Holds cfg s slots) :
    s.lists taddr = false ↔ taddr ∉ slots.map Slot.taddr := by
  rw [← h.lists_iff, Bool.not_eq_true]

theorem Outcome.same (h : Holds cfg s slots) : Outcome cfg targets s slots s .kept :=
  .kept (Moves.refl h) (List.Perm.refl _)

theorem map_taddr_rewrite (htd : td.taddr = x.taddr) :
    (before ++ { x with td := td } :: after).map Slot.taddr =
      (before ++ x :: after).map Slot.taddr := by
  rw [map_append, map_append, map_cons, map_cons]
  exact congrArg (fun t => before.map Slot.taddr ++ t :: after.map Slot.taddr) htd

section

variable (h : Holds cfg s (before ++ x :: after))
include h

section

variable (hx : x.taddr ∈ targets)
include hx

/-- A record of a listed device is written. -/
theorem Outcome.rewrite (htd : td.taddr = x.taddr) :
    Outcome cfg targets s (before ++ x :: after) (s.psStore (.record x.pos (some td))) .kept :=
  .kept (Moves.rewrite h hx htd) (.of_eq (map_taddr_rewrite htd))

/-- A listed device becomes the one used most recently. -/
theorem Outcome.touch :
    Outcome cfg targets s (before ++ x :: after)
      (s.updateTrustedDeviceIndex cfg x.pos before.length) .kept :=
  .kept (Moves.updateTrustedDeviceIndex h hx) (perm_middle.symm.map _)

/-- A record of a listed device is written, and it becomes the one used most recently. -/
theorem Outcome.rewrite_touch (htd : td.taddr = x.taddr) :
    Outcome cfg targets s (before ++ x :: after)
      ((s.psStore (.record x.pos (some td))).updateTrustedDeviceIndex cfg x.pos before.length)
      .kept := by
  have hrewrite := Moves.rewrite h hx htd
  refine .kept (hrewrite.trans (Moves.updateTrustedDeviceIndex (x := { x with td := td })
    hrewrite.holds (show td.taddr ∈ targets from htd ▸ hx))) ?_
  refine List.Perm.trans (perm_middle.symm.map _) (.of_eq (map_taddr_rewrite htd))

/-- A listed device is taken off. -/
theorem Outcome.remove :
    Outcome cfg targets s (before ++ x :: after)
      (s.deleteFromTrustedDeviceList cfg x.pos before.length) (.removed x.taddr) := by
  refine .removed rfl (Moves.deleteFromTrustedDeviceList h hx) ?_ ?_
  · unfold Tdl.deleteFromTrustedDeviceList Tdl.deleteAttribute
    dsimp only
    split_ifs with hsome
    · exact update_self ..
    · exact not_isSome_iff_eq_none.mp hsome
  · exact update_self ..

end

/-- The other devices have other records. -/
theorem Holds.others_pos_ne : ∀ y ∈ otherSlots [x.taddr] (before ++ x :: after), y.pos ≠ x.pos := by
  intro y hy
  rw [otherSlots_split mem_cons_self] at hy
  exact pos_ne_of_split h.stored y (mem_of_mem_filter hy)

end

/-- Deleting the attributes again changes nothing. -/
theorem deleteAttribute_delete {pos idx : ℕ} :
    (s.deleteFromTrustedDeviceList cfg pos idx).deleteAttribute pos =
      s.deleteFromTrustedDeviceList cfg pos idx := by
  have hnone : (s.deleteFromTrustedDeviceList cfg pos idx).ps.tdlAttribute pos = none := by
    unfold Tdl.deleteFromTrustedDeviceList Tdl.deleteAttribute
    dsimp only
    split_ifs with hsome
    · exact update_self ..
    · exact not_isSome_iff_eq_none.mp hsome
  conv => lhs; unfold Tdl.deleteAttribute
  rw [hnone]
  rfl

section

variable (h : Holds cfg s slots)
include h

theorem outcome_updateMru (addr : Bdaddr) :
    Outcome cfg (Op.updateMru addr).targets s slots (s.perform cfg (.updateMru addr)) .kept := by
  change Outcome cfg _ s slots (s.connectionAuthUpdateMru cfg addr).2 .kept
  unfold Tdl.connectionAuthUpdateMru
  by_cases hl : (⟨.bdaddrPublic, addr⟩ : TypedBdaddr) ∈ slots.map Slot.taddr
  · obtain ⟨before, x, after, rfl, hx⟩ := exists_slot hl
    rw [h.tdlFindDevice_of_mem rfl hx]
    exact Outcome.touch h (hx ▸ mem_cons_self)
  · dsimp only
    rw [h.find_none hl]
    exact Outcome.same h

theorem outcome_setTrustLevel (addr : Bdaddr) (trusted : Uint16) :
    Outcome cfg (Op.setTrustLevel addr trusted).targets s slots
      (s.perform cfg (.setTrustLevel addr trusted)) .kept := by
  change Outcome cfg _ s slots (s.connectionAuthSetTrustLevel cfg addr trusted).2 .kept
  unfold Tdl.connectionAuthSetTrustLevel
  by_cases hl : (⟨.bdaddrPublic, addr⟩ : TypedBdaddr) ∈ slots.map Slot.taddr
  · obtain ⟨before, x, after, rfl, hx⟩ := exists_slot hl
    rw [h.tdlFindDevice_of_mem rfl hx]
    exact Outcome.rewrite h (hx ▸ mem_cons_self) rfl
  · dsimp only
    rw [h.find_none hl]
    exact Outcome.same h

theorem outcome_setBlePrivacyMode (taddr : TypedBdaddr) (mode : Bool) :
    Outcome cfg (Op.setBlePrivacyMode taddr mode).targets s slots
      (s.perform cfg (.setBlePrivacyMode taddr mode)) .kept := by
  change Outcome cfg _ s slots (s.connectionAuthSetBlePrivacyMode cfg taddr mode).2 .kept
  unfold Tdl.connectionAuthSetBlePrivacyMode
  by_cases hl : taddr ∈ slots.map Slot.taddr
  · obtain ⟨before, x, after, rfl, rfl⟩ := exists_slot hl
    rw [h.tdlFindDevice_of_mem rfl rfl]
    dsimp only
    split_ifs
    · exact Outcome.rewrite h mem_cons_self rfl
    · exact Outcome.same h
    · exact Outcome.same h
  · dsimp only
    rw [h.find_none hl]
    exact Outcome.same h

theorem outcome_replaceIrk (addr : Bdaddr) (newIrk : List Uint16) :
    Outcome cfg (Op.replaceIrk addr newIrk).targets s slots
      (s.perform cfg (.replaceIrk addr newIrk)) .kept := by
  change Outcome cfg _ s slots (s.connectionAuthReplaceIrk cfg addr newIrk).2 .kept
  unfold Tdl.connectionAuthReplaceIrk
  by_cases hl : (⟨.bdaddrPublic, addr⟩ : TypedBdaddr) ∈ slots.map Slot.taddr
  · obtain ⟨before, x, after, rfl, hx⟩ := exists_slot hl
    rw [h.tdlFindDevice_of_mem rfl hx]
    exact Outcome.rewrite_touch h (hx ▸ mem_cons_self) rfl
  · dsimp only
    rw [h.find_none hl]
    exact Outcome.same h

theorem outcome_setPriorityDevice (addr : Bdaddr) (isPriorityDevice : Bool) :
    Outcome cfg (Op.setPriorityDevice addr isPriorityDevice).targets s slots
      (s.perform cfg (.setPriorityDevice addr isPriorityDevice)) .kept := by
  obtain ⟨slots', hmoves, hperm⟩ := exists_setPriority h
    (fun _ => show _ ∈ (Op.setPriorityDevice addr isPriorityDevice).targets
      from mem_cons_self) isPriorityDevice
  exact .kept hmoves hperm

/-- Attributes of a listed device are written. -/
theorem outcome_putAttribute (taddr : TypedBdaddr) (data : List Uint16) :
    Outcome cfg (Op.putAttribute taddr data).targets s slots
      (s.perform cfg (.putAttribute taddr data)) .kept := by
  change Outcome cfg _ s slots (s.connectionAuthPutAttribute cfg taddr data) .kept
  unfold Tdl.connectionAuthPutAttribute
  by_cases hl : taddr ∈ slots.map Slot.taddr
  · obtain ⟨before, x, after, rfl, rfl⟩ := exists_slot hl
    rw [h.tdlFindDevice_of_mem rfl rfl]
    exact .kept (Moves.tdlAttribute h h.others_pos_ne _) (List.Perm.refl _)
  · dsimp only
    rw [h.find_none hl]
    exact Outcome.same h

theorem outcome_putGattAttribute (taddr : TypedBdaddr) (data : List Uint16) :
    Outcome cfg (Op.putGattAttribute taddr data).targets s slots
      (s.perform cfg (.putGattAttribute taddr data)) .kept := by
  change Outcome cfg _ s slots (s.connectionPutGattAttribute cfg taddr data) .kept
  unfold Tdl.connectionPutGattAttribute
  by_cases hl : taddr ∈ slots.map Slot.taddr
  · obtain ⟨before, x, after, rfl, rfl⟩ := exists_slot hl
    rw [h.tdlFindDevice_of_mem rfl rfl]
    exact .kept (Moves.tdlGattAttribute h h.others_pos_ne _) (List.Perm.refl _)
  · dsimp only
    rw [h.find_none hl]
    exact Outcome.same h

end

/-- A record of a listed device is written, it becomes the one used most recently, and no priority
device. -/
theorem Outcome.replace_setPriority (h : Holds cfg s (before ++ x :: after)) {addr : Bdaddr}
    (hx : x.taddr = ⟨.bdaddrPublic, addr⟩) (haddr : (⟨.bdaddrPublic, addr⟩ : TypedBdaddr) ∈ targets)
    (htd : td.taddr = x.taddr) :
    Outcome cfg targets s (before ++ x :: after)
      ((((s.psStore (.record x.pos (some td))).setHash before.length (tdiHash addr))
        |>.updateTrustedDeviceIndex cfg x.pos before.length)
        |>.connectionAuthSetPriorityDevice cfg addr false).2 .kept := by
  have hin : x.taddr ∈ targets := hx ▸ haddr
  have hreplace := Moves.replace h hin (htd ▸ hin) (htd ▸ taddr_ne_of_split h)
  rw [htd, hx] at hreplace
  have htouch := Moves.updateTrustedDeviceIndex (x := ⟨⟨tdiHash addr, x.pos⟩, td⟩)
    hreplace.holds (show td.taddr ∈ targets from htd ▸ hin)
  obtain ⟨slots', hprio, hperm⟩ := exists_setPriority htouch.holds (fun _ => haddr) false
  refine .kept (hreplace.trans (htouch.trans hprio)) (hperm.trans ?_)
  refine List.Perm.trans ?_ (perm_middle.symm.map Slot.taddr)
  rw [map_cons, map_cons]
  exact Perm.of_eq (congrArg (· :: _) htd)

/-- A new device is stored where `tdl_find_device` says, and becomes no priority device. -/
theorem Outcome.put_setPriority (h : Holds cfg s slots) (hl : taddr ∉ slots.map Slot.taddr)
    (hroomy : Roomy cfg s.records) (htd : td.taddr = taddr) (htarget : taddr ∈ targets)
    (haddr : (⟨.bdaddrPublic, taddr.addr⟩ : TypedBdaddr) ∈ slots.map Slot.taddr →
      (⟨.bdaddrPublic, taddr.addr⟩ : TypedBdaddr) ∈ targets) :
    Outcome cfg targets s slots
      (((((s.deleteAttribute (s.tdlFindDevice cfg taddr).pos).psStore
        (.record (s.tdlFindDevice cfg taddr).pos (some td))).setHash
        (s.tdlFindDevice cfg taddr).idx (tdiHash taddr.addr))
        |>.updateTrustedDeviceIndex cfg (s.tdlFindDevice cfg taddr).pos
          (s.tdlFindDevice cfg taddr).idx)
        |>.connectionAuthSetPriorityDevice cfg taddr.addr false).2 (.put taddr) := by
  have hne : ∀ y ∈ slots, y.taddr ≠ taddr := fun y hy heq => hl (List.mem_map.mpr ⟨y, hy, heq⟩)
  rw [h.records_eq] at hroomy
  obtain ⟨pos, idx, dropped, left, hfind, hspot⟩ := h.exists_spot hne hroomy
  rw [hfind]
  dsimp only
  have hdropped : ∀ t ∈ dropped, t ∈ targets ++ dropped := fun t ht => mem_append_right _ ht
  have hdelete := Moves.deleteAttribute h (hspot.pos_ne h hdropped)
  have hput := Moves.put hdelete.holds hspot td (htd ▸ hne)
    (htd ▸ mem_append_left _ htarget) hdropped
  rw [htd] at hput
  have htwin : (⟨.bdaddrPublic, taddr.addr⟩ : TypedBdaddr) ∈
      (⟨⟨tdiHash taddr.addr, pos⟩, td⟩ :: left : List Slot).map Slot.taddr →
      (⟨.bdaddrPublic, taddr.addr⟩ : TypedBdaddr) ∈ targets ++ dropped := fun hmem => by
    refine mem_append_left _ ?_
    rcases mem_cons.mp hmem with heq | hmem
    · rw [heq]
      exact htd ▸ htarget
    · obtain ⟨y, hy, heq⟩ := List.mem_map.mp hmem
      exact haddr (List.mem_map.mpr ⟨y, hspot.mem_left y hy, heq⟩)
  obtain ⟨slots', hprio, hperm⟩ := exists_setPriority hput.holds htwin false
  refine .put hspot (hdelete.trans (hput.trans hprio)) (hperm.trans (Perm.of_eq ?_))
  exact congrArg (· :: left.map Slot.taddr) htd

theorem taddr_record (req : Tdl.AddAuthDeviceReq) (td : TdData) :
    (req.record td).taddr = td.taddr := rfl

theorem outcome_addDevice (h : Holds cfg s slots) (req : Tdl.AddAuthDeviceReq)
    (hreg : Regular cfg s (.addDevice req)) :
    Outcome cfg (Op.addDevice req).targets s slots (s.perform cfg (.addDevice req))
      (Op.kind s (.addDevice req)) := by
  change Outcome cfg _ s slots (s.connectionAuthAddDevice cfg req).2 _
  obtain ⟨hroomy, -⟩ := hreg
  have htarget : (⟨.bdaddrPublic, req.bdAddr⟩ : TypedBdaddr) ∈ (Op.addDevice req).targets :=
    mem_cons_self
  unfold Op.kind at hroomy ⊢
  dsimp only at hroomy ⊢
  unfold Tdl.connectionAuthAddDevice
  by_cases hl : (⟨.bdaddrPublic, req.bdAddr⟩ : TypedBdaddr) ∈ slots.map Slot.taddr
  · rw [if_pos (h.lists_iff.mpr hl)]
    obtain ⟨before, x, after, rfl, hx⟩ := exists_slot hl
    rw [h.tdlFindDevice_of_mem rfl hx]
    dsimp only
    by_cases hbonded : req.bonded = true
    · have hnot : ¬(!req.bonded) = true := by rw [hbonded]; exact Bool.false_ne_true
      rw [if_pos hbonded, if_neg hnot]
      by_cases hstored : req.isStored = true
      · rw [if_pos hstored]
        exact Outcome.replace_setPriority h hx htarget rfl
      · rw [if_neg hstored]
        exact Outcome.same h
    · have hnot : (!req.bonded) = true := by rw [Bool.eq_false_of_not_eq_true hbonded]; rfl
      have hstored : ¬ req.isStored = true := by
        unfold Tdl.AddAuthDeviceReq.isStored
        rw [Bool.eq_false_of_not_eq_true hbonded, Bool.false_and]
        exact Bool.false_ne_true
      rw [if_neg hbonded, if_pos hnot, if_neg hstored, deleteAttribute_delete, ← hx]
      exact Outcome.remove h (hx ▸ htarget)
  · have hnot : ¬ s.lists ⟨.bdaddrPublic, req.bdAddr⟩ = true :=
      fun hlists => hl (h.lists_iff.mp hlists)
    rw [if_neg hnot] at hroomy ⊢
    dsimp only
    rw [h.find_none hl]
    by_cases hstored : req.isStored = true
    · rw [if_pos hstored] at hroomy ⊢
      rw [if_pos hstored]
      exact Outcome.put_setPriority h hl (hroomy _ rfl)
        ((taddr_record req _).trans (taddr_pack ..)) htarget (fun _ => htarget)
    · rw [if_neg hstored]
      rw [if_neg hstored]
      exact .cleared rfl

theorem outcome_addDeviceRaw (h : Holds cfg s slots) (taddr : TypedBdaddr) (data : Option TdData)
    (hreg : Regular cfg s (.addDeviceRaw taddr data)) :
    Outcome cfg (Op.touched s (.addDeviceRaw taddr data)) s slots
      (s.perform cfg (.addDeviceRaw taddr data)) (Op.kind s (.addDeviceRaw taddr data)) := by
  change Outcome cfg _ s slots (s.connectionAuthAddDeviceRaw cfg taddr data).2 _
  obtain ⟨hroomy, hdata⟩ := hreg
  dsimp only at hdata
  unfold Op.kind Op.touched at *
  dsimp only at hroomy ⊢
  unfold Tdl.connectionAuthAddDeviceRaw
  dsimp only
  by_cases hl : taddr ∈ slots.map Slot.taddr
  · rw [h.lists_iff.mpr hl]
    obtain ⟨before, x, after, rfl, hx⟩ := exists_slot hl
    rw [h.tdlFindDevice_of_mem rfl hx]
    exact Outcome.same h
  · rw [h.lists_eq_false.mpr hl] at hroomy ⊢
    rw [h.find_none hl]
    cases data with
    | none => exact Outcome.same h
    | some td =>
      have htd : td.taddr = taddr := hdata (h.lists_eq_false.mpr hl) td rfl
      refine Outcome.put_setPriority h hl (hroomy _ rfl) htd ?_ fun hmem => ?_
      · split_ifs <;> exact mem_cons_self
      · rw [h.lists_iff.mpr hmem]
        exact mem_cons_of_mem _ mem_cons_self

theorem taddr_keys (keys : Tdl.DmSmKeys) (td : TdData) : (keys.record td).taddr = td.taddr := by
  have hfold : ∀ (ks : List (DmSmKeyType × List Uint16)) (p : TdData × Bool),
      (ks.foldl Tdl.DmSmKeys.pack p).1.taddr = p.1.taddr := fun ks => by
    induction ks with
    | nil => exact fun _ => rfl
    | cons k ks ih =>
      intro p
      rw [foldl_cons, ih]
      obtain ⟨type, key⟩ := k
      cases type <;> rfl
  unfold Tdl.DmSmKeys.record
  dsimp only
  split_ifs <;> exact hfold keys.keys (td, false)

theorem outcome_updateTdl (h : Holds cfg s slots) (taddr : TypedBdaddr) (keys : Tdl.DmSmKeys)
    (hreg : Regular cfg s (.updateTdl taddr keys)) :
    Outcome cfg (Op.updateTdl taddr keys).targets s slots
      (s.perform cfg (.updateTdl taddr keys)) (Op.kind s (.updateTdl taddr keys)) := by
  change Outcome cfg _ s slots (s.connectionAuthUpdateTdl cfg taddr keys) _
  obtain ⟨hroomy, -⟩ := hreg
  unfold Op.kind at hroomy ⊢
  dsimp only at hroomy ⊢
  unfold Tdl.connectionAuthUpdateTdl
  dsimp only
  by_cases hl : taddr ∈ slots.map Slot.taddr
  · rw [if_pos (h.lists_iff.mpr hl)]
    obtain ⟨before, x, after, rfl, rfl⟩ := exists_slot hl
    rw [h.tdlFindDevice_of_mem rfl rfl]
    exact Outcome.rewrite_touch h mem_cons_self (taddr_keys keys x.td)
  · have hnot : ¬ s.lists taddr = true := fun hlists => hl (h.lists_iff.mp hlists)
    rw [if_neg hnot] at hroomy ⊢
    have hne : ∀ y ∈ slots, y.taddr ≠ taddr := fun y hy heq => hl (List.mem_map.mpr ⟨y, hy, heq⟩)
    have hroom := hroomy _ rfl
    rw [h.records_eq] at hroom
    obtain ⟨pos, idx, dropped, left, hfind, hspot⟩ := h.exists_spot hne hroom
    rw [hfind]
    dsimp only [getD_none]
    have hdropped : ∀ t ∈ dropped, t ∈ (Op.updateTdl taddr keys).targets ++ dropped :=
      fun t ht => mem_append_right _ ht
    have hpos := hspot.pos_ne h hdropped
    have hdelete := Moves.deleteAttribute h hpos
    have hgatt := Moves.tdlGattAttribute hdelete.holds hpos (some (Tdl.newGattAttribute taddr))
    have htd : (keys.record (packTdBdaddr .zero taddr.type taddr.addr)).taddr = taddr :=
      (taddr_keys ..).trans (taddr_pack ..)
    have hput := Moves.put hgatt.holds hspot
      (keys.record (packTdBdaddr .zero taddr.type taddr.addr)) (by rw [htd]; exact hne)
      (by rw [htd]; exact mem_append_left _ mem_cons_self) hdropped
    rw [htd] at hput
    refine .put hspot (hdelete.trans (hgatt.trans hput)) (Perm.of_eq ?_)
    exact congrArg (· :: left.map Slot.taddr) htd

theorem outcome_deleteDevice (h : Holds cfg s slots) (taddr : TypedBdaddr) :
    Outcome cfg (Op.deleteDevice taddr).targets s slots
      (s.perform cfg (.deleteDevice taddr)) (Op.kind s (.deleteDevice taddr)) := by
  change Outcome cfg _ s slots (s.connectionAuthDeleteDevice cfg taddr).2 _
  unfold Tdl.connectionAuthDeleteDevice Op.kind
  dsimp only
  rw [h.records_eq]
  by_cases hl : taddr ∈ slots.map Slot.taddr
  · obtain ⟨before, x, after, rfl, rfl⟩ := exists_slot hl
    rw [h.tdlFindDevice_of_mem rfl rfl]
    dsimp only
    by_cases hprio : (!x.td.content.priorityDevice) = true
    · rw [if_pos hprio, if_pos (List.any_eq_true.mpr ⟨x.td, List.mem_map_of_mem
        (mem_append_right _ mem_cons_self), ?_⟩), deleteAttribute_delete]
      · exact Outcome.remove h mem_cons_self
      · rw [hprio, Bool.and_true]
        exact decide_eq_true rfl
    · rw [if_neg hprio, if_neg]
      · exact Outcome.same h
      · intro hany
        obtain ⟨td, htd, hkind⟩ := List.any_eq_true.mp hany
        obtain ⟨y, hy, rfl⟩ := List.mem_map.mp htd
        obtain ⟨htaddr, hyprio⟩ := Bool.and_eq_true_iff.mp hkind
        rcases (perm_middle.mem_iff.mp hy |> mem_cons.mp) with rfl | hy
        · exact hprio hyprio
        · exact taddr_ne_of_split h y hy (of_decide_eq_true htaddr)
  · rw [h.find_none hl, if_neg]
    · exact Outcome.same h
    · intro hany
      obtain ⟨td, htd, hkind⟩ := List.any_eq_true.mp hany
      obtain ⟨y, hy, rfl⟩ := List.mem_map.mp htd
      obtain ⟨htaddr, -⟩ := Bool.and_eq_true_iff.mp hkind
      exact hl (List.mem_map.mpr ⟨y, hy, of_decide_eq_true htaddr⟩)

theorem outcome_deleteDeviceFromTdl (h : Holds cfg s slots) (taddr : TypedBdaddr) :
    Outcome cfg (Op.deleteDeviceFromTdl taddr).targets s slots
      (s.perform cfg (.deleteDeviceFromTdl taddr)) (Op.kind s (.deleteDeviceFromTdl taddr)) := by
  change Outcome cfg _ s slots (s.connectionAuthDeleteDeviceFromTdl cfg taddr) _
  unfold Tdl.connectionAuthDeleteDeviceFromTdl Op.kind
  dsimp only
  by_cases hl : taddr ∈ slots.map Slot.taddr
  · rw [if_pos (h.lists_iff.mpr hl)]
    obtain ⟨before, x, after, rfl, rfl⟩ := exists_slot hl
    rw [h.tdlFindDevice_of_mem rfl rfl]
    exact Outcome.remove h mem_cons_self
  · have hnot : ¬ s.lists taddr = true := fun hlists => hl (h.lists_iff.mp hlists)
    rw [if_neg hnot, h.find_none hl]
    exact Outcome.same h

/-- The device of the last record is the last one. -/
theorem after_eq_nil (h : Holds cfg s (before ++ x :: after))
    (hlast : ((before ++ x :: after).map Slot.td).getLast?.map TdData.taddr = some x.taddr) :
    after = [] := by
  rcases eq_nil_or_concat after with rfl | ⟨front, y, rfl⟩
  · rfl
  · rw [concat_eq_append, ← cons_append, ← append_assoc, map_append,
      map_cons, map_nil, getLast?_concat, map_some] at hlast
    refine absurd (some.inj hlast) (taddr_ne_of_split h y ?_)
    rw [concat_eq_append]
    exact mem_append_right _ (mem_append_right _ mem_cons_self)

theorem outcome_duplicate (h : Holds cfg s slots) (existingAddr newAddr : Bdaddr)
    (hreg : Regular cfg s (.duplicate existingAddr newAddr)) :
    Outcome cfg (Op.duplicate existingAddr newAddr).targets s slots
      (s.perform cfg (.duplicate existingAddr newAddr))
      (Op.kind s (.duplicate existingAddr newAddr)) := by
  change Outcome cfg _ s slots (s.connectionTrustedDeviceListDuplicate cfg existingAddr newAddr).2 _
  obtain ⟨hroomy, hlast⟩ := hreg
  unfold Op.kind at hroomy ⊢
  dsimp only at hroomy hlast ⊢
  unfold Tdl.connectionTrustedDeviceListDuplicate
  by_cases hzero : (existingAddr.isZero || newAddr.isZero) = true
  · rw [if_pos hzero, hzero]
    exact Outcome.same h
  rw [if_neg hzero]
  rw [Bool.eq_false_of_not_eq_true hzero, Bool.false_or] at hroomy hlast ⊢
  by_cases hexisting : (⟨.bdaddrPublic, existingAddr⟩ : TypedBdaddr) ∈ slots.map Slot.taddr
  · rw [h.lists_iff.mpr hexisting] at hroomy hlast ⊢
    obtain ⟨front, e, back, hsplit, he⟩ := exists_slot hexisting
    rw [h.tdlFindDevice_of_mem hsplit he]
    dsimp only
    generalize htd : packTdBdaddr e.td .bdaddrPublic newAddr = td
    have htaddr : td.taddr = ⟨.bdaddrPublic, newAddr⟩ := by rw [← htd, taddr_pack]
    by_cases hl : (⟨.bdaddrPublic, newAddr⟩ : TypedBdaddr) ∈ slots.map Slot.taddr
    · have hlists := h.lists_iff.mpr hl
      rw [hlists]
      replace hlast := hlast rfl hlists
      obtain ⟨before, x, after, rfl, hx⟩ := exists_slot hl
      obtain rfl : after = [] := by
        rw [h.records_eq] at hlast
        exact after_eq_nil h (hx ▸ hlast)
      rw [h.tdlFindDevice_of_mem rfl hx]
      dsimp only
      have hin : x.taddr ∈ (Op.duplicate existingAddr newAddr).targets := by
        rw [hx]
        exact mem_cons_self
      have hdelete := Moves.deleteFromTrustedDeviceList h hin
      rw [append_nil] at hdelete
      have hne := taddr_ne_of_split h
      have hpos := pos_ne_of_split h.stored
      rw [append_nil] at hne hpos
      have hroom : before.length < cfg.maxTrustedDevices := by
        have hle := h.stored.le
        rw [length_append, length_cons, length_nil] at hle
        omega
      have hspot : Spot cfg before x.pos before.length [] before :=
        .free (fun hmem => by
          obtain ⟨y, hy, heq⟩ := List.mem_map.mp hmem
          exact hpos y hy heq)
          (h.stored.pos_lt x (mem_append_right _ mem_cons_self)) hroom
      have hin' : td.taddr ∈ (Op.duplicate existingAddr newAddr).targets := by
        rw [htaddr, ← hx]
        exact hin
      have hput := Moves.put hdelete.holds hspot td (by rw [htaddr, ← hx]; exact hne) hin'
        (fun t ht => by cases ht)
      rw [htaddr] at hput
      refine .kept (hdelete.trans hput) ?_
      rw [map_cons, map_append, map_cons, map_nil]
      refine List.Perm.trans (Perm.of_eq ?_) (perm_append_singleton _ _).symm
      exact congrArg (· :: before.map Slot.taddr) (htaddr.trans hx.symm)
    · rw [h.lists_eq_false.mpr hl] at hroomy ⊢
      have hne : ∀ y ∈ slots, y.taddr ≠ ⟨.bdaddrPublic, newAddr⟩ :=
        fun y hy heq => hl (List.mem_map.mpr ⟨y, hy, heq⟩)
      have hroom := hroomy _ rfl
      rw [h.records_eq] at hroom
      obtain ⟨pos, idx, dropped, left, hfind, hspot⟩ := h.exists_spot hne hroom
      rw [hfind]
      have hin : td.taddr ∈ (Op.duplicate existingAddr newAddr).targets ++ dropped := by
        rw [htaddr]
        exact mem_append_left _ mem_cons_self
      have hput := Moves.put h hspot td (by rw [htaddr]; exact hne) hin
        (fun t ht => mem_append_right _ ht)
      rw [htaddr] at hput
      refine .put hspot hput (Perm.of_eq ?_)
      exact congrArg (· :: left.map Slot.taddr) htaddr
  · rw [h.lists_eq_false.mpr hexisting]
    rw [h.find_none hexisting]
    exact Outcome.same h

/-- **What an operation on one device does to the list.** -/
theorem outcome_perform (h : Holds cfg s slots) {op : Op} (hreg : Regular cfg s op)
    (hop : op ≠ .deleteAllDevice) :
    Outcome cfg (op.touched s) s slots (s.perform cfg op) (op.kind s) := by
  cases op with
  | addDevice req => exact outcome_addDevice h req hreg
  | addDeviceRaw taddr data => exact outcome_addDeviceRaw h taddr data hreg
  | updateTdl taddr keys => exact outcome_updateTdl h taddr keys hreg
  | replaceIrk addr newIrk => exact outcome_replaceIrk h addr newIrk
  | deleteDevice taddr => exact outcome_deleteDevice h taddr
  | deleteAllDevice => exact absurd rfl hop
  | deleteDeviceFromTdl taddr => exact outcome_deleteDeviceFromTdl h taddr
  | setPriorityDevice addr isPriorityDevice =>
    exact outcome_setPriorityDevice h addr isPriorityDevice
  | updateMru addr => exact outcome_updateMru h addr
  | setTrustLevel addr trusted => exact outcome_setTrustLevel h addr trusted
  | setBlePrivacyMode taddr mode => exact outcome_setBlePrivacyMode h taddr mode
  | duplicate existingAddr newAddr => exact outcome_duplicate h existingAddr newAddr hreg
  | putAttribute taddr data => exact outcome_putAttribute h taddr data
  | putGattAttribute taddr data => exact outcome_putGattAttribute h taddr data

end Perform

end Mh40.TrustedDevices
