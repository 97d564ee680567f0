import Mh40.TrustedDevices.Invariant

/-!
# Losing power

Power is lost between two calls of `PsStore`, each of which is atomic, and the library starts again
from what has been stored.

* `Event`, `powerStep`: operations, and operations during which power is lost.
* `Recovers`: an operation leaves a list, and the store stands for one before each of its calls.
* `outlives_of_safe`: the step; `meets_outlives`: the run, from an empty store.
* `not_outlives_deleteAll`: the index still names the first device that is deleted.
-/

namespace Mh40.TrustedDevices

open Lib List Option

/-- An operation, or one during which power is lost after some calls of `PsStore`. -/
inductive Event
  | perform (op : Op)
  | cut (op : Op) (calls : ℕ)
deriving DecidableEq, Repr

section Model

variable (cfg : Config) (s : Tdl)

/-- The calls of `PsStore` of an operation. -/
def Tdl.callsOf (op : Op) : List PsWrite := (s.perform cfg op).writes.drop s.writes.length

/-- What is stored when power is lost. -/
def Tdl.cutAt (op : Op) (calls : ℕ) : Ps := ((s.callsOf cfg op).take calls).foldl Ps.store s.ps

/-- After power is lost, the library starts again. -/
def powerStep : Event → Option Tdl
  | .perform op => some (s.perform cfg op)
  | .cut op calls => connectionInitTrustedDeviceList cfg (s.cutAt cfg op calls)

/-- The devices without the priority flag. -/
def Tdl.ordinary : List TdData := s.records.filter fun td => !td.content.priorityDevice

/-- The addresses that an operation is about, with that of the device that makes room for a new one
in a full list. -/
def Op.about (op : Op) : List TypedBdaddr :=
  op.targets ++ match op with
    | .deleteAllDevice => s.ordinary.map TdData.taddr
    | op => match op.kind s with
      | .put taddr =>
        if s.records.length < cfg.maxTrustedDevices then []
        else ((s.ps.record (s.tdlFindDevice cfg taddr).pos).map TdData.taddr).toList
      | _ => []

/-- What losing power is to do: the library starts again, and devices that the operation, which has
not made all its calls, was not about are still listed with their records. -/
def Outlives : Event → Prop
  | .perform _ => True
  | .cut op calls => ∃ s', connectionInitTrustedDeviceList cfg (s.cutAt cfg op calls) = some s' ∧
    (calls < (s.callsOf cfg op).length → ∀ td ∈ s.records, td.taddr ∉ op.about cfg s →
      (s'.tdlFindDevice cfg td.taddr).td = some td)

/-- An operation on one device that keeps to `Regular`, or copies to a device that is listed. -/
def Sturdy (op : Op) : Prop :=
  Regular cfg s op ∨ ∃ existingAddr newAddr, op = .duplicate existingAddr newAddr ∧
    s.lists ⟨.bdaddrPublic, newAddr⟩ = true

/-- Power is not lost while the records of all devices are being deleted, nor while raw data are
added next to a device with the same address, but a public one. -/
def Safe : Event → Prop
  | .perform op => Sturdy cfg s op
  | .cut .deleteAllDevice calls =>
    calls = 0 ∨ 3 * s.ordinary.length < calls ∧ Regular cfg s .deleteAllDevice
  | .cut op _ => Sturdy cfg s op ∧ op.touched s = op.targets

end Model

variable {cfg : Config} {s s' s'' : Tdl} {ps : Ps} {slots slots' : List Slot} {kept : List TdData}
  {taddr : TypedBdaddr} {op : Op}

/-- The library starts from a store that stands for a list, and finds what is on it. -/
theorem boot_survive (h : Survive cfg kept ps) :
    ∃ s', connectionInitTrustedDeviceList cfg ps = some s' ∧ (∃ slots, Holds cfg s' slots) ∧
      ∀ td ∈ kept, (s'.tdlFindDevice cfg td.taddr).td = some td := by
  obtain ⟨slots, hstored, hkept⟩ := h
  obtain ⟨s', hboot, -, hholds⟩ := boot_of_stored hstored
  refine ⟨s', hboot, ⟨_, hholds⟩, fun td htd => ?_⟩
  have hmem := hkept td htd
  rw [← map_td_booted] at hmem
  obtain ⟨x, hx, rfl⟩ := List.mem_map.mp hmem
  obtain ⟨before, after, hsplit⟩ := append_of_mem hx
  rw [hholds.tdlFindDevice_of_mem hsplit (show x.taddr = x.td.taddr from rfl)]

/-- An operation leaves a list, and before each of its calls the store stands for one that the
records are on. -/
def Recovers (cfg : Config) (kept : List TdData) (s s' : Tdl) : Prop :=
  (∃ slots, Holds cfg s' slots) ∧ ∃ ws, s'.writes = s.writes ++ ws ∧
    s'.ps = ws.foldl Ps.store s.ps ∧
    ∀ n < ws.length, Survive cfg kept ((ws.take n).foldl Ps.store s.ps)

theorem Recovers.of_cuts (h : Holds cfg s' slots) (hcuts : Cuts (Survive cfg kept) s s') :
    Recovers cfg kept s s' := by
  obtain ⟨ws, hwrites, hps, hcut⟩ := hcuts
  exact ⟨⟨_, h⟩, ws, hwrites, hps, fun n _ => hcut n⟩

/-- The last call may be the one that takes a device off. -/
theorem Recovers.storeTrustedDeviceIndex {tdi : List Element} (hcuts : Cuts (Survive cfg kept) s s')
    (h : Holds cfg (s'.storeTrustedDeviceIndex cfg tdi) slots) :
    Recovers cfg kept s (s'.storeTrustedDeviceIndex cfg tdi) := by
  obtain ⟨ws, hwrites, hps, hcut⟩ := hcuts
  refine ⟨⟨_, h⟩, ?_⟩
  unfold Tdl.storeTrustedDeviceIndex
  by_cases hsame : tdi ≠ s'.tdi
  · rw [if_pos hsame]
    refine ⟨ws ++ [.index (some (packOrders cfg.tdiSize (tdi.map Element.order)))], ?_, ?_,
      fun n hn => ?_⟩
    · change s'.writes ++ _ = _
      rw [hwrites, append_assoc]
    · rw [foldl_append, ← hps]
      rfl
    · rw [length_append, length_singleton] at hn
      rw [take_append_of_le_length (Nat.le_of_lt_succ hn)]
      exact hcut n
  · rw [if_neg hsame]
    exact ⟨ws, hwrites, hps, fun n _ => hcut n⟩

/-- **Power is lost during an operation that recovers.** -/
theorem boot_cut (h : Recovers cfg kept s (s.perform cfg op)) (calls : ℕ) :
    ∃ s', connectionInitTrustedDeviceList cfg (s.cutAt cfg op calls) = some s' ∧
      (∃ slots, Holds cfg s' slots) ∧ (calls < (s.callsOf cfg op).length →
        ∀ td ∈ kept, (s'.tdlFindDevice cfg td.taddr).td = some td) := by
  obtain ⟨⟨slots, hholds⟩, ws, hwrites, hps, hcut⟩ := h
  have hcalls : s.callsOf cfg op = ws := by
    unfold Tdl.callsOf
    rw [hwrites, drop_left]
  unfold Tdl.cutAt
  rw [hcalls]
  by_cases hlt : calls < ws.length
  · obtain ⟨s', hboot, hslots, hfound⟩ := boot_survive (hcut calls hlt)
    exact ⟨s', hboot, hslots, fun _ => hfound⟩
  · rw [take_of_length_le (Nat.le_of_not_lt hlt), ← hps]
    obtain ⟨s', hboot, -, hslots⟩ := boot_of_stored hholds.stored
    exact ⟨s', hboot, ⟨_, hslots⟩, fun h => absurd h hlt⟩

/-! ## Copies over listed devices -/

/-- A record is stored at a free position, and the element at some index is moved to the front for
it: the device of that element, if there is any, is no longer listed. -/
theorem recovers_replace {before after : List Slot} {pos : ℕ} {td : TdData}
    (h : Holds cfg s (before ++ after)) (hpos : pos ∉ (before ++ after).map Slot.pos)
    (hroom : (before ++ after).length < cfg.maxTrustedDevices) (hlt : pos < cfg.maxTrustedDevices)
    (hne : ∀ y ∈ before ++ after, y.taddr ≠ td.taddr) :
    Holds cfg (((s.psStore (.record pos (some td))).setHash before.length (tdiHash td.taddr.addr))
        |>.updateTrustedDeviceIndex cfg pos before.length)
      (⟨⟨tdiHash td.taddr.addr, pos⟩, td⟩ :: (before ++ after.tail)) ∧
    Cuts (Survive cfg ((before ++ after).map Slot.td)) s
      ((s.psStore (.record pos (some td))).setHash before.length (tdiHash td.taddr.addr)) := by
  have hstored := h.stored.record_free hpos (some td)
  have hcuts : Cuts (Survive cfg ((before ++ after).map Slot.td)) s
      (s.psStore (.record pos (some td))) :=
    Cuts.psStore ⟨_, h.stored, fun _ htd => htd⟩ ⟨_, hstored, fun _ htd => htd⟩
  refine ⟨?_, hcuts.of_eq rfl rfl⟩
  -- the element at the index is that of the next device, or an unused one
  obtain ⟨e, es, htdi, hes⟩ : ∃ e es, s.tdi =
      before.map Slot.element ++ e :: (after.tail.map Slot.element ++ es) ∧
      ∀ e' ∈ es, e'.order = tdiOrderUnused := by
    obtain ⟨rest, hrest, hunused⟩ := h.tdi
    rw [map_append, append_assoc] at hrest
    cases after with
    | nil =>
      obtain ⟨e, es, rfl⟩ : ∃ e es, rest = e :: es := by
        refine exists_cons_of_ne_nil fun hnil => ?_
        have hlength := h.length
        have hcfg := cfg.le
        rw [hrest, hnil] at hlength
        simp only [map_nil, append_nil, length_map] at hlength hroom
        omega
      exact ⟨e, es, hrest, fun e' he' => hunused e' (mem_cons_of_mem e he')⟩
    | cons y after => exact ⟨y.element, rest, hrest, hunused⟩
  have hsub : ∀ y ∈ before ++ after.tail, y ∈ before ++ after := fun y hy =>
    (mem_append.mp hy).elim (mem_append_left _)
      fun hy => mem_append_right _ (mem_of_mem_tail hy)
  have hsublist : (before ++ after.tail).Sublist (before ++ after) :=
    (tail_sublist after).append_left before
  generalize hhash : tdiHash td.taddr.addr = hash
  generalize hs1 : (s.psStore (.record pos (some td))).setHash before.length hash = s₁
  have hps : s₁.ps = s.ps.store (.record pos (some td)) := by rw [← hs1]; rfl
  have hlen : before.length = (before.map Slot.element).length := (length_map _).symm
  have htdi1 : s₁.tdi = before.map Slot.element ++
      { e with hash := hash } :: (after.tail.map Slot.element ++ es) := by
    rw [← hs1]
    change s.tdi.modify before.length _ = _
    rw [htdi, hlen, modify_length]
  have hlt1 : before.length < s₁.tdi.length := by
    rw [htdi1, length_append, length_map, length_cons]
    omega
  have hget : s₁.tdi.getD before.length .unused = { e with hash := hash } := by
    rw [htdi1, getD_append_right _ _ _ _ (by rw [length_map]), length_map,
      Nat.sub_self, getD_cons_zero]
  have herase : s₁.tdi.eraseIdx before.length =
      (before ++ after.tail).map Slot.element ++ es := by
    rw [htdi1, hlen, eraseIdx_length, map_append, append_assoc]
  have hpacked : (readTrustedDeviceIndex cfg s₁.ps).map Element.order =
      s₁.tdi.map Element.order := by
    rw [hps, htdi1]
    refine h.packed.trans ?_
    rw [htdi]
    simp only [map_append, map_cons]
  unfold Tdl.updateTrustedDeviceIndex
  dsimp only
  rw [hget, Tdl.moveDown_set hlt1, herase]
  refine Holds.storeTrustedDeviceIndex hpacked rfl hes ?_ ?_ ?_ ?_ ?_ ?_ ?_
  · rw [length_cons, ← herase, length_eraseIdx_of_lt hlt1, htdi1, ← h.length, htdi]
    simp only [length_append, length_cons]
    omega
  · exact Nat.lt_of_le_of_lt hsublist.length_le hroom
  · intro y hy
    rcases mem_cons.mp hy with rfl | hy
    · exact hlt
    · exact h.stored.pos_lt y (hsub y hy)
  · refine nodup_cons.mpr ⟨fun hmem => hpos ?_, (hsublist.map Slot.pos).nodup h.stored.nodup⟩
    exact (hsublist.map Slot.pos).mem hmem
  · intro y hy
    rw [hps]
    rcases mem_cons.mp hy with rfl | hy
    · exact Function.update_self ..
    · exact hstored.record y (hsub y hy)
  · refine nodup_cons.mpr ⟨fun hmem => ?_, (hsublist.map Slot.taddr).nodup h.stored.taddrs⟩
    obtain ⟨y, hy, heq⟩ := List.mem_map.mp hmem
    exact hne y (hsub y hy) heq
  · intro y hy
    rcases mem_cons.mp hy with rfl | hy
    · exact .inr hhash.symm
    · exact h.hash y (hsub y hy)

/-- A copy to a listed device takes its place, and that of the next one, if there is any. -/
theorem recovers_duplicate {existingAddr newAddr : Bdaddr} (h : Holds cfg s slots)
    (hl : (⟨.bdaddrPublic, newAddr⟩ : TypedBdaddr) ∈ slots.map Slot.taddr) :
    Recovers cfg ((otherSlots [⟨.bdaddrPublic, newAddr⟩] slots).map Slot.td) s
      (s.perform cfg (.duplicate existingAddr newAddr)) := by
  change Recovers cfg _ s (s.connectionTrustedDeviceListDuplicate cfg existingAddr newAddr).2
  have hsame : Recovers cfg ((otherSlots [⟨.bdaddrPublic, newAddr⟩] slots).map Slot.td) s s :=
    Recovers.of_cuts h (Cuts.refl (h.stored.survive rfl))
  unfold Tdl.connectionTrustedDeviceListDuplicate
  by_cases hzero : (existingAddr.isZero || newAddr.isZero) = true
  · rw [if_pos hzero]
    exact hsame
  rw [if_neg hzero]
  by_cases hexisting : (⟨.bdaddrPublic, existingAddr⟩ : TypedBdaddr) ∈ slots.map Slot.taddr
  swap
  · rw [h.find_none hexisting]
    exact hsame
  obtain ⟨front, e, back, hsplit, he⟩ := exists_slot hexisting
  rw [h.tdlFindDevice_of_mem hsplit he]
  dsimp only
  generalize htd : packTdBdaddr e.td .bdaddrPublic newAddr = td
  have htaddr : td.taddr = ⟨.bdaddrPublic, newAddr⟩ := by rw [← htd, taddr_pack]
  clear hsplit he hexisting
  obtain ⟨before, x, after, rfl, hx⟩ := exists_slot hl
  rw [h.tdlFindDevice_of_mem rfl hx]
  dsimp only
  have hdelete :
      Moves cfg [⟨.bdaddrPublic, newAddr⟩] s (before ++ x :: after) _ (before ++ after) :=
    Moves.deleteFromTrustedDeviceList h (hx ▸ mem_cons_self)
  have hfree : x.pos ∉ (before ++ after).map Slot.pos := fun hmem => by
    obtain ⟨y, hy, heq⟩ := List.mem_map.mp hmem
    exact pos_ne_of_split h.stored y hy heq
  have hroom : (before ++ after).length < cfg.maxTrustedDevices := by
    have hle := h.stored.le
    rw [length_append, length_cons] at hle
    rw [length_append]
    omega
  have hlt := h.stored.pos_lt x (mem_append_right _ mem_cons_self)
  have hothers := taddr_ne_of_split h
  rw [hx, ← htaddr] at hothers
  generalize s.deleteFromTrustedDeviceList cfg x.pos before.length = s₁ at hdelete
  obtain ⟨hholds, hcuts⟩ := recovers_replace hdelete.holds hfree hroom hlt hothers
  rw [htaddr] at hholds
  refine Recovers.storeTrustedDeviceIndex (hdelete.cuts.trans ?_) hholds
  rw [← map_td_eq hdelete.others]
  obtain ⟨ws, hwrites, hps, hcut⟩ := hcuts
  refine ⟨ws, hwrites, hps, fun n => ?_⟩
  obtain ⟨slots', hstored, hkept⟩ := hcut n
  refine ⟨slots', hstored, fun td' htd' => hkept td' ?_⟩
  obtain ⟨y, hy, rfl⟩ := List.mem_map.mp htd'
  exact List.mem_map_of_mem (mem_of_mem_filter hy)

/-! ## The step -/

/-- Records of other devices than those an operation is about. -/
theorem mem_others (h : Holds cfg s slots) {about about' : List TypedBdaddr}
    (hsub : ∀ t ∈ about, t ∈ about') :
    ∀ td ∈ s.records, td.taddr ∉ about' → td ∈ (otherSlots about slots).map Slot.td := by
  intro td htd hnot
  rw [h.records_eq] at htd
  obtain ⟨x, hx, rfl⟩ := List.mem_map.mp htd
  exact List.mem_map_of_mem
    (mem_filter.mpr ⟨hx, decide_eq_true fun hmem => hnot (hsub _ hmem)⟩)

/-- The device that makes room is one that the operation is about. -/
theorem Spot.mem_about {pos idx : ℕ} {dropped : List TypedBdaddr} {left : List Slot}
    (hspot : Spot cfg slots pos idx dropped left) (h : Holds cfg s slots)
    (hop : op ≠ .deleteAllDevice) (hkind : op.kind s = .put taddr) :
    ∀ t ∈ dropped, t ∈ op.about cfg s := by
  intro t ht
  cases hspot with
  | free hpos hlt hroom => cases ht
  | @victim before after x hslots hvictim hfull =>
    obtain rfl := mem_singleton.mp ht
    have hl := h.lists_eq_false.mp (kind_put hkind).2
    have hfind := h.tdlFindDevice_of_isVictim
      (fun y hy heq => hl (List.mem_map.mpr ⟨y, hy, heq⟩)) (Nat.not_lt.mpr hfull.ge) hslots hvictim
    have hrecord := h.stored.record x (hslots ▸ mem_append_right _ mem_cons_self)
    have hnot : ¬ s.records.length < cfg.maxTrustedDevices := by
      rw [h.records_eq, length_map, hfull]
      exact Nat.lt_irrefl _
    refine mem_append_right _ ?_
    cases op <;> first
    | exact absurd rfl hop
    | dsimp only
      rw [hkind]
      dsimp only
      rw [if_neg hnot, hfind, hrecord]
      exact mem_cons_self

/-- An operation on one device recovers. -/
theorem recovers_perform (h : Holds cfg s slots) (hsturdy : Sturdy cfg s op)
    (htouched : op.touched s = op.targets) (hop : op ≠ .deleteAllDevice) :
    ∃ kept, Recovers cfg kept s (s.perform cfg op) ∧
      ∀ td ∈ s.records, td.taddr ∉ op.about cfg s → td ∈ kept := by
  rcases hsturdy with hreg | ⟨existingAddr, newAddr, rfl, hlists⟩
  · have houtcome := outcome_perform h hreg hop
    rw [htouched] at houtcome
    have htargets : ∀ t ∈ op.targets, t ∈ op.about cfg s := fun t ht => mem_append_left _ ht
    generalize hkind : op.kind s = kind at houtcome
    cases houtcome with
    | kept hmoves hperm =>
      exact ⟨_, .of_cuts hmoves.holds hmoves.cuts, mem_others h htargets⟩
    | put hspot hmoves hperm =>
      refine ⟨_, .of_cuts hmoves.holds hmoves.cuts, mem_others h fun t ht => ?_⟩
      exact (mem_append.mp ht).elim (htargets t) (hspot.mem_about h hop hkind t)
    | removed hslots hmoves hattribute hgatt =>
      exact ⟨_, .of_cuts hmoves.holds hmoves.cuts, mem_others h htargets⟩
    | cleared heq =>
      rw [heq]
      obtain ⟨hholds, -, hcuts⟩ := h.deleteAttribute _
      refine ⟨_, .of_cuts hholds hcuts, fun td htd _ => ?_⟩
      rwa [h.records_eq] at htd
  · refine ⟨_, recovers_duplicate h (h.lists_iff.mp hlists), mem_others h fun t ht => ?_⟩
    exact mem_append_left _ ht

/-- An operation leaves a list. -/
theorem holds_perform (h : Holds cfg s slots) (hsturdy : Sturdy cfg s op) :
    ∃ slots', Holds cfg (s.perform cfg op) slots' := by
  rcases hsturdy with hreg | ⟨existingAddr, newAddr, rfl, hlists⟩
  · by_cases hop : op = .deleteAllDevice
    · subst hop
      have hfirst := hreg.2
      dsimp only at hfirst
      rw [h.records_eq, pairwise_map] at hfirst
      exact ⟨_, (clears_deleteAllDevice h hfirst).holds⟩
    · have houtcome := outcome_perform h hreg hop
      generalize op.kind s = kind at houtcome
      cases houtcome with
      | kept hmoves hperm | put hspot hmoves hperm | removed hslots hmoves hattribute hgatt =>
        exact ⟨_, hmoves.holds⟩
      | cleared heq =>
        rw [heq]
        exact ⟨_, (h.deleteAttribute _).1⟩
  · exact (recovers_duplicate h (h.lists_iff.mp hlists)).1

theorem length_clears {slots : List Slot} :
    (s.clears slots).writes.length = s.writes.length + 3 * slots.length := by
  induction slots generalizing s with
  | nil => rfl
  | cons x slots ih =>
    have hstep : ((s.clear x.pos).clears slots).writes.length = _ := ih
    change ((s.clear x.pos).clears slots).writes.length = _
    rw [hstep]
    change (s.writes ++ [_] ++ [_] ++ [_]).length + _ = _
    simp only [length_append, length_cons, length_nil]
    omega

theorem length_storeTrustedDeviceIndex (tdi : List Element) :
    (s.storeTrustedDeviceIndex cfg tdi).writes.length ≤ s.writes.length + 1 := by
  unfold Tdl.storeTrustedDeviceIndex
  split_ifs
  · exact Nat.le_of_eq (length_append ..)
  · exact Nat.le_succ _

/-- Deleting all devices makes three calls for each of them, and one for the index. -/
theorem length_callsOf_deleteAll (h : Holds cfg s slots) :
    (s.callsOf cfg .deleteAllDevice).length ≤ 3 * s.ordinary.length + 1 := by
  have hordinary : s.ordinary.length = (ordinarySlots slots).length := by
    unfold Tdl.ordinary ordinarySlots
    rw [h.records_eq, List.filter_map, length_map]
    rfl
  obtain ⟨rest, htake, hrest, -⟩ := h.exists_take
  have hloop := @deleteAllLoop_eq s slots rest hrest h.stored.record h.pos_ne_unused h.stored.nodup
  have hclears := @length_clears s (ordinarySlots slots)
  unfold Tdl.callsOf
  rw [length_drop, hordinary]
  change (s.connectionAuthDeleteAllDevice cfg).2.writes.length - _ ≤ _
  unfold Tdl.connectionAuthDeleteAllDevice
  rw [htake, hloop]
  dsimp only
  split_ifs
  · have hstore := @length_storeTrustedDeviceIndex cfg (s.clears (ordinarySlots slots))
      (slots.map Slot.leftElement ++ rest ++ s.tdi.drop cfg.maxTrustedDevices)
    dsimp only
    omega
  · dsimp only
    omega

theorem cuts_clears {slots : List Slot} : Cuts (fun _ => True) s (s.clears slots) := by
  induction slots generalizing s with
  | nil => exact Cuts.refl trivial
  | cons x slots ih =>
    have hclear : Cuts (fun _ => True) s (s.clear x.pos) :=
      ((Cuts.psStore trivial trivial).trans (Cuts.psStore trivial trivial)).trans
        (Cuts.psStore trivial trivial)
    exact hclear.trans ih

/-- After all its calls, deleting all devices has stored what it stores. -/
theorem cutAt_deleteAll (h : Holds cfg s slots) {calls : ℕ}
    (hcalls : (s.callsOf cfg .deleteAllDevice).length ≤ calls) :
    s.cutAt cfg .deleteAllDevice calls = (s.perform cfg .deleteAllDevice).ps := by
  have hcuts : Cuts (fun _ => True) s (s.perform cfg .deleteAllDevice) := by
    obtain ⟨rest, htake, hrest, -⟩ := h.exists_take
    change Cuts _ s (s.connectionAuthDeleteAllDevice cfg).2
    unfold Tdl.connectionAuthDeleteAllDevice
    rw [htake, deleteAllLoop_eq hrest h.stored.record h.pos_ne_unused h.stored.nodup]
    dsimp only
    split_ifs
    · exact cuts_clears.trans (Cuts.storeTrustedDeviceIndex trivial trivial)
    · exact cuts_clears
  obtain ⟨ws, hwrites, hps, -⟩ := hcuts
  have heq : s.callsOf cfg .deleteAllDevice = ws := by
    unfold Tdl.callsOf
    rw [hwrites, drop_left]
  unfold Tdl.cutAt
  rw [take_of_length_le hcalls, heq, hps]

/-- **The step.** Power is lost during an operation that keeps to `Safe`. -/
theorem outlives_of_safe (h : Holds cfg s slots) {e : Event} (hsafe : Safe cfg s e) :
    Outlives cfg s e ∧ ∀ s', powerStep cfg s e = some s' → ∃ slots', Holds cfg s' slots' := by
  cases e with
  | perform op =>
    refine ⟨trivial, fun s' hstep => ?_⟩
    obtain rfl := some.inj hstep
    exact holds_perform h hsafe
  | cut op calls =>
    have hmain : ∃ s', connectionInitTrustedDeviceList cfg (s.cutAt cfg op calls) = some s' ∧
        (∃ slots, Holds cfg s' slots) ∧ (calls < (s.callsOf cfg op).length →
          ∀ td ∈ s.records, td.taddr ∉ op.about cfg s →
            (s'.tdlFindDevice cfg td.taddr).td = some td) := by
      by_cases hop : op = .deleteAllDevice
      · subst hop
        rcases (hsafe : calls = 0 ∨ _) with rfl | ⟨hcalls, hreg⟩
        · obtain ⟨s', hboot, hslots, hfound⟩ :=
            boot_survive ⟨slots, h.stored, fun td (htd : td ∈ slots.map Slot.td) => htd⟩
          refine ⟨s', hboot, hslots, fun _ td htd _ => hfound td ?_⟩
          rwa [h.records_eq] at htd
        · have hle := length_callsOf_deleteAll h
          obtain ⟨slots', hholds⟩ := holds_perform h (.inl hreg)
          obtain ⟨s', hboot, -, hslots⟩ := boot_of_stored hholds.stored
          rw [← cutAt_deleteAll h (show _ ≤ calls by omega)] at hboot
          exact ⟨s', hboot, ⟨_, hslots⟩, fun hlt => absurd hlt (by omega)⟩
      · have hsturdy : Sturdy cfg s op ∧ op.touched s = op.targets := by
          cases op <;> first
          | exact absurd rfl hop
          | exact hsafe
        obtain ⟨kept, hrecovers, hkept⟩ := recovers_perform h hsturdy.1 hsturdy.2 hop
        obtain ⟨s', hboot, hslots, hfound⟩ := boot_cut hrecovers calls
        exact ⟨s', hboot, hslots, fun hlt td htd hnot => hfound hlt td (hkept td htd hnot)⟩
    obtain ⟨s', hboot, hslots, hfound⟩ := hmain
    refine ⟨⟨s', hboot, hfound⟩, fun t ht => ?_⟩
    obtain rfl := some.inj (hboot.symm.trans ht)
    exact hslots

/-! ## The run -/

/-- **A list outlives losing power in every run** of operations, whole or cut off, that keep to
`Safe`. -/
theorem meets_outlives {s₀ : Tdl} {es : List Event}
    (hboot : connectionInitTrustedDeviceList cfg .empty = some s₀)
    (hmeets : Meets (powerStep cfg) (Safe cfg) s₀ es) :
    Meets (powerStep cfg) (Outlives cfg) s₀ es := by
  have hstart : ∃ slots, Holds cfg s₀ slots := by
    obtain ⟨slots, h, -⟩ := Tidy.boot hboot
    exact ⟨slots, h⟩
  refine @meets_of_meets _ _ _ _ (fun s => ∃ slots, Holds cfg s slots) _
    (fun s e hs hsafe => ?_) _ _ hstart hmeets
  obtain ⟨slots, h⟩ := hs
  exact outlives_of_safe h hsafe

theorem meets_outlives_sampleReq : Meets (powerStep sampleConfig) (Outlives sampleConfig)
    sampleStart [.perform (.addDevice (sampleReq 1)), .cut (.addDevice (sampleReq 2)) 1] :=
  meets_outlives rfl
    ⟨.inl ⟨fun _ _ => .inl (by decide +kernel), trivial⟩,
      ⟨.inl ⟨fun _ _ => .inl (by decide +kernel), trivial⟩, rfl⟩, trivial⟩

/-- **Not every run outlives losing power**: when the record of a device is deleted, the index names
it until all others are deleted. -/
theorem not_outlives_deleteAll : ¬ ∀ (cfg : Config) (s₀ : Tdl) (es : List Event),
    connectionInitTrustedDeviceList cfg .empty = some s₀ →
      Meets (powerStep cfg) (Outlives cfg) s₀ es := by
  intro h
  obtain ⟨-, ⟨s', hboot, -⟩, -⟩ := h sampleConfig sampleStart
    [.perform (.addDevice (sampleReq 1)), .cut .deleteAllDevice 1] rfl
  have hnone : (connectionInitTrustedDeviceList sampleConfig
      ((sampleStart.perform sampleConfig (.addDevice (sampleReq 1))).cutAt sampleConfig
        .deleteAllDevice 1)).isNone = true := by decide +kernel
  rw [hboot] at hnone
  cases hnone

end Mh40.TrustedDevices
