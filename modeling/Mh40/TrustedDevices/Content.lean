import Mh40.TrustedDevices.Invariant

/-!
# The content of the list

* `Tdl.devices`: the devices, most recently used first, with their attributes.
* `Keeps`: what an operation is to do with them, by its kind.
* `keeps_of_keeping`: the step; `meets_keeps`: the run, from an empty store.
* `not_keeps_full`: a full list of priority devices but for the first one gets a new device.
-/

namespace Mh40.TrustedDevices

open Lib List

/-- The address of a device. -/
def Device.taddr (d : Device) : TypedBdaddr := d.td.taddr

/-- The priority flag of a device. -/
def Device.priority (d : Device) : Bool := d.td.content.priorityDevice

/-- The devices listed, most recently used first. -/
def Tdl.devices (s : Tdl) : List Device := s.used.filterMap fun e =>
  (s.ps.record e.order).map fun td =>
    ⟨td, s.ps.tdlAttribute e.order, s.ps.tdlGattAttribute e.order⟩

/-- The devices that have none of the addresses. -/
def others (about : List TypedBdaddr) (ds : List Device) : List Device :=
  ds.filter fun d => decide (d.taddr ∉ about)

/-- The device `d` may be dropped: it has no priority flag, unlike those used less recently, or all
devices have it, and it is the one used least recently. -/
def Droppable (before : List Device) (d : Device) (after : List Device) : Prop :=
  (∀ d' ∈ after, d'.priority = true) ∧
    (d.priority = false ∨ after = [] ∧ ∀ d' ∈ before ++ [d], d'.priority = true)

/-- What an operation is to do with the devices. -/
def Keeps (cfg : Config) (s : Tdl) (op : Op) (s' : Tdl) : Prop :=
  if op = .deleteAllDevice then
    s'.devices = s.devices.filter Device.priority ∧
      ∀ d ∈ s'.devices, (s'.tdlFindDevice cfg d.taddr).td = some d.td
  else
    match op.kind s with
    | .kept =>
      others op.targets s'.devices = others op.targets s.devices ∧
        (s'.devices.map Device.taddr).Perm (s.devices.map Device.taddr)
    | .put taddr =>
      if s.devices.length < cfg.maxTrustedDevices then
        others [taddr] s'.devices = s.devices ∧
          (s'.devices.map Device.taddr).Perm (taddr :: s.devices.map Device.taddr)
      else ∃ before d after, s.devices = before ++ d :: after ∧ Droppable before d after ∧
        others [taddr] s'.devices = before ++ after ∧
        (s'.devices.map Device.taddr).Perm (taddr :: (before ++ after).map Device.taddr)
    | .removed taddr =>
      s'.devices = others [taddr] s.devices ∧
        s'.ps.tdlAttribute (s.tdlFindDevice cfg taddr).pos = none ∧
        s'.ps.tdlGattAttribute (s.tdlFindDevice cfg taddr).pos = none
    | .cleared _ => s'.devices = s.devices

/-- An operation reaches neither a place where the list goes wrong, nor another device: raw data are
not added next to a device with the same address, but a public one, and where a device is not stored
the place offered for it has no attributes. -/
structure Keeping (cfg : Config) (s : Tdl) (op : Op) : Prop where
  regular : Regular cfg s op
  touched : op.touched s = op.targets
  cleared : ∀ taddr, op.kind s = .cleared taddr → s.records.length < cfg.maxTrustedDevices ∨
    s.ps.tdlAttribute (s.tdlFindDevice cfg taddr).pos = none

/-! ## Devices and slots -/

variable {cfg : Config} {s s' : Tdl} {slots slots' : List Slot} {taddr : TypedBdaddr}
  {about : List TypedBdaddr}

theorem Holds.devices_eq (h : Holds cfg s slots) : s.devices = slots.map (Slot.device s.ps) := by
  unfold Tdl.devices
  rw [h.used_eq, filterMap_map]
  have hsome : ∀ x ∈ slots, ((fun e : Element => (s.ps.record e.order).map fun td =>
      (⟨td, s.ps.tdlAttribute e.order, s.ps.tdlGattAttribute e.order⟩ : Device)) ∘ Slot.element) x =
      some (x.device s.ps) := fun x hx => by
    have hx : s.ps.record x.element.order = some x.td := h.stored.record x hx
    change (s.ps.record x.element.order).map _ = _
    rw [hx]
    rfl
  rw [filterMap_congr hsome]
  exact congrFun filterMap_eq_map slots

theorem others_map (ps : Ps) :
    others about (slots.map (Slot.device ps)) = (otherSlots about slots).map (Slot.device ps) :=
  List.filter_map

theorem Holds.map_taddr_devices (h : Holds cfg s slots) :
    s.devices.map Device.taddr = slots.map Slot.taddr := by
  rw [h.devices_eq, List.map_map]
  rfl

/-- A move keeps the other devices. -/
theorem Moves.others_devices (h : Holds cfg s slots) (hmoves : Moves cfg about s slots s' slots') :
    TrustedDevices.others about s'.devices = TrustedDevices.others about s.devices := by
  rw [h.devices_eq, hmoves.holds.devices_eq, others_map, others_map]
  exact hmoves.others

theorem others_eq_self {ds : List Device} (h : ∀ d ∈ ds, d.taddr ∉ about) : others about ds = ds :=
  filter_eq_self.mpr fun d hd => decide_eq_true (h d hd)

/-! ## The step -/

section Step

variable {op : Op} {before after : List Slot} {x : Slot}

theorem keeps_kept (h : Holds cfg s slots) (hmoves : Moves cfg op.targets s slots s' slots')
    (hperm : (slots'.map Slot.taddr).Perm (slots.map Slot.taddr)) :
    others op.targets s'.devices = others op.targets s.devices ∧
      (s'.devices.map Device.taddr).Perm (s.devices.map Device.taddr) := by
  refine ⟨hmoves.others_devices h, ?_⟩
  rw [h.map_taddr_devices, hmoves.holds.map_taddr_devices]
  exact hperm

/-- A device is put on a list with room. -/
theorem keeps_free (h : Holds cfg s slots) (hmoves : Moves cfg [taddr] s slots s' slots')
    (hl : taddr ∉ slots.map Slot.taddr)
    (hperm : (slots'.map Slot.taddr).Perm (taddr :: slots.map Slot.taddr)) :
    others [taddr] s'.devices = s.devices ∧
      (s'.devices.map Device.taddr).Perm (taddr :: s.devices.map Device.taddr) := by
  constructor
  · rw [hmoves.others_devices h]
    refine others_eq_self fun d hd hmem => hl ?_
    rw [← h.map_taddr_devices, ← mem_singleton.mp hmem]
    exact List.mem_map_of_mem hd
  · rw [h.map_taddr_devices, hmoves.holds.map_taddr_devices]
    exact hperm

/-- The device dropped is one that may be. -/
theorem IsVictim.droppable (h : IsVictim before x after) (ps : Ps) :
    Droppable (before.map (Slot.device ps)) (x.device ps)
      (after.map (Slot.device ps)) := by
  refine ⟨fun d hd => ?_, ?_⟩
  · obtain ⟨y, hy, rfl⟩ := List.mem_map.mp hd
    exact h.last y hy
  · by_cases hprio : x.td.content.priorityDevice = true
    · rcases h.place with ⟨-, hx⟩ | ⟨rfl, rfl⟩
      · rw [hprio] at hx
        cases hx
      · refine .inr ⟨rfl, fun d hd => ?_⟩
        rw [map_nil, nil_append, mem_singleton] at hd
        rw [hd]
        exact hprio
    · exact .inl (Bool.eq_false_of_not_eq_true hprio)

/-- A device is put on a full list. -/
theorem keeps_victim (h : Holds cfg s (before ++ x :: after))
    (hmoves : Moves cfg ([taddr] ++ [x.taddr]) s (before ++ x :: after) s' slots')
    (hl : taddr ∉ (before ++ x :: after).map Slot.taddr)
    (hperm : (slots'.map Slot.taddr).Perm (taddr :: (before ++ after).map Slot.taddr)) :
    others [taddr] s'.devices = (before ++ after).map (Slot.device s.ps) := by
  have hne := taddr_ne_of_split h
  have hx : x.taddr ≠ taddr := fun heq => hl (heq ▸ List.mem_map_of_mem
    (mem_append_right _ mem_cons_self))
  have hgone : ∀ d ∈ s'.devices, d.taddr ≠ x.taddr := fun d hd heq => by
    have hmem : x.taddr ∈ slots'.map Slot.taddr := by
      rw [← heq, ← hmoves.holds.map_taddr_devices]
      exact List.mem_map_of_mem hd
    rcases mem_cons.mp (hperm.mem_iff.mp hmem) with heq | hmem
    · exact hx heq
    · obtain ⟨y, hy, heq⟩ := List.mem_map.mp hmem
      exact hne y hy heq
  have hsame : others [taddr] s'.devices = others ([taddr] ++ [x.taddr]) s'.devices := by
    refine filter_congr fun d hd => decide_eq_decide.mpr ?_
    rw [mem_append, mem_singleton, mem_singleton]
    exact not_congr (or_iff_left (hgone d hd)).symm
  rw [hsame, hmoves.others_devices h, h.devices_eq, others_map,
    otherSlots_split (mem_append_right _ mem_cons_self)]
  refine congrArg (List.map (Slot.device s.ps)) (filter_eq_self.mpr fun y hy => ?_)
  refine decide_eq_true fun hmem => ?_
  rcases mem_append.mp hmem with hmem | hmem
  · refine hl (List.mem_map.mpr ⟨y, ?_, mem_singleton.mp hmem⟩)
    exact (perm_middle.mem_iff).mpr (mem_cons_of_mem _ hy)
  · exact hne y hy (mem_singleton.mp hmem)

/-- A device is taken off the list. -/
theorem keeps_removed (h : Holds cfg s (before ++ x :: after))
    (hmoves : Moves cfg [x.taddr] s (before ++ x :: after) s' (before ++ after)) :
    s'.devices = others [x.taddr] s.devices := by
  rw [← hmoves.others_devices h]
  refine (others_eq_self fun d hd hmem => ?_).symm
  rw [hmoves.holds.devices_eq] at hd
  obtain ⟨y, hy, rfl⟩ := List.mem_map.mp hd
  exact taddr_ne_of_split h y hy (mem_singleton.mp hmem)

/-- The place offered for a device that is not stored is cleared. -/
theorem keeps_cleared (h : Holds cfg s slots) (hl : taddr ∉ slots.map Slot.taddr)
    (hcleared : s.records.length < cfg.maxTrustedDevices ∨
      s.ps.tdlAttribute (s.tdlFindDevice cfg taddr).pos = none) :
    (s.deleteAttribute (s.tdlFindDevice cfg taddr).pos).devices = s.devices := by
  rcases hcleared with hroom | hnone
  · rw [h.records_eq, length_map] at hroom
    obtain ⟨pos, hfind, hpos, -⟩ := h.tdlFindDevice_of_lt
      (fun y hy heq => hl (List.mem_map.mpr ⟨y, hy, heq⟩)) hroom
    rw [hfind]
    have hmoves : Moves cfg [] s slots (s.deleteAttribute pos) slots :=
      Moves.deleteAttribute h fun y hy heq =>
        hpos (List.mem_map.mpr ⟨y, mem_of_mem_filter hy, heq⟩)
    have hothers := hmoves.others_devices h
    rwa [others_eq_self fun d _ => not_mem_nil,
      others_eq_self fun d _ => not_mem_nil] at hothers
  · unfold Tdl.deleteAttribute
    rw [hnone]
    rfl

/-- All devices but the priority devices are deleted. -/
theorem keeps_deleteAll (h : Holds cfg s slots) (hclears : Clears cfg s slots s') :
    s'.devices = s.devices.filter Device.priority ∧
      ∀ d ∈ s'.devices, (s'.tdlFindDevice cfg d.taddr).td = some d.td := by
  constructor
  · rw [hclears.holds.devices_eq, hclears.devices, h.devices_eq]
    symm
    exact List.filter_map
  · intro d hd
    rw [hclears.holds.devices_eq] at hd
    obtain ⟨x, hx, rfl⟩ := List.mem_map.mp hd
    obtain ⟨before, after, hsplit⟩ := append_of_mem hx
    rw [hclears.holds.tdlFindDevice_of_mem hsplit (show x.taddr = (x.device s'.ps).taddr from rfl)]
    rfl

/-- **The step.** An operation that keeps to `Keeping` does what it is to do. -/
theorem keeps_of_keeping (h : Holds cfg s slots) (hkeeping : Keeping cfg s op) :
    Keeps cfg s op (s.perform cfg op) := by
  unfold Keeps
  by_cases hop : op = .deleteAllDevice
  · subst hop
    rw [if_pos rfl]
    have hfirst := hkeeping.regular.2
    dsimp only at hfirst
    rw [h.records_eq, pairwise_map] at hfirst
    exact keeps_deleteAll h (clears_deleteAllDevice h hfirst)
  · rw [if_neg hop]
    have houtcome := outcome_perform h hkeeping.regular hop
    rw [hkeeping.touched] at houtcome
    have hcleared := hkeeping.cleared
    generalize hkind : op.kind s = kind at houtcome hcleared
    cases houtcome with
    | kept hmoves hperm => exact keeps_kept h hmoves hperm
    | @put pos idx dropped left slots' taddr hspot hmoves hperm =>
      obtain ⟨htargets, hlists⟩ := kind_put hkind
      have hl := h.lists_eq_false.mp hlists
      have hlength : s.devices.length = slots.length := by rw [h.devices_eq, length_map]
      rw [htargets] at hmoves
      dsimp only
      rw [hlength]
      cases hspot with
      | free hpos hlt hroom =>
        rw [if_pos hroom]
        rw [append_nil] at hmoves
        exact keeps_free h hmoves hl hperm
      | @victim before after x hslots hvictim hfull =>
        subst hslots
        rw [if_neg (Nat.not_lt.mpr (Nat.le_of_eq hfull.symm))]
        refine ⟨_, x.device s.ps, _, ?_, hvictim.droppable s.ps, ?_, ?_⟩
        · rw [h.devices_eq, map_append, map_cons]
        · rw [← map_append]
          exact keeps_victim h hmoves hl hperm
        · rw [hmoves.holds.map_taddr_devices, ← map_append, List.map_map]
          exact hperm
    | @removed before after x hslots hmoves hattribute hgatt =>
      subst hslots
      rw [kind_removed hkind] at hmoves
      dsimp only
      rw [h.tdlFindDevice_of_mem rfl rfl]
      exact ⟨keeps_removed h hmoves, hattribute, hgatt⟩
    | @cleared taddr heq =>
      dsimp only
      rw [heq]
      exact keeps_cleared h (h.lists_eq_false.mp (kind_cleared hkind)) (hcleared taddr rfl)

end Step

/-! ## The run -/

/-- **Every operation of a run does what it is to do**, where all of them keep to `Keeping`. -/
theorem meets_keeps {s₀ : Tdl} {ops : List Op}
    (hboot : connectionInitTrustedDeviceList cfg .empty = some s₀)
    (hmeets : Meets (step cfg) (Keeping cfg) s₀ ops) :
    Meets (step cfg) (fun s op => Keeps cfg s op (s.perform cfg op)) s₀ ops := by
  refine meets_of_meets (fun s op hs hkeeping => ⟨?_, fun s' hstep => ?_⟩) (Tidy.boot hboot) hmeets
  · obtain ⟨slots, h, -⟩ := hs
    exact keeps_of_keeping h hkeeping
  · obtain rfl := Option.some.inj hstep
    exact hs.perform hkeeping.regular

/-! ### A list of two -/

/-- A list of up to two devices. -/
def smallConfig : Config := ⟨8, 2, by decide, by decide, sampleConfig.lt⟩

/-- Of two devices the first one becomes a priority device and is used, so that a third one takes the
place of the second. The first one, used again, outlives the deletion of all devices. -/
theorem meets_keeps_priorityDevice : Meets (step smallConfig)
    (fun s op => Keeps smallConfig s op (s.perform smallConfig op)) sampleStart
    (sampleOps ++ [.updateMru (sampleAddr 1), .addDevice (sampleReq 3), .updateMru (sampleAddr 1),
      .deleteAllDevice]) :=
  meets_keeps rfl
    ⟨⟨⟨fun _ _ => .inl (by decide +kernel), trivial⟩, rfl, fun _ h => (nomatch h)⟩,
      ⟨⟨fun _ _ => .inl (by decide +kernel), trivial⟩, rfl, fun _ h => (nomatch h)⟩,
      ⟨⟨fun _ h => (nomatch h), trivial⟩, rfl, fun _ h => (nomatch h)⟩,
      ⟨⟨fun _ h => (nomatch h), trivial⟩, rfl, fun _ h => (nomatch h)⟩,
      ⟨⟨fun _ _ => .inr (by decide +kernel), trivial⟩, rfl, fun _ h => (nomatch h)⟩,
      ⟨⟨fun _ h => (nomatch h), trivial⟩, rfl, fun _ h => (nomatch h)⟩,
      ⟨⟨fun _ h => (nomatch h), by decide +kernel⟩, rfl, fun _ h => (nomatch h)⟩, trivial⟩

/-- Two devices are added, the first of them becomes a priority device, the second one is used, and
a third one is added. -/
def sampleFull : List Op := sampleOps ++ [.updateMru (sampleAddr 2), .addDevice (sampleReq 3)]

/-- **Not every operation does what it is to do**: both elements of the full list get the position
of the priority device. -/
theorem not_keeps_full : ¬ ∀ (cfg : Config) (s₀ : Tdl) (ops : List Op),
    connectionInitTrustedDeviceList cfg .empty = some s₀ →
      Meets (step cfg) (fun s op => Keeps cfg s op (s.perform cfg op)) s₀ ops := by
  intro h
  have hmeets := h smallConfig sampleStart sampleFull rfl
  obtain ⟨-, -, -, -, hkeeps, -⟩ := hmeets
  generalize hs : ((((sampleStart.perform smallConfig (.addDevice (sampleReq 1))).perform
    smallConfig (.addDevice (sampleReq 2))).perform smallConfig
    (.setPriorityDevice (sampleAddr 1) true)).perform smallConfig
    (.updateMru (sampleAddr 2))) = s at hkeeps
  have hlength : s.devices.length = 2 := by
    rw [← hs]
    decide +kernel
  have hgone : others [⟨.bdaddrPublic, sampleAddr 3⟩]
      (s.perform smallConfig (.addDevice (sampleReq 3))).devices = [] := by
    rw [← hs]
    decide +kernel
  have hkind : Op.kind s (.addDevice (sampleReq 3)) = .put ⟨.bdaddrPublic, sampleAddr 3⟩ := by
    rw [← hs]
    decide +kernel
  unfold Keeps at hkeeps
  rw [if_neg fun heq => (nomatch heq), hkind] at hkeeps
  dsimp only at hkeeps
  rw [hlength, if_neg (show ¬ 2 < smallConfig.maxTrustedDevices from Nat.lt_irrefl 2)] at hkeeps
  obtain ⟨before, d, after, hsplit, -, hothers, -⟩ := hkeeps
  rw [hgone] at hothers
  obtain ⟨rfl, rfl⟩ := List.append_eq_nil_iff.mp hothers.symm
  rw [hsplit] at hlength
  cases hlength

end Mh40.TrustedDevices
