import Mh40.TrustedDevices.Boot
import Mh40.TrustedDevices.DeleteAll
import Mh40.Lib.Run

/-!
# The representation of the list

* `Sound`: what the index, its cache and the records have to do with each other.
* `Tidy.perform`: the step; every operation that keeps to `Regular` leaves a list, and nothing else.
* `sound_of_regular`: the run, from an empty store.
* `not_sound_deleteAll`: a priority device that is not the first one is lost when all others are
  deleted.
-/

namespace Mh40.TrustedDevices

open Lib List Option

variable {cfg : Config} {s s' : Tdl} {slots : List Slot} {taddr : TypedBdaddr}

/-- What the list is to be: a run of used elements and then unused ones; positions of the list,
each once, with records of different devices; hashes that are unknown or right; a stored index
that is the cached one; and no other records. A device is found iff there is a record of it. -/
structure Sound (cfg : Config) (s : Tdl) : Prop where
  ends : ∀ e ∈ s.tdi.drop s.used.length, e.order = tdiOrderUnused
  positions : ∀ e ∈ s.used, e.order < cfg.maxTrustedDevices
  distinct : (s.used.map Element.order).Nodup
  stored : ∀ e ∈ s.used, (s.ps.record e.order).isSome
  addresses : (s.records.map TdData.taddr).Nodup
  hashes : ∀ e ∈ s.used, ∀ td, s.ps.record e.order = some td →
    e.hash = tdiHashUnused ∨ e.hash = tdiHash td.taddr.addr
  packed : (readTrustedDeviceIndex cfg s.ps).map Element.order = s.tdi.map Element.order
  orphans : ∀ pos ∉ s.used.map Element.order, s.ps.record pos = none
  finds : ∀ taddr td, (s.tdlFindDevice cfg taddr).td = some td ↔
    ∃ pos, s.ps.record pos = some td ∧ td.taddr = taddr

/-- The list is held, and there is no other record. -/
def Tidy (cfg : Config) (s : Tdl) : Prop := ∃ slots, Holds cfg s slots ∧ NoOrphans s.ps slots

/-- A device is found iff there is a record of it. -/
theorem find_iff (h : Holds cfg s slots) (ho : NoOrphans s.ps slots) {td : TdData} :
    (s.tdlFindDevice cfg taddr).td = some td ↔
      ∃ pos, s.ps.record pos = some td ∧ td.taddr = taddr := by
  constructor
  · intro hfind
    by_cases hl : taddr ∈ slots.map Slot.taddr
    · obtain ⟨before, x, after, rfl, rfl⟩ := exists_slot hl
      rw [h.tdlFindDevice_of_mem rfl rfl] at hfind
      obtain rfl : x.td = td := some.inj hfind
      exact ⟨x.pos, h.stored.record x (mem_append_right _ mem_cons_self), rfl⟩
    · rw [h.find_none hl] at hfind
      cases hfind
  · rintro ⟨pos, hrecord, rfl⟩
    have hpos : pos ∈ slots.map Slot.pos := by
      by_contra hnot
      rw [ho pos hnot] at hrecord
      cases hrecord
    obtain ⟨x, hx, rfl⟩ := List.mem_map.mp hpos
    obtain rfl : x.td = td := some.inj ((h.stored.record x hx).symm.trans hrecord)
    obtain ⟨before, after, rfl⟩ := append_of_mem hx
    rw [h.tdlFindDevice_of_mem rfl (show x.taddr = x.td.taddr from rfl)]

theorem Tidy.sound (h : Tidy cfg s) : Sound cfg s := by
  obtain ⟨slots, h, ho⟩ := h
  have hused := h.used_eq
  have hmem : ∀ e ∈ s.used, ∃ x ∈ slots, x.element = e := fun e he => by
    rw [hused] at he
    exact List.mem_map.mp he
  have horders : s.used.map Element.order = slots.map Slot.pos := by
    rw [hused, List.map_map]
    rfl
  refine ⟨fun e he => ?_, fun e he => ?_, ?_, fun e he => ?_, ?_, fun e he td htd => ?_, h.packed,
    fun pos hpos => ?_, fun taddr td => find_iff h ho⟩
  · obtain ⟨rest, htdi, hrest⟩ := h.tdi
    rw [hused, htdi, drop_left] at he
    exact hrest e he
  · obtain ⟨x, hx, rfl⟩ := hmem e he
    exact h.stored.pos_lt x hx
  · rw [horders]
    exact h.stored.nodup
  · obtain ⟨x, hx, rfl⟩ := hmem e he
    exact isSome_iff_exists.mpr ⟨x.td, h.stored.record x hx⟩
  · rw [h.records_eq, List.map_map]
    exact h.stored.taddrs
  · obtain ⟨x, hx, rfl⟩ := hmem e he
    obtain rfl : x.td = td := some.inj ((h.stored.record x hx).symm.trans htd)
    exact h.hash x hx
  · rw [horders] at hpos
    exact ho pos hpos

/-- **The step.** An operation that keeps to `Regular` leaves a list, and nothing else. -/
theorem Tidy.perform (h : Tidy cfg s) {op : Op} (hreg : Regular cfg s op) :
    Tidy cfg (s.perform cfg op) := by
  obtain ⟨slots, h, ho⟩ := h
  by_cases hop : op = .deleteAllDevice
  · subst hop
    have hfirst : slots.Pairwise fun x y =>
        y.td.content.priorityDevice = true → x.td.content.priorityDevice = true := by
      have hrecords := hreg.2
      dsimp only at hrecords
      rw [h.records_eq, pairwise_map] at hrecords
      exact hrecords
    have hclears := clears_deleteAllDevice h hfirst
    exact ⟨_, hclears.holds, hclears.noOrphans ho⟩
  · have houtcome := outcome_perform h hreg hop
    generalize op.kind s = kind at houtcome
    cases houtcome with
    | kept hmoves hperm | put hspot hmoves hperm | removed hslots hmoves hattribute hgatt =>
      exact ⟨_, hmoves.holds, hmoves.noOrphans ho⟩
    | cleared heq =>
      rw [heq]
      obtain ⟨hholds, hrecord, -⟩ := h.deleteAttribute _
      refine ⟨slots, hholds, fun pos hpos => ?_⟩
      rw [hrecord]
      exact ho pos hpos

/-- The list starts empty. -/
theorem Tidy.boot (h : connectionInitTrustedDeviceList cfg .empty = some s) : Tidy cfg s := by
  obtain ⟨s₁, hs1, hps, hholds⟩ := @boot_empty cfg
  obtain rfl : s₁ = s := some.inj (hs1.symm.trans h)
  refine ⟨[], hholds, fun pos _ => ?_⟩
  rw [hps]
  rfl

/-- A turn of the library: one operation. -/
def step (cfg : Config) (s : Tdl) (op : Op) : Option Tdl := some (s.perform cfg op)

/-- **The list is sound in every state of a run** whose operations keep to `Regular`. -/
theorem sound_of_regular {s₀ : Tdl} {ops : List Op}
    (hboot : connectionInitTrustedDeviceList cfg .empty = some s₀)
    (hmeets : Meets (step cfg) (Regular cfg) s₀ ops) :
    Throughout (step cfg) (Sound cfg) s₀ ops := by
  intro front s hfront hrun
  refine Tidy.sound (invariant_of_meets (fun s op s' hs hreg hstep => ?_) (Tidy.boot hboot)
    (hmeets.of_prefix hfront) hrun)
  obtain rfl := Option.some.inj hstep
  exact hs.perform hreg

/-! ## A list of eight -/

/-- A list of up to eight devices. -/
def sampleConfig : Config := ⟨8, 8, by decide, by decide, by decide⟩

/-- The empty list. -/
def sampleStart : Tdl := ⟨.empty, List.replicate 8 .unused, []⟩

/-- An address. -/
def sampleAddr (lap : BitVec 24) : Bdaddr := ⟨lap, 0, 0⟩

/-- A bonded device with that address. -/
def sampleReq (lap : BitVec 24) : Tdl.AddAuthDeviceReq := ⟨sampleAddr lap, 4, [], 0, true⟩

/-- Two devices are added, the first of them becomes a priority device, and is used. -/
def sampleOps : List Op := [.addDevice (sampleReq 1), .addDevice (sampleReq 2),
  .setPriorityDevice (sampleAddr 1) true]

theorem sound_of_regular_sampleOps : Throughout (step sampleConfig) (Sound sampleConfig)
    sampleStart (sampleOps ++ [.updateMru (sampleAddr 1), .deleteAllDevice]) :=
  sound_of_regular rfl
    ⟨⟨fun _ _ => .inl (by decide +kernel), trivial⟩, ⟨fun _ _ => .inl (by decide +kernel), trivial⟩,
      ⟨fun _ h => (nomatch h), trivial⟩, ⟨fun _ h => (nomatch h), trivial⟩,
      ⟨fun _ h => (nomatch h), by decide +kernel⟩, trivial⟩

/-- The same, and then the second one is used: the first one stands behind an unused element. -/
def sampleHole : List Op := sampleOps ++ [.updateMru (sampleAddr 2), .deleteAllDevice]

/-- **Not every run keeps the list sound**: the record is there, and the device is not found. -/
theorem not_sound_deleteAll : ¬ ∀ (cfg : Config) (s₀ : Tdl) (ops : List Op),
    connectionInitTrustedDeviceList cfg .empty = some s₀ →
      Throughout (step cfg) (Sound cfg) s₀ ops := by
  intro h
  generalize hs : sampleHole.foldl (fun s op => s.perform sampleConfig op) sampleStart = s
  have hrun : run (step sampleConfig) sampleStart sampleHole = some s := hs ▸ rfl
  have hsound := h sampleConfig sampleStart sampleHole rfl sampleHole s List.prefix_rfl hrun
  have hfind : (s.tdlFindDevice sampleConfig ⟨.bdaddrPublic, sampleAddr 1⟩).td = none := by
    rw [← hs]
    decide +kernel
  obtain ⟨td, hrecord, htaddr⟩ : ∃ td, s.ps.record 0 = some td ∧
      td.taddr = ⟨.bdaddrPublic, sampleAddr 1⟩ := by
    have hmap : (s.ps.record 0).map TdData.taddr = some ⟨.bdaddrPublic, sampleAddr 1⟩ := by
      rw [← hs]
      decide +kernel
    exact Option.map_eq_some_iff.mp hmap
  rw [(hsound.finds _ td).mpr ⟨0, hrecord, htaddr⟩] at hfind
  cases hfind

end Mh40.TrustedDevices
