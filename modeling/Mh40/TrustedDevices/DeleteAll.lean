import Mh40.TrustedDevices.Operations

/-!
# Deleting all devices

`connectionAuthDeleteAllDevice` deletes the records one after the other, marks their elements as
unused where they stand, and stores the index at the end.

* `deleteAllLoop_eq`: the loop in closed form.
* `Clears`, `clears_deleteAllDevice`: what is left where no priority device follows another one.
-/

namespace Mh40.TrustedDevices

open List Function

variable {cfg : Config} {s s' : Tdl} {slots : List Slot}

/-- The priority devices. -/
def prioritySlots (slots : List Slot) : List Slot :=
  slots.filter fun x => x.td.content.priorityDevice

/-- The other devices. -/
def ordinarySlots (slots : List Slot) : List Slot :=
  slots.filter fun x => !x.td.content.priorityDevice

/-- What the loop stores for a device that it deletes. -/
def Tdl.clear (s : Tdl) (pos : ℕ) : Tdl :=
  ((s.psStore (.record pos none)).psStore (.tdlAttribute pos none)).psStore
    (.tdlGattAttribute pos none)

/-- What the loop stores. -/
def Tdl.clears (s : Tdl) (slots : List Slot) : Tdl := slots.foldl (fun s x => s.clear x.pos) s

/-- The element that the loop leaves. -/
def Slot.leftElement (x : Slot) : Element :=
  if x.td.content.priorityDevice then x.element else .unused

section Clears

theorem tdi_clears : (s.clears slots).tdi = s.tdi := by
  induction slots generalizing s with
  | nil => rfl
  | cons x slots ih => exact ih

theorem index_clears : (s.clears slots).ps.index = s.ps.index := by
  induction slots generalizing s with
  | nil => rfl
  | cons x slots ih => exact ih

/-- A component of the store loses what the deleted devices had, and nothing else. -/
theorem get_clears {α : Type} {get : Ps → ℕ → Option α}
    (hget : ∀ (s : Tdl) (p pos : ℕ),
      get (s.clear p).ps pos = if pos = p then none else get s.ps pos) (pos : ℕ) :
    get (s.clears slots).ps pos = if pos ∈ slots.map Slot.pos then none else get s.ps pos := by
  induction slots generalizing s with
  | nil => rfl
  | cons x slots ih =>
    have hstep : get ((s.clear x.pos).clears slots).ps pos = _ := ih
    change get ((s.clear x.pos).clears slots).ps pos = _
    rw [hstep, hget, map_cons]
    by_cases hmem : pos ∈ slots.map Slot.pos
    · rw [if_pos hmem, if_pos (mem_cons_of_mem _ hmem)]
    · rw [if_neg hmem]
      by_cases hx : pos = x.pos
      · rw [if_pos hx, if_pos (hx ▸ mem_cons_self)]
      · rw [if_neg hx, if_neg fun h => (mem_cons.mp h).elim hx hmem]

theorem record_clears (pos : ℕ) : (s.clears slots).ps.record pos =
    if pos ∈ slots.map Slot.pos then none else s.ps.record pos :=
  @get_clears s slots _ Ps.record (fun s p pos => update_apply s.ps.record p none pos) pos

theorem tdlAttribute_clears (pos : ℕ) : (s.clears slots).ps.tdlAttribute pos =
    if pos ∈ slots.map Slot.pos then none else s.ps.tdlAttribute pos :=
  @get_clears s slots _ Ps.tdlAttribute
    (fun s p pos => update_apply s.ps.tdlAttribute p none pos) pos

theorem tdlGattAttribute_clears (pos : ℕ) : (s.clears slots).ps.tdlGattAttribute pos =
    if pos ∈ slots.map Slot.pos then none else s.ps.tdlGattAttribute pos :=
  @get_clears s slots _ Ps.tdlGattAttribute
    (fun s p pos => update_apply s.ps.tdlGattAttribute p none pos) pos

end Clears

/-- The loop over unused elements deletes nothing. -/
theorem deleteAllLoop_unused {rest : List Element} (hrest : ∀ e ∈ rest, e.order = tdiOrderUnused) :
    Tdl.deleteAllLoop s rest = (s, rest, false) := by
  induction rest with
  | nil => rfl
  | cons e rest ih =>
    have he : ¬ e.order ≠ tdiOrderUnused := not_not.mpr (hrest e mem_cons_self)
    unfold Tdl.deleteAllLoop
    rw [if_neg he, ih fun e' he' => hrest e' (mem_cons_of_mem e he')]

/-- **The loop in closed form**: the devices without the priority flag are cleared, and their
elements unused. -/
theorem deleteAllLoop_eq {rest : List Element} (hrest : ∀ e ∈ rest, e.order = tdiOrderUnused)
    (hrecord : ∀ x ∈ slots, s.ps.record x.pos = some x.td)
    (hused : ∀ x ∈ slots, x.pos ≠ tdiOrderUnused) (hnodup : (slots.map Slot.pos).Nodup) :
    Tdl.deleteAllLoop s (slots.map Slot.element ++ rest) =
      (s.clears (ordinarySlots slots), slots.map Slot.leftElement ++ rest,
        slots.any fun x => !x.td.content.priorityDevice) := by
  induction slots generalizing s with
  | nil => exact deleteAllLoop_unused hrest
  | cons x slots ih =>
    have hx : s.ps.record x.element.order = some x.td := hrecord x mem_cons_self
    have hxused : x.element.order ≠ tdiOrderUnused := hused x mem_cons_self
    rw [map_cons, nodup_cons] at hnodup
    have hused' : ∀ y ∈ slots, y.pos ≠ tdiOrderUnused :=
      fun y hy => hused y (mem_cons_of_mem x hy)
    rw [map_cons, cons_append]
    unfold Tdl.deleteAllLoop
    rw [if_pos hxused, hx]
    dsimp only
    by_cases hprio : (!x.td.content.priorityDevice) = true
    · have hclear : ∀ y ∈ slots, (s.clear x.pos).ps.record y.pos = some y.td := fun y hy => by
        have hne : y.pos ≠ x.pos := fun heq => hnodup.1 (heq ▸ List.mem_map_of_mem hy)
        change Function.update s.ps.record x.pos none y.pos = some y.td
        rw [update_of_ne hne]
        exact hrecord y (mem_cons_of_mem x hy)
      have hrec : Tdl.deleteAllLoop (((s.psStore (.record x.element.order none)).psStore
          (.tdlAttribute x.element.order none)).psStore (.tdlGattAttribute x.element.order none))
          (slots.map Slot.element ++ rest) = _ := @ih (s.clear x.pos) hclear hused' hnodup.2
      have hleft : x.leftElement = .unused := if_neg (by simpa using hprio)
      have hord : ordinarySlots (x :: slots) = x :: ordinarySlots slots :=
        filter_cons_of_pos hprio
      rw [if_pos hprio, hrec, hord, map_cons, hleft, any_cons, hprio, Bool.true_or]
      rfl
    · have hrec := @ih s (fun y hy => hrecord y (mem_cons_of_mem x hy)) hused' hnodup.2
      have hleft : x.leftElement = x.element := if_pos (by simpa using hprio)
      have hord : ordinarySlots (x :: slots) = ordinarySlots slots :=
        filter_cons_of_neg hprio
      rw [if_neg hprio, hrec, hord, map_cons, hleft, any_cons,
        Bool.eq_false_of_not_eq_true hprio, Bool.false_or]
      rfl

/-! ## What is left -/

/-- No priority device follows another one: the priority devices come first. -/
theorem eq_priority_append (h : slots.Pairwise fun x y =>
      y.td.content.priorityDevice = true → x.td.content.priorityDevice = true) :
    slots = prioritySlots slots ++ ordinarySlots slots := by
  induction slots with
  | nil => rfl
  | cons x slots ih =>
    obtain ⟨hx, htail⟩ := pairwise_cons.mp h
    by_cases hprio : x.td.content.priorityDevice = true
    · have hpriority : prioritySlots (x :: slots) = x :: prioritySlots slots :=
        filter_cons_of_pos hprio
      have hordinary : ordinarySlots (x :: slots) = ordinarySlots slots :=
        filter_cons_of_neg (by simpa using hprio)
      rw [hpriority, hordinary, cons_append]
      exact congrArg (x :: ·) (ih htail)
    · have hall : ∀ y ∈ x :: slots, ¬ y.td.content.priorityDevice = true := fun y hy hy' =>
        hprio ((mem_cons.mp hy).elim (fun heq => heq ▸ hy') fun hy => hx y hy hy')
      have hpriority : prioritySlots (x :: slots) = [] := filter_eq_nil_iff.mpr hall
      have hordinary : ordinarySlots (x :: slots) = x :: slots :=
        filter_eq_self.mpr (by simpa using hall)
      rw [hpriority, hordinary, nil_append]

/-- All devices but the priority devices are deleted. -/
structure Clears (cfg : Config) (s : Tdl) (slots : List Slot) (s' : Tdl) : Prop where
  holds : Holds cfg s' (prioritySlots slots)
  noOrphans : NoOrphans s.ps slots → NoOrphans s'.ps (prioritySlots slots)
  devices : (prioritySlots slots).map (Slot.device s'.ps) =
    (prioritySlots slots).map (Slot.device s.ps)

theorem mem_priority_pos (h : Holds cfg s slots) {x : Slot} (hx : x ∈ prioritySlots slots) :
    x.pos ∉ (ordinarySlots slots).map Slot.pos := by
  intro hmem
  obtain ⟨y, hy, heq⟩ := List.mem_map.mp hmem
  obtain ⟨hxmem, hxprio⟩ := mem_filter.mp hx
  obtain ⟨hymem, hyprio⟩ := mem_filter.mp hy
  obtain rfl := inj_on_of_nodup_map h.stored.nodup hymem hxmem heq
  rw [hxprio] at hyprio
  exact absurd hyprio Bool.false_ne_true

/-- **Deleting all devices leaves the priority devices**, where these come first. -/
theorem clears_deleteAllDevice (h : Holds cfg s slots) (hfirst : slots.Pairwise fun x y =>
      y.td.content.priorityDevice = true → x.td.content.priorityDevice = true) :
    Clears cfg s slots (s.connectionAuthDeleteAllDevice cfg).2 := by
  have hsplit := eq_priority_append hfirst
  obtain ⟨rest, htake, hrest, -⟩ := h.exists_take
  have hloop := @deleteAllLoop_eq s slots rest hrest h.stored.record h.pos_ne_unused h.stored.nodup
  unfold Tdl.connectionAuthDeleteAllDevice
  rw [htake, hloop]
  dsimp only
  by_cases hany : (slots.any fun x => !x.td.content.priorityDevice) = true
  · rw [if_pos hany]
    have hsub : ∀ x ∈ prioritySlots slots, x ∈ slots := fun x hx => mem_of_mem_filter hx
    generalize hs1 : s.clears (ordinarySlots slots) = s₁
    have htdi1 : s₁.tdi = s.tdi := hs1 ▸ tdi_clears
    have hread : readTrustedDeviceIndex cfg s₁.ps = readTrustedDeviceIndex cfg s.ps := by
      unfold readTrustedDeviceIndex
      rw [← hs1, index_clears]
    obtain ⟨hrecord, hattribute, hgatt⟩ := @storeTrustedDeviceIndex_frame cfg s₁
      (slots.map Slot.leftElement ++ rest ++ s.tdi.drop cfg.maxTrustedDevices)
    have hholds : Holds cfg (s₁.storeTrustedDeviceIndex cfg
        (slots.map Slot.leftElement ++ rest ++ s.tdi.drop cfg.maxTrustedDevices))
        (prioritySlots slots) := by
      refine @Holds.storeTrustedDeviceIndex cfg s₁ (prioritySlots slots) _
        ((ordinarySlots slots).map Slot.leftElement ++ rest ++ s.tdi.drop cfg.maxTrustedDevices)
        ?_ ?_ ?_ ?_ ?_ ?_ ?_ ?_ ?_ ?_
      · rw [hread, htdi1]
        exact h.packed
      · have hleft : (prioritySlots slots).map Slot.leftElement =
            (prioritySlots slots).map Slot.element :=
          map_congr_left fun x hx => if_pos (mem_filter.mp hx).2
        conv => lhs; rw [hsplit]
        rw [map_append, hleft]
        simp only [append_assoc]
      · intro e he
        rcases mem_append.mp he with he | he
        · rcases mem_append.mp he with he | he
          · obtain ⟨x, hx, rfl⟩ := List.mem_map.mp he
            have hordinary := (mem_filter.mp hx).2
            have hleft : x.leftElement = .unused := if_neg (by simpa using hordinary)
            rw [hleft]
            rfl
          · exact hrest e he
        · exact h.order_drop e he
      · have hlen := congrArg List.length (take_append_drop cfg.maxTrustedDevices s.tdi)
        rw [htake, length_append, length_append, length_map, h.length] at hlen
        rw [length_append, length_append, length_map]
        exact hlen
      · exact Nat.le_trans (length_filter_le _ _) h.stored.le
      · exact fun x hx => h.stored.pos_lt x (hsub x hx)
      · exact (filter_sublist.map Slot.pos).nodup h.stored.nodup
      · intro x hx
        rw [← hs1, record_clears, if_neg (mem_priority_pos h hx)]
        exact h.stored.record x (hsub x hx)
      · exact (filter_sublist.map Slot.taddr).nodup h.stored.taddrs
      · exact fun x hx => h.hash x (hsub x hx)
    refine ⟨hholds, fun ho pos hnot => ?_, map_congr_left fun x hx => ?_⟩
    · rw [hrecord, ← hs1, record_clears]
      by_cases hord : pos ∈ (ordinarySlots slots).map Slot.pos
      · exact if_pos hord
      · rw [if_neg hord]
        refine ho pos fun hmem => ?_
        rw [hsplit, map_append] at hmem
        exact (mem_append.mp hmem).elim hnot hord
    · unfold Slot.device
      rw [hattribute, hgatt, ← hs1, tdlAttribute_clears, tdlGattAttribute_clears,
        if_neg (mem_priority_pos h hx), if_neg (mem_priority_pos h hx)]
  · rw [if_neg hany]
    have hnil : ordinarySlots slots = [] := by
      refine filter_eq_nil_iff.mpr fun x hx hprio => hany ?_
      exact List.any_eq_true.mpr ⟨x, hx, hprio⟩
    rw [hnil, append_nil] at hsplit
    rw [hnil]
    refine ⟨?_, fun ho => ?_, rfl⟩
    · rw [← hsplit]
      exact h
    · rw [← hsplit]
      exact ho

end Mh40.TrustedDevices
