import Mh40.TrustedDevices.Held

/-!
# Starting from a store

`connectionInitTrustedDeviceList` reads the index, and hashes the addresses of the records that it
names. Without one of them it erases the list and panics.

* `boot_of_stored`: a store that stands for a list starts, and the list is held.
* `boot_empty`: so does a store without any key.
-/

namespace Mh40.TrustedDevices

open List

variable {cfg : Config} {ps : Ps} {slots : List Slot}

/-- The slot with the hash of its address. -/
def Slot.booted (x : Slot) : Slot := ⟨⟨tdiHash x.taddr.addr, x.pos⟩, x.td⟩

theorem map_pos_booted : (slots.map Slot.booted).map Slot.pos = slots.map Slot.pos := by
  rw [List.map_map]
  rfl

theorem map_td_booted : (slots.map Slot.booted).map Slot.td = slots.map Slot.td := by
  rw [List.map_map]
  rfl

theorem map_taddr_booted : (slots.map Slot.booted).map Slot.taddr = slots.map Slot.taddr := by
  rw [List.map_map]
  rfl

/-- The slots have the same records at the same positions. -/
theorem Stored.booted (h : Stored cfg ps slots) : Stored cfg ps (slots.map Slot.booted) := by
  refine ⟨?_, ?_, fun x hx => ?_, ?_, fun x hx => ?_, ?_⟩
  · rw [map_pos_booted]
    exact h.index
  · rw [length_map]
    exact h.le
  · obtain ⟨y, hy, rfl⟩ := List.mem_map.mp hx
    exact h.pos_lt y hy
  · rw [map_pos_booted]
    exact h.nodup
  · obtain ⟨y, hy, rfl⟩ := List.mem_map.mp hx
    exact h.record y hy
  · rw [map_taddr_booted]
    exact h.taddrs

/-- The loop over elements whose records are there. -/
theorem initLoop_eq {es : List Element} {rest : List ℕ}
    (hes : es.map Element.order = slots.map Slot.pos ++ rest)
    (hrest : ∀ o ∈ rest, o = tdiOrderUnused) (hrecord : ∀ x ∈ slots, ps.record x.pos = some x.td)
    (hused : ∀ x ∈ slots, x.pos ≠ tdiOrderUnused) :
    initLoop ps es = some ((slots.map Slot.booted).map Slot.element ++ es.drop slots.length) := by
  induction slots generalizing es with
  | nil =>
    cases es with
    | nil => rfl
    | cons e es =>
      have he : e.order = tdiOrderUnused := hrest _ (by
        rw [map_nil, nil_append] at hes
        rw [← hes]
        exact mem_cons_self)
      unfold initLoop
      rw [if_pos he]
      rfl
  | cons x slots ih =>
    cases es with
    | nil => cases hes
    | cons e es =>
      rw [map_cons, map_cons, cons_append, cons.injEq] at hes
      obtain ⟨he, hes⟩ := hes
      have hx : ps.record e.order = some x.td := by
        rw [he]
        exact hrecord x mem_cons_self
      have hne : ¬ e.order = tdiOrderUnused := by
        rw [he]
        exact hused x mem_cons_self
      have hrec := ih hes (fun y hy => hrecord y (mem_cons_of_mem x hy))
        (fun y hy => hused y (mem_cons_of_mem x hy))
      unfold initLoop
      rw [if_neg hne, hx, hrec]
      change some (({ e with hash := tdiHash x.td.taddr.addr } : Element) :: _) = _
      rw [he]
      rfl

theorem length_readTrustedDeviceIndex :
    (readTrustedDeviceIndex cfg ps).length = cfg.maxNoDevicesToManage := by
  unfold readTrustedDeviceIndex
  split
  · split_ifs
    · rw [length_map, length_range]
    · exact length_replicate
  · exact length_replicate

/-- **A store that stands for a list starts**, and the list is held. -/
theorem boot_of_stored (h : Stored cfg ps slots) :
    ∃ s, connectionInitTrustedDeviceList cfg ps = some s ∧ s.ps = ps ∧
      Holds cfg s (slots.map Slot.booted) := by
  obtain ⟨rest, hindex, hrest⟩ := h.index
  have hcfg := cfg.le
  have hlt := cfg.lt
  have hle := h.le
  have hused : ∀ x ∈ slots, x.pos ≠ tdiOrderUnused := fun x hx => by
    have hpos := h.pos_lt x hx
    unfold tdiOrderUnused
    omega
  generalize htdi : readTrustedDeviceIndex cfg ps = tdi at hindex
  have hlength : tdi.length = cfg.maxNoDevicesToManage := htdi ▸ length_readTrustedDeviceIndex
  have htake : (tdi.take cfg.maxTrustedDevices).map Element.order =
      slots.map Slot.pos ++ rest.take (cfg.maxTrustedDevices - slots.length) := by
    rw [map_take, hindex, take_append, length_map, take_of_length_le]
    rw [length_map]
    exact hle
  have hloop := initLoop_eq htake (fun o ho => hrest o (mem_of_mem_take ho)) h.record hused
  have hback : (tdi.take cfg.maxTrustedDevices).drop slots.length ++
      tdi.drop cfg.maxTrustedDevices = tdi.drop slots.length := by
    conv => rhs; rw [← take_append_drop cfg.maxTrustedDevices tdi]
    rw [drop_append_of_le_length]
    rw [length_take, hlength]
    omega
  have hunused : (tdi.drop slots.length).map Element.order = rest := by
    rw [map_drop, hindex, drop_append_of_le_length (by rw [length_map]),
      drop_eq_nil_of_le (by rw [length_map]), nil_append]
  have horders : ((slots.map Slot.booted).map Slot.element).map Element.order =
      slots.map Slot.pos := by
    rw [List.map_map, List.map_map]
    rfl
  refine ⟨⟨ps, (slots.map Slot.booted).map Slot.element ++ tdi.drop slots.length, []⟩, ?_, rfl,
    h.booted, ⟨_, rfl, fun e he => ?_⟩, ?_, fun x hx => ?_, ?_⟩
  · unfold connectionInitTrustedDeviceList
    rw [htdi]
    dsimp only
    rw [hloop]
    dsimp only [bind, Option.bind]
    rw [append_assoc, hback]
  · exact hrest _ (hunused ▸ List.mem_map_of_mem he)
  · rw [length_append, length_map, length_map, length_drop]
    omega
  · obtain ⟨y, -, rfl⟩ := List.mem_map.mp hx
    exact .inr rfl
  · rw [htdi, map_append, horders, hunused]
    exact hindex

/-- **A store without any key starts**, with an empty list. -/
theorem boot_empty :
    ∃ s, connectionInitTrustedDeviceList cfg .empty = some s ∧ s.ps = .empty ∧ Holds cfg s [] := by
  have hstored : Stored cfg .empty [] := by
    refine ⟨⟨_, rfl, fun o ho => ?_⟩, Nat.zero_le _, fun x hx => ?_, nodup_nil,
      fun x hx => ?_, nodup_nil⟩
    · change o ∈ (List.replicate cfg.maxNoDevicesToManage Element.unused).map Element.order at ho
      rw [map_replicate] at ho
      exact eq_of_mem_replicate ho
    · cases hx
    · cases hx
  exact boot_of_stored hstored

end Mh40.TrustedDevices
