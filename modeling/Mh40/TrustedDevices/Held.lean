import Mh40.TrustedDevices.Index
import Mathlib.Data.List.Nodup
import Mathlib.Data.List.Perm.Subperm

/-!
# What the list holds

The list that a store and a cached index stand for: slots, most recently used first, each an element
of the index and the record at its position.

* `Stored`, `Holds`: the slots of a store, and of a store with its cached index.
* `tdlFindDevice_of_mem`, `tdlFindDevice_of_forall_ne`: what is found, and where a new device goes.
-/

namespace Mh40.TrustedDevices

open List

/-- An element of the index and the record at its position. -/
structure Slot where
  element : Element
  td : TdData
deriving DecidableEq, Repr

namespace Slot

/-- The position of the record. -/
def pos (x : Slot) : ℕ := x.element.order

/-- The address of the device. -/
def taddr (x : Slot) : TypedBdaddr := x.td.taddr

/-- The hash is unknown, or that of the address. -/
def HashOk (x : Slot) : Prop := x.element.hash = tdiHashUnused ∨
  x.element.hash = tdiHash x.taddr.addr

end Slot

/-- The slots of a store. -/
structure Stored (cfg : Config) (ps : Ps) (slots : List Slot) : Prop where
  index : ∃ rest, (readTrustedDeviceIndex cfg ps).map Element.order = slots.map Slot.pos ++ rest ∧
    ∀ o ∈ rest, o = tdiOrderUnused
  le : slots.length ≤ cfg.maxTrustedDevices
  pos_lt : ∀ x ∈ slots, x.pos < cfg.maxTrustedDevices
  nodup : (slots.map Slot.pos).Nodup
  record : ∀ x ∈ slots, ps.record x.pos = some x.td
  taddrs : (slots.map Slot.taddr).Nodup

/-- The slots of a store with its cached index. -/
structure Holds (cfg : Config) (s : Tdl) (slots : List Slot) : Prop where
  stored : Stored cfg s.ps slots
  tdi : ∃ rest, s.tdi = slots.map Slot.element ++ rest ∧ ∀ e ∈ rest, e.order = tdiOrderUnused
  length : s.tdi.length = cfg.maxNoDevicesToManage
  hash : ∀ x ∈ slots, x.HashOk
  packed : (readTrustedDeviceIndex cfg s.ps).map Element.order = s.tdi.map Element.order

variable {cfg : Config} {s : Tdl} {ps : Ps} {slots : List Slot} {taddr : TypedBdaddr}

/-! ## Searching -/

section Find

variable {idx : ℕ} {used : List ℕ} {rest : List Element}

/-- The elements end, or the next one is unused. -/
def Ends (rest : List Element) : Prop := ∀ e ∈ rest.head?, e.order = tdiOrderUnused

theorem findLoop_ends (hrest : Ends rest) : s.findLoop taddr idx used rest = .inr (used, idx) := by
  cases rest with
  | nil => rfl
  | cons e rest =>
    unfold Tdl.findLoop
    rw [if_pos (hrest e rfl)]

/-- Slots of other devices are passed over, and their positions marked. -/
theorem findLoop_append (hrecord : ∀ x ∈ slots, s.ps.record x.pos = some x.td)
    (hused : ∀ x ∈ slots, x.pos ≠ tdiOrderUnused) (hne : ∀ x ∈ slots, x.taddr ≠ taddr) :
    s.findLoop taddr idx used (slots.map Slot.element ++ rest) =
      s.findLoop taddr (idx + slots.length) ((slots.map Slot.pos).reverse ++ used) rest := by
  induction slots generalizing idx used with
  | nil => rfl
  | cons x slots ih =>
    have hx : s.ps.record x.element.order = some x.td := hrecord x mem_cons_self
    have hxused : ¬ x.element.order = tdiOrderUnused := hused x mem_cons_self
    have hxne : ¬ x.td.taddr = taddr := hne x mem_cons_self
    have hrec := @ih (idx + 1) (x.pos :: used)
      (fun y hy => hrecord y (mem_cons_of_mem x hy))
      (fun y hy => hused y (mem_cons_of_mem x hy))
      (fun y hy => hne y (mem_cons_of_mem x hy))
    have hnext : s.findLoop taddr idx used ((x :: slots).map Slot.element ++ rest) =
        s.findLoop taddr (idx + 1) (x.pos :: used) (slots.map Slot.element ++ rest) := by
      rw [map_cons, cons_append]
      conv => lhs; unfold Tdl.findLoop
      rw [if_neg hxused, hx]
      dsimp only
      rw [if_neg hxne, ite_self]
      rfl
    rw [hnext, hrec, map_cons, reverse_cons, length_cons, append_assoc,
      Nat.add_comm slots.length 1, Nat.add_assoc]
    rfl

/-- The slot of the device is found. -/
theorem findLoop_mem {x : Slot} (hx : s.ps.record x.pos = some x.td) (hhash : x.HashOk)
    (hused : x.pos ≠ tdiOrderUnused) (htaddr : x.taddr = taddr) :
    s.findLoop taddr idx used (x.element :: rest) = .inl ⟨some x.td, x.pos, idx⟩ := by
  have hx' : s.ps.record x.element.order = some x.td := hx
  have hxused : ¬ x.element.order = tdiOrderUnused := hused
  have hxtaddr : x.td.taddr = taddr := htaddr
  have hmatch : x.element.hash = tdiHash taddr.addr ∨ x.element.hash = tdiHashUnused :=
    htaddr ▸ hhash.symm
  unfold Tdl.findLoop
  rw [if_neg hxused, if_pos hmatch, hx']
  dsimp only
  rw [if_pos hxtaddr]
  rfl

end Find

/-- A position that no slot has is free. -/
theorem freePos_spec {used : List ℕ} {n : ℕ} (hlength : used.length < n) (hn : n ≤ 12) :
    Tdl.freePos used ∉ used ∧ Tdl.freePos used < n := by
  obtain ⟨p, hp, hnot⟩ : ∃ p < n, p ∉ used := by
    by_contra hall
    push Not at hall
    have hsub : (List.range n).Subperm used :=
      nodup_range.subperm fun p hp => hall p (mem_range.mp hp)
    have hle := hsub.length_le
    rw [length_range] at hle
    omega
  have hfind : ((List.range 16).find? fun q => decide (q ∉ used)).isSome = true :=
    find?_isSome.mpr ⟨p, mem_range.mpr (by omega), decide_eq_true hnot⟩
  obtain ⟨q, hq⟩ := Option.isSome_iff_exists.mp hfind
  have hfree : Tdl.freePos used = q := by
    unfold Tdl.freePos
    rw [hq]
    rfl
  rw [hfree]
  obtain ⟨hnotq, -, hfirst⟩ := find?_range_eq_some.mp hq
  refine ⟨of_decide_eq_true hnotq, Nat.lt_of_not_le fun hge => ?_⟩
  have hpq := hfirst p (by omega)
  rw [decide_eq_true hnot] at hpq
  exact absurd hpq Bool.false_ne_true

namespace Holds

variable (h : Holds cfg s slots)

include h

theorem pos_ne_unused : ∀ x ∈ slots, x.pos ≠ tdiOrderUnused := fun x hx => by
  have hlt := h.stored.pos_lt x hx
  have hle := cfg.le
  have hmax := cfg.lt
  unfold tdiOrderUnused
  omega

/-- The elements that are searched. -/
theorem exists_take : ∃ rest, s.tdi.take cfg.maxTrustedDevices = slots.map Slot.element ++ rest ∧
    (∀ e ∈ rest, e.order = tdiOrderUnused) ∧
    slots.length + rest.length = cfg.maxTrustedDevices := by
  obtain ⟨rest, htdi, hrest⟩ := h.tdi
  have hle := h.stored.le
  have hcfg := cfg.le
  have hlength := h.length
  refine ⟨rest.take (cfg.maxTrustedDevices - slots.length), ?_,
    fun e he => hrest e (mem_of_mem_take he), ?_⟩
  · rw [htdi, take_append, length_map, take_of_length_le]
    rw [length_map]
    exact hle
  · rw [htdi, length_append, length_map] at hlength
    rw [length_take]
    omega

/-- The elements that are not searched are unused. -/
theorem order_drop : ∀ e ∈ s.tdi.drop cfg.maxTrustedDevices, e.order = tdiOrderUnused := by
  intro e he
  obtain ⟨rest, htdi, hrest⟩ := h.tdi
  have hnil : (slots.map Slot.element).drop cfg.maxTrustedDevices = [] := by
    rw [drop_eq_nil_iff, length_map]
    exact h.stored.le
  rw [htdi, drop_append, hnil, nil_append] at he
  exact hrest e (mem_of_mem_drop he)

/-- A device on the list is found. -/
theorem tdlFindDevice_of_mem {before after : List Slot} {x : Slot}
    (hslots : slots = before ++ x :: after) (htaddr : x.taddr = taddr) :
    s.tdlFindDevice cfg taddr = ⟨some x.td, x.pos, before.length⟩ := by
  subst hslots
  obtain ⟨rest, htake, -, -⟩ := h.exists_take
  have hmem : ∀ y ∈ before, y ∈ before ++ x :: after := fun y hy => mem_append_left _ hy
  have hxmem : x ∈ before ++ x :: after := mem_append_right _ mem_cons_self
  have hne : ∀ y ∈ before, y.taddr ≠ taddr := fun y hy heq => by
    have hnodup := h.stored.taddrs
    rw [map_append, map_cons, nodup_append] at hnodup
    exact hnodup.2.2 _ (List.mem_map_of_mem hy) _ mem_cons_self (heq.trans htaddr.symm)
  unfold Tdl.tdlFindDevice
  rw [htake, map_append, map_cons, append_assoc, cons_append,
    findLoop_append (fun y hy => h.stored.record y (hmem y hy))
      (fun y hy => h.pos_ne_unused y (hmem y hy)) hne,
    findLoop_mem (h.stored.record x hxmem) (h.hash x hxmem) (h.pos_ne_unused x hxmem) htaddr,
    Nat.zero_add]

/-- Where a new device goes: the next free position, or the position and the index of the loop
over a full list. -/
theorem tdlFindDevice_of_forall_ne (hne : ∀ x ∈ slots, x.taddr ≠ taddr) :
    s.tdlFindDevice cfg taddr =
      if slots.length < cfg.maxTrustedDevices then
        ⟨none, Tdl.freePos (slots.map Slot.pos).reverse, slots.length⟩
      else
        ⟨none, (s.victimLoop (cfg.maxTrustedDevices - 1)
            (s.tdi.getD (cfg.maxTrustedDevices - 1) .unused).order).1,
          (s.victimLoop (cfg.maxTrustedDevices - 1)
            (s.tdi.getD (cfg.maxTrustedDevices - 1) .unused).order).2⟩ := by
  obtain ⟨rest, htake, hrest, -⟩ := h.exists_take
  have hends : Ends rest := fun e he => hrest e (mem_of_mem_head? he)
  unfold Tdl.tdlFindDevice
  rw [htake, findLoop_append h.stored.record h.pos_ne_unused hne, findLoop_ends hends,
    Nat.zero_add, append_nil]

/-- An element of the index. -/
theorem getD_tdi {i : ℕ} (hi : i < slots.length) : s.tdi.getD i .unused = slots[i].element := by
  obtain ⟨rest, htdi, -⟩ := h.tdi
  have hlt : i < (slots.map Slot.element).length := by rwa [length_map]
  rw [htdi, getD_append _ _ _ _ hlt, getD_eq_getElem _ _ hlt, getElem_map]

/-- The loop from the end stops at the last device without the priority flag. -/
theorem victimLoop_eq {before after : List Slot} {x : Slot} (hslots : slots = before ++ x :: after)
    (hbefore : before ≠ []) (hx : x.td.content.priorityDevice = false)
    (hafter : ∀ y ∈ after, y.td.content.priorityDevice = true) {n pos : ℕ} (hn : n ≤ after.length) :
    s.victimLoop (before.length + n) pos = (x.pos, before.length) := by
  subst hslots
  have hpos : 0 < before.length := length_pos_of_ne_nil hbefore
  induction n generalizing pos with
  | zero =>
    obtain ⟨k, hk⟩ : ∃ k, before.length = k + 1 := ⟨before.length - 1, by omega⟩
    have hlt : before.length < (before ++ x :: after).length := by simp
    have hget : (s.tdi.getD (k + 1) .unused).order = x.pos := by
      rw [← hk, h.getD_tdi hlt, getElem_append_right (Nat.le_refl _)]
      simp only [Nat.sub_self, getElem_cons_zero]
      rfl
    have hrecord := h.stored.record x (mem_append_right _ mem_cons_self)
    rw [Nat.add_zero, hk]
    unfold Tdl.victimLoop
    dsimp only
    rw [hget, hrecord]
    dsimp only
    rw [hx]
    rfl
  | succ n ih =>
    have hlt : n < after.length := by omega
    have hltAll : before.length + (n + 1) < (before ++ x :: after).length := by
      rw [length_append, length_cons]
      omega
    have hget : (s.tdi.getD (before.length + n + 1) .unused).order = after[n].pos := by
      rw [Nat.add_assoc, h.getD_tdi hltAll, getElem_append_right (Nat.le_add_right _ _)]
      simp only [Nat.add_sub_cancel_left, getElem_cons_succ]
      rfl
    have hmem : after[n] ∈ after := getElem_mem hlt
    have hrecord := h.stored.record after[n]
      (mem_append_right _ (mem_cons_of_mem _ hmem))
    rw [← Nat.add_assoc]
    unfold Tdl.victimLoop
    dsimp only
    rw [hget, hrecord]
    dsimp only
    rw [hafter _ hmem]
    exact ih (by omega)

end Holds

/-- The device `x` of a full list makes room: the last one without the priority flag, unless it is
the first one, or the only one. -/
structure IsVictim (before : List Slot) (x : Slot) (after : List Slot) : Prop where
  last : ∀ y ∈ after, y.td.content.priorityDevice = true
  place : (before ≠ [] ∧ x.td.content.priorityDevice = false) ∨ (before = [] ∧ after = [])

namespace Holds

/-- What is found for a new device in a full list. -/
theorem tdlFindDevice_of_isVictim (h : Holds cfg s slots) (hne : ∀ x ∈ slots, x.taddr ≠ taddr)
    (hfull : ¬ slots.length < cfg.maxTrustedDevices) {before after : List Slot} {x : Slot}
    (hslots : slots = before ++ x :: after) (hvictim : IsVictim before x after) :
    s.tdlFindDevice cfg taddr = ⟨none, x.pos, before.length⟩ := by
  have hle := h.stored.le
  have hlength : slots.length = before.length + after.length + 1 := by
    rw [hslots, length_append, length_cons]
    omega
  have hlast : cfg.maxTrustedDevices - 1 = before.length + after.length := by omega
  rw [h.tdlFindDevice_of_forall_ne hne, if_neg hfull, hlast]
  rcases hvictim.place with ⟨hbefore, hx⟩ | ⟨rfl, rfl⟩
  · rw [h.victimLoop_eq hslots hbefore hx hvictim.last (Nat.le_refl _)]
  · subst hslots
    have hget := h.getD_tdi (show 0 < ([] ++ x :: []).length from Nat.one_pos)
    rw [length_nil, Nat.add_zero, hget]
    rfl

/-- What is found for a new device in a list with room. -/
theorem tdlFindDevice_of_lt (h : Holds cfg s slots) (hne : ∀ x ∈ slots, x.taddr ≠ taddr)
    (hlt : slots.length < cfg.maxTrustedDevices) :
    ∃ pos, s.tdlFindDevice cfg taddr = ⟨none, pos, slots.length⟩ ∧ pos ∉ slots.map Slot.pos ∧
      pos < cfg.maxTrustedDevices := by
  rw [h.tdlFindDevice_of_forall_ne hne, if_pos hlt]
  have hcfg := Nat.le_trans cfg.le cfg.lt
  have hlength : (slots.map Slot.pos).reverse.length < cfg.maxTrustedDevices := by
    rwa [length_reverse, length_map]
  obtain ⟨hnot, hpos⟩ := freePos_spec hlength hcfg
  exact ⟨_, rfl, fun hmem => hnot (mem_reverse.mpr hmem), hpos⟩

/-- The index is stored with the elements of slots whose records are there. -/
theorem storeTrustedDeviceIndex {slots' : List Slot} {tdi rest : List Element}
    (hpacked : (readTrustedDeviceIndex cfg s.ps).map Element.order = s.tdi.map Element.order)
    (htdi : tdi = slots'.map Slot.element ++ rest) (hrest : ∀ e ∈ rest, e.order = tdiOrderUnused)
    (hlength : tdi.length = cfg.maxNoDevicesToManage)
    (hle : slots'.length ≤ cfg.maxTrustedDevices)
    (hlt : ∀ x ∈ slots', x.pos < cfg.maxTrustedDevices) (hnodup : (slots'.map Slot.pos).Nodup)
    (hrecord : ∀ x ∈ slots', s.ps.record x.pos = some x.td)
    (htaddrs : (slots'.map Slot.taddr).Nodup) (hhash : ∀ x ∈ slots', x.HashOk) :
    Holds cfg (s.storeTrustedDeviceIndex cfg tdi) slots' := by
  have hcfg := Nat.le_trans cfg.le cfg.lt
  have hmap : tdi.map Element.order = slots'.map Slot.pos ++ rest.map Element.order := by
    rw [htdi, map_append, List.map_map]
    rfl
  have hunused : ∀ o ∈ rest.map Element.order, o = tdiOrderUnused := fun o ho => by
    obtain ⟨e, he, rfl⟩ := List.mem_map.mp ho
    exact hrest e he
  have horders : ∀ o ∈ tdi.map Element.order, o < 16 := fun o ho => by
    rw [hmap] at ho
    rcases mem_append.mp ho with ho | ho
    · obtain ⟨x, hx, rfl⟩ := List.mem_map.mp ho
      have := hlt x hx
      omega
    · rw [hunused o ho]
      decide
  unfold Tdl.storeTrustedDeviceIndex
  by_cases hsame : tdi ≠ s.tdi
  · rw [if_pos hsame]
    have hread : (readTrustedDeviceIndex cfg (s.ps.store (.index (some (packOrders cfg.tdiSize
        (tdi.map Element.order)))))).map Element.order = tdi.map Element.order :=
      map_order_read (by rw [length_map, hlength]) horders rfl
    exact ⟨⟨⟨_, hread.trans hmap, hunused⟩, hle, hlt, hnodup, hrecord, htaddrs⟩,
      ⟨rest, htdi, hrest⟩, hlength, hhash, hread⟩
  · rw [if_neg hsame]
    obtain rfl := not_not.mp hsame
    exact ⟨⟨⟨_, hpacked.trans hmap, hunused⟩, hle, hlt, hnodup, hrecord, htaddrs⟩,
      ⟨rest, htdi, hrest⟩, hlength, hhash, hpacked⟩

end Holds

end Mh40.TrustedDevices
