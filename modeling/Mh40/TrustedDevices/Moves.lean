import Mh40.TrustedDevices.Held

/-!
# What operations do to the list

Every operation is a row of moves: a record is written, an element moves to the front, one is put
in or taken out. `Moves about` says what a move about some addresses keeps.

* `Cuts`: what holds of the store between any two calls of `PsStore`.
* `Moves`: the list is held, and all devices that the move is not about stay on it, in order, with
  their records and attributes, also when power is lost.
-/

namespace Mh40.TrustedDevices

open List Function

variable {cfg : Config} {s s' s'' : Tdl} {ps : Ps} {slots slots' slots'' : List Slot}
  {about : List TypedBdaddr}

/-! ## Losing power -/

/-- The property holds of the store before, between and after the calls of `PsStore`. -/
def Cuts (P : Ps → Prop) (s s' : Tdl) : Prop :=
  ∃ ws, s'.writes = s.writes ++ ws ∧ s'.ps = ws.foldl Ps.store s.ps ∧
    ∀ n, P ((ws.take n).foldl Ps.store s.ps)

section Cuts

variable {P : Ps → Prop}

theorem Cuts.refl (h : P s.ps) : Cuts P s s :=
  ⟨[], (append_nil _).symm, rfl, fun n => by rw [take_nil]; exact h⟩

theorem Cuts.trans (h : Cuts P s s') (h' : Cuts P s' s'') : Cuts P s s'' := by
  obtain ⟨ws, hwrites, hps, hcut⟩ := h
  obtain ⟨ws', hwrites', hps', hcut'⟩ := h'
  refine ⟨ws ++ ws', by rw [hwrites', hwrites, append_assoc], ?_, fun n => ?_⟩
  · rw [hps', hps, foldl_append]
  · rw [take_append, foldl_append]
    by_cases hn : n ≤ ws.length
    · rw [Nat.sub_eq_zero_of_le hn, take_zero]
      exact hcut n
    · rw [take_of_length_le (Nat.le_of_not_le hn), ← hps]
      exact hcut' _

theorem Cuts.psStore {w : PsWrite} (h : P s.ps) (h' : P (s.ps.store w)) :
    Cuts P s (s.psStore w) := by
  refine ⟨[w], rfl, rfl, fun n => ?_⟩
  cases n with
  | zero => exact h
  | succ n =>
    rw [take_succ_cons, take_nil]
    exact h'

theorem Cuts.storeTrustedDeviceIndex {tdi : List Element} (h : P s.ps)
    (h' : P (s.storeTrustedDeviceIndex cfg tdi).ps) :
    Cuts P s (s.storeTrustedDeviceIndex cfg tdi) := by
  unfold Tdl.storeTrustedDeviceIndex at h' ⊢
  by_cases hsame : tdi ≠ s.tdi
  · rw [if_pos hsame] at h' ⊢
    exact @Cuts.psStore { s with tdi := tdi } P _ h h'
  · rw [if_neg hsame]
    exact Cuts.refl h

/-- The cached index does not matter. -/
theorem Cuts.of_eq (h : Cuts P s s') (hps : s''.ps = s'.ps) (hwrites : s''.writes = s'.writes) :
    Cuts P s s'' := by
  obtain ⟨ws, hwrites', hps', hcut⟩ := h
  exact ⟨ws, hwrites.trans hwrites', hps.trans hps', hcut⟩

end Cuts

/-! ## Moves -/

/-- A record with what else is stored at its position. -/
structure Device where
  td : TdData
  tdlAttribute : Option (List Uint16)
  tdlGattAttribute : Option (List Uint16)
deriving DecidableEq, Repr

/-- The device of a slot. -/
def Slot.device (ps : Ps) (x : Slot) : Device :=
  ⟨x.td, ps.tdlAttribute x.pos, ps.tdlGattAttribute x.pos⟩

/-- The slots that are not about the addresses. -/
def otherSlots (about : List TypedBdaddr) (slots : List Slot) : List Slot :=
  slots.filter fun x => decide (x.taddr ∉ about)

/-- The records are on the list of the store. -/
def Survive (cfg : Config) (kept : List TdData) (ps : Ps) : Prop :=
  ∃ slots, Stored cfg ps slots ∧ ∀ td ∈ kept, td ∈ slots.map Slot.td

/-- Positions without a slot have no record. -/
def NoOrphans (ps : Ps) (slots : List Slot) : Prop :=
  ∀ pos ∉ slots.map Slot.pos, ps.record pos = none

/-- A move about some addresses: the other devices stay. -/
structure Moves (cfg : Config) (about : List TypedBdaddr) (s : Tdl) (slots : List Slot) (s' : Tdl)
    (slots' : List Slot) : Prop where
  holds : Holds cfg s' slots'
  noOrphans : NoOrphans s.ps slots → NoOrphans s'.ps slots'
  others : (otherSlots about slots').map (Slot.device s'.ps) =
    (otherSlots about slots).map (Slot.device s.ps)
  cuts : Cuts (Survive cfg ((otherSlots about slots).map Slot.td)) s s'

theorem map_td_eq (h : (otherSlots about slots').map (Slot.device s'.ps) =
    (otherSlots about slots).map (Slot.device s.ps)) :
    (otherSlots about slots').map Slot.td = (otherSlots about slots).map Slot.td := by
  have hmap := congrArg (List.map Device.td) h
  rw [List.map_map, List.map_map] at hmap
  exact hmap

/-- The slots of a store hold the records of the others. -/
theorem Stored.survive (h : Stored cfg ps slots') (hothers : (otherSlots about slots').map Slot.td =
    (otherSlots about slots).map Slot.td) :
    Survive cfg ((otherSlots about slots).map Slot.td) ps := by
  refine ⟨slots', h, fun td htd => ?_⟩
  rw [← hothers] at htd
  obtain ⟨x, hx, rfl⟩ := List.mem_map.mp htd
  exact List.mem_map_of_mem (mem_of_mem_filter hx)

theorem Moves.refl (h : Holds cfg s slots) : Moves cfg about s slots s slots :=
  ⟨h, id, rfl, Cuts.refl (h.stored.survive rfl)⟩

theorem Moves.trans (h : Moves cfg about s slots s' slots')
    (h' : Moves cfg about s' slots' s'' slots'') :
    Moves cfg about s slots s'' slots'' := by
  refine ⟨h'.holds, fun ho => h'.noOrphans (h.noOrphans ho), h'.others.trans h.others, ?_⟩
  have hcuts := h'.cuts
  rw [map_td_eq h.others] at hcuts
  exact h.cuts.trans hcuts

/-! ### Attributes -/

/-- What is stored of a list does not depend on attributes. -/
theorem Stored.congr {ps' : Ps} (h : Stored cfg ps slots) (hindex : ps'.index = ps.index)
    (hrecord : ps'.record = ps.record) : Stored cfg ps' slots := by
  have hread : readTrustedDeviceIndex cfg ps' = readTrustedDeviceIndex cfg ps := by
    unfold readTrustedDeviceIndex
    rw [hindex]
  refine ⟨hread ▸ h.index, h.le, h.pos_lt, h.nodup, ?_, h.taddrs⟩
  rw [hrecord]
  exact h.record

/-- Neither the index nor a record is written. -/
theorem Moves.attributes (h : Holds cfg s slots) {w : PsWrite}
    (hindex : (s.ps.store w).index = s.ps.index) (hrecord : (s.ps.store w).record = s.ps.record)
    (hdevice : ∀ x ∈ otherSlots about slots, x.device (s.ps.store w) = x.device s.ps) :
    Moves cfg about s slots (s.psStore w) slots := by
  have hstored : Stored cfg (s.ps.store w) slots := h.stored.congr hindex hrecord
  have hread : readTrustedDeviceIndex cfg (s.ps.store w) = readTrustedDeviceIndex cfg s.ps := by
    unfold readTrustedDeviceIndex
    rw [hindex]
  refine ⟨⟨hstored, h.tdi, h.length, h.hash, ?_⟩, fun ho pos hpos => ?_,
    map_congr_left hdevice, Cuts.psStore (h.stored.survive rfl) (hstored.survive rfl)⟩
  · exact (congrArg _ hread).trans h.packed
  · exact (congrFun hrecord pos).trans (ho pos hpos)

/-- Deleting attributes keeps the list, its records and the index. -/
theorem Holds.deleteAttribute (h : Holds cfg s slots) (pos : ℕ) :
    Holds cfg (s.deleteAttribute pos) slots ∧ (s.deleteAttribute pos).ps.record = s.ps.record ∧
      Cuts (Survive cfg (slots.map Slot.td)) s (s.deleteAttribute pos) := by
  have hsurvive : ∀ {ps : Ps}, Stored cfg ps slots → Survive cfg (slots.map Slot.td) ps :=
    fun hstored => ⟨slots, hstored, fun td htd => htd⟩
  unfold Tdl.deleteAttribute
  split_ifs
  · have hstored : Stored cfg (s.ps.store (.tdlAttribute pos none)) slots :=
      h.stored.congr rfl rfl
    exact ⟨⟨hstored, h.tdi, h.length, h.hash, h.packed⟩, rfl,
      Cuts.psStore (hsurvive h.stored) (hsurvive hstored)⟩
  · exact ⟨h, rfl, Cuts.refl (hsurvive h.stored)⟩

section Attributes

variable (h : Holds cfg s slots) {pos : ℕ} (hpos : ∀ x ∈ otherSlots about slots, x.pos ≠ pos)

include h hpos

theorem Moves.tdlAttribute (data : Option (List Uint16)) :
    Moves cfg about s slots (s.psStore (.tdlAttribute pos data)) slots := by
  refine Moves.attributes h rfl rfl fun x hx => ?_
  unfold Slot.device Ps.store
  dsimp only
  rw [update_of_ne (hpos x hx)]

theorem Moves.tdlGattAttribute (data : Option (List Uint16)) :
    Moves cfg about s slots (s.psStore (.tdlGattAttribute pos data)) slots := by
  refine Moves.attributes h rfl rfl fun x hx => ?_
  unfold Slot.device Ps.store
  dsimp only
  rw [update_of_ne (hpos x hx)]

theorem Moves.deleteAttribute : Moves cfg about s slots (s.deleteAttribute pos) slots := by
  unfold Tdl.deleteAttribute
  split_ifs
  · exact Moves.tdlAttribute h hpos none
  · exact Moves.refl h

end Attributes

/-! ### Records -/

section Split

variable {before after : List Slot} {x x' : Slot}

theorem otherSlots_split (hx : x.taddr ∈ about) :
    otherSlots about (before ++ x :: after) = otherSlots about (before ++ after) := by
  unfold otherSlots
  rw [filter_append, filter_append, filter_cons_of_neg (by simpa using hx)]

/-- The position of a slot is not that of another one. -/
theorem pos_ne_of_split (h : Stored cfg ps (before ++ x :: after)) :
    ∀ y ∈ before ++ after, y.pos ≠ x.pos := by
  intro y hy heq
  have hnodup : ((x :: (before ++ after)).map Slot.pos).Nodup :=
    (perm_middle.map Slot.pos).nodup_iff.mp h.nodup
  rw [map_cons, nodup_cons] at hnodup
  exact hnodup.1 (heq ▸ List.mem_map_of_mem hy)

/-- A record is written over another one, or for another device. -/
theorem Stored.record_split (h : Stored cfg ps (before ++ x :: after)) (hpos : x'.pos = x.pos)
    (htaddr : ∀ y ∈ before ++ after, y.taddr ≠ x'.taddr) :
    Stored cfg (ps.store (.record x.pos (some x'.td))) (before ++ x' :: after) := by
  have hne := pos_ne_of_split h
  have hmap : (before ++ x' :: after).map Slot.pos = (before ++ x :: after).map Slot.pos := by
    rw [map_append, map_append, map_cons, map_cons, hpos]
  refine ⟨?_, ?_, fun y hy => ?_, hmap ▸ h.nodup, fun y hy => ?_, ?_⟩
  · rw [hmap]
    exact h.index
  · have hle := h.le
    rw [length_append, length_cons] at hle ⊢
    exact hle
  · rcases mem_append.mp hy with hy | hy
    · exact h.pos_lt y (mem_append_left _ hy)
    · rcases mem_cons.mp hy with rfl | hy
      · rw [hpos]
        exact h.pos_lt x (mem_append_right _ mem_cons_self)
      · exact h.pos_lt y (mem_append_right _ (mem_cons_of_mem x hy))
  · change update ps.record x.pos (some x'.td) y.pos = some y.td
    rcases mem_append.mp hy with hy | hy
    · rw [update_of_ne (hne y (mem_append_left _ hy))]
      exact h.record y (mem_append_left _ hy)
    · rcases mem_cons.mp hy with rfl | hy
      · rw [hpos, update_self]
      · rw [update_of_ne (hne y (mem_append_right _ hy))]
        exact h.record y (mem_append_right _ (mem_cons_of_mem x hy))
  · have hold : ((x :: (before ++ after)).map Slot.taddr).Nodup :=
      (perm_middle.map Slot.taddr).nodup_iff.mp h.taddrs
    refine (perm_middle.map Slot.taddr).nodup_iff.mpr ?_
    rw [map_cons, nodup_cons] at hold ⊢
    refine ⟨fun hmem => ?_, hold.2⟩
    obtain ⟨y, hy, heq⟩ := List.mem_map.mp hmem
    exact htaddr y hy heq

/-- A record is written over another one, or for another device, and its hash is cached. -/
theorem Moves.record (h : Holds cfg s (before ++ x :: after)) (hpos : x'.pos = x.pos)
    (htaddr : ∀ y ∈ before ++ after, y.taddr ≠ x'.taddr) (hhash : x'.HashOk)
    (hx : x.taddr ∈ about) (hx' : x'.taddr ∈ about)
    (hps : s'.ps = s.ps.store (.record x.pos (some x'.td)))
    (hwrites : s'.writes = s.writes ++ [.record x.pos (some x'.td)])
    (htdi : ∀ rest, s.tdi = (before ++ x :: after).map Slot.element ++ rest →
      s'.tdi = (before ++ x' :: after).map Slot.element ++ rest) :
    Moves cfg about s (before ++ x :: after) s' (before ++ x' :: after) := by
  have hstored := h.stored.record_split hpos htaddr
  have hothers : otherSlots about (before ++ x' :: after) =
      otherSlots about (before ++ x :: after) := by
    rw [otherSlots_split hx, otherSlots_split hx']
  have horders : s'.tdi.map Element.order = s.tdi.map Element.order := by
    obtain ⟨rest, hrest, -⟩ := h.tdi
    have hpos' : x'.element.order = x.element.order := hpos
    rw [htdi rest hrest, hrest]
    simp only [map_append, map_cons, hpos']
  have hlength : s'.tdi.length = s.tdi.length := by
    rw [← length_map, horders, length_map]
  have hcuts : Cuts (Survive cfg ((otherSlots about (before ++ x :: after)).map Slot.td)) s
      (s.psStore (.record x.pos (some x'.td))) :=
    Cuts.psStore (h.stored.survive rfl) (hstored.survive (by rw [hothers]))
  refine ⟨⟨hps ▸ hstored, ?_, hlength.trans h.length, fun y hy => ?_, ?_⟩, fun ho pos hnot => ?_,
    ?_, hcuts.of_eq hps hwrites⟩
  · obtain ⟨rest, hrest, hunused⟩ := h.tdi
    exact ⟨rest, htdi rest hrest, hunused⟩
  · rcases mem_append.mp hy with hy | hy
    · exact h.hash y (mem_append_left _ hy)
    · rcases mem_cons.mp hy with rfl | hy
      · exact hhash
      · exact h.hash y (mem_append_right _ (mem_cons_of_mem x hy))
  · rw [horders, hps]
    exact h.packed
  · have hmap : (before ++ x' :: after).map Slot.pos = (before ++ x :: after).map Slot.pos := by
      rw [map_append, map_append, map_cons, map_cons, hpos]
    rw [hmap] at hnot
    have hne : pos ≠ x.pos := fun heq => hnot (heq ▸ List.mem_map_of_mem
      (mem_append_right _ mem_cons_self))
    rw [hps]
    change update s.ps.record x.pos (some x'.td) pos = none
    rw [update_of_ne hne]
    exact ho pos hnot
  · rw [hothers, hps]
    rfl

/-! ### The order of the index -/

/-- Storing the index changes neither records nor attributes. -/
theorem storeTrustedDeviceIndex_frame (tdi : List Element) :
    (s.storeTrustedDeviceIndex cfg tdi).ps.record = s.ps.record ∧
      (s.storeTrustedDeviceIndex cfg tdi).ps.tdlAttribute = s.ps.tdlAttribute ∧
      (s.storeTrustedDeviceIndex cfg tdi).ps.tdlGattAttribute = s.ps.tdlGattAttribute := by
  unfold Tdl.storeTrustedDeviceIndex
  split_ifs <;> exact ⟨rfl, rfl, rfl⟩

/-- An index of the same slots is stored, in another order. -/
theorem Moves.reorder (h : Holds cfg s slots) {tdi rest : List Element} (hperm : slots'.Perm slots)
    (htdi : tdi = slots'.map Slot.element ++ rest) (hrest : ∀ e ∈ rest, e.order = tdiOrderUnused)
    (hlength : tdi.length = cfg.maxNoDevicesToManage)
    (hothers : otherSlots about slots' = otherSlots about slots) :
    Moves cfg about s slots (s.storeTrustedDeviceIndex cfg tdi) slots' := by
  have hstored := h.stored
  obtain ⟨hrecord, hattribute, hgatt⟩ := @storeTrustedDeviceIndex_frame cfg s tdi
  have hholds : Holds cfg (s.storeTrustedDeviceIndex cfg tdi) slots' :=
    Holds.storeTrustedDeviceIndex h.packed htdi hrest hlength (hperm.length_eq ▸ hstored.le)
      (fun x hx => hstored.pos_lt x (hperm.mem_iff.mp hx))
      ((hperm.map Slot.pos).nodup_iff.mpr hstored.nodup)
      (fun x hx => hstored.record x (hperm.mem_iff.mp hx))
      ((hperm.map Slot.taddr).nodup_iff.mpr hstored.taddrs)
      (fun x hx => h.hash x (hperm.mem_iff.mp hx))
  refine ⟨hholds, fun ho pos hnot => ?_, ?_, Cuts.storeTrustedDeviceIndex (hstored.survive rfl)
    (hholds.stored.survive (by rw [hothers]))⟩
  · rw [hrecord]
    exact ho pos fun hmem => hnot ((hperm.map Slot.pos).mem_iff.mpr hmem)
  · rw [hothers]
    refine map_congr_left fun x _ => ?_
    unfold Slot.device
    rw [hattribute, hgatt]

/-- The element at the length of a list. -/
theorem eraseIdx_length {α : Type*} (l r : List α) (a : α) :
    (l ++ a :: r).eraseIdx l.length = l ++ r := by
  rw [eraseIdx_append_of_length_le (Nat.le_refl _), Nat.sub_self, eraseIdx_cons_zero]

theorem modify_length {α : Type*} (l r : List α) (a : α) (f : α → α) :
    (l ++ a :: r).modify l.length f = l ++ f a :: r := by
  induction l with
  | nil => rfl
  | cons b l ih => exact congrArg (b :: ·) ih

/-- A device becomes the one used most recently. -/
theorem Moves.updateTrustedDeviceIndex (h : Holds cfg s (before ++ x :: after))
    (hx : x.taddr ∈ about) :
    Moves cfg about s (before ++ x :: after)
      (s.updateTrustedDeviceIndex cfg x.pos before.length) (x :: (before ++ after)) := by
  obtain ⟨rest, hrest, hunused⟩ := h.tdi
  have hidx : before.length < (before ++ x :: after).length := by
    rw [length_append, length_cons]
    omega
  have hlt : before.length < s.tdi.length := by
    rw [hrest, length_append, length_map]
    omega
  have hget : s.tdi.getD before.length .unused = x.element := by
    rw [h.getD_tdi hidx, getElem_append_right (Nat.le_refl _)]
    simp only [Nat.sub_self, getElem_cons_zero]
  have herase : s.tdi.eraseIdx before.length = (before ++ after).map Slot.element ++ rest := by
    have hlen : before.length = (before.map Slot.element).length := (length_map _).symm
    rw [hrest, map_append, map_cons, append_assoc, cons_append, hlen,
      eraseIdx_length, map_append, append_assoc]
  unfold Tdl.updateTrustedDeviceIndex
  dsimp only
  rw [hget, Tdl.moveDown_set hlt, herase]
  refine Moves.reorder h perm_middle.symm rfl hunused ?_ ?_
  · rw [length_cons, ← herase, length_eraseIdx_of_lt hlt, ← h.length]
    omega
  · rw [otherSlots_split hx]
    exact filter_cons_of_neg (by simpa using hx)

/-- The element that moves stops behind the priority devices that follow it. -/
theorem sinkLoop_eq {td : TdData} {e : Element} {rest : List Element}
    (hrecord : ∀ y ∈ slots, ps.record y.pos = some y.td)
    (hused : ∀ y ∈ slots, y.pos ≠ tdiOrderUnused) (hrest : Ends rest) :
    ∃ front back, slots = front ++ back ∧
      Tdl.sinkLoop ps td e (slots.map Slot.element ++ rest) =
        front.map Slot.element ++ e :: (back.map Slot.element ++ rest) := by
  induction slots generalizing td with
  | nil =>
    refine ⟨[], [], rfl, ?_⟩
    cases rest with
    | nil => rfl
    | cons e' rest =>
      simp only [map_nil, nil_append]
      unfold Tdl.sinkLoop
      rw [if_pos (hrest e' rfl)]
  | cons y slots ih =>
    have hy : ps.record y.element.order = some y.td := hrecord y mem_cons_self
    have hyused : ¬ y.element.order = tdiOrderUnused := hused y mem_cons_self
    rw [map_cons, cons_append]
    unfold Tdl.sinkLoop
    rw [if_neg hyused, hy]
    dsimp only [Option.getD_some]
    by_cases hprio : y.td.content.priorityDevice = true
    · rw [if_pos hprio]
      obtain ⟨front, back, rfl, heq⟩ := @ih y.td
        (fun z hz => hrecord z (mem_cons_of_mem y hz))
        (fun z hz => hused z (mem_cons_of_mem y hz))
      refine ⟨y :: front, back, rfl, ?_⟩
      rw [heq]
      rfl
    · rw [if_neg hprio]
      exact ⟨[], y :: slots, rfl, rfl⟩

/-- The device used most recently moves behind the priority devices. -/
theorem Moves.sink (h : Holds cfg s (x :: slots)) (hx : x.taddr ∈ about) (td : TdData) :
    ∃ front back, slots = front ++ back ∧
      Moves cfg about s (x :: slots) (s.storeTrustedDeviceIndex cfg (match s.tdi with
        | [] => []
        | e :: es => Tdl.sinkLoop s.ps td e es)) (front ++ x :: back) := by
  obtain ⟨rest, hrest, hunused⟩ := h.tdi
  have hends : Ends rest := fun e he => hunused e (mem_of_mem_head? he)
  obtain ⟨front, back, rfl, heq⟩ := @sinkLoop_eq s.ps slots td x.element rest
    (fun y hy => h.stored.record y (mem_cons_of_mem x hy))
    (fun y hy => h.pos_ne_unused y (mem_cons_of_mem x hy)) hends
  refine ⟨front, back, rfl, ?_⟩
  have htdi : (match s.tdi with
      | [] => []
      | e :: es => Tdl.sinkLoop s.ps td e es) =
      (front ++ x :: back).map Slot.element ++ rest := by
    rw [hrest, map_cons, cons_append]
    dsimp only
    rw [heq, map_append, map_cons, append_assoc, cons_append]
  refine Moves.reorder h perm_middle htdi hunused ?_ ?_
  · rw [htdi, ← h.length, hrest]
    simp only [length_append, length_map, length_cons]
    omega
  · rw [otherSlots_split hx]
    exact (filter_cons_of_neg (by simpa using hx)).symm

/-! ### Putting in and taking out -/

/-- A position without a slot is written. -/
theorem Stored.record_free (h : Stored cfg ps slots) {pos : ℕ} (hpos : pos ∉ slots.map Slot.pos)
    (td : Option TdData) : Stored cfg (ps.store (.record pos td)) slots := by
  refine ⟨h.index, h.le, h.pos_lt, h.nodup, fun y hy => ?_, h.taddrs⟩
  have hne : y.pos ≠ pos := fun heq => hpos (heq ▸ List.mem_map_of_mem hy)
  change update ps.record pos td y.pos = some y.td
  rw [update_of_ne hne]
  exact h.record y hy

/-- A new device is stored at a free position, and becomes the one used most recently. -/
theorem Moves.push (h : Holds cfg s slots) (hpos : x.pos ∉ slots.map Slot.pos)
    (hlt : x.pos < cfg.maxTrustedDevices) (hroom : slots.length < cfg.maxTrustedDevices)
    (htaddr : ∀ y ∈ slots, y.taddr ≠ x.taddr) (hhash : x.HashOk) (hx : x.taddr ∈ about) :
    Moves cfg about s slots
      (((s.psStore (.record x.pos (some x.td))).setHash slots.length x.element.hash)
        |>.updateTrustedDeviceIndex cfg x.pos slots.length) (x :: slots) := by
  obtain ⟨rest, hrest, hunused⟩ := h.tdi
  have hlength := h.length
  have hcfg := cfg.le
  obtain ⟨e, rest, rfl⟩ : ∃ e es, rest = e :: es := by
    refine exists_cons_of_ne_nil fun hnil => ?_
    rw [hrest, hnil, append_nil, length_map] at hlength
    omega
  have hstored := h.stored.record_free hpos (some x.td)
  have hothers : otherSlots about (x :: slots) = otherSlots about slots :=
    filter_cons_of_neg (by simpa using hx)
  generalize hs1 : (s.psStore (.record x.pos (some x.td))).setHash slots.length x.element.hash = s1
  have hps : s1.ps = s.ps.store (.record x.pos (some x.td)) := by rw [← hs1]; rfl
  have hlen : slots.length = (slots.map Slot.element).length := (length_map _).symm
  have htdi : s1.tdi = slots.map Slot.element ++ { e with hash := x.element.hash } :: rest := by
    rw [← hs1]
    change s.tdi.modify slots.length _ = _
    rw [hrest, hlen, modify_length]
  have hlt1 : slots.length < s1.tdi.length := by
    rw [htdi, length_append, length_map, length_cons]
    omega
  have hget : s1.tdi.getD slots.length .unused = { e with hash := x.element.hash } := by
    rw [htdi, getD_append_right _ _ _ _ (by rw [length_map]), length_map,
      Nat.sub_self, getD_cons_zero]
  have hpacked : (readTrustedDeviceIndex cfg s1.ps).map Element.order =
      s1.tdi.map Element.order := by
    rw [hps, htdi]
    refine h.packed.trans ?_
    rw [hrest]
    simp only [map_append, map_cons]
  have hcuts : Cuts (Survive cfg ((otherSlots about slots).map Slot.td)) s s1 := by
    have hstore : Cuts (Survive cfg ((otherSlots about slots).map Slot.td)) s
        (s.psStore (.record x.pos (some x.td))) :=
      Cuts.psStore (h.stored.survive rfl) (hstored.survive rfl)
    exact hstore.of_eq hps (by rw [← hs1]; rfl)
  unfold Tdl.updateTrustedDeviceIndex
  dsimp only
  rw [hget, Tdl.moveDown_set hlt1]
  have herase : s1.tdi.eraseIdx slots.length = slots.map Slot.element ++ rest := by
    rw [htdi, hlen, eraseIdx_length]
  rw [herase]
  obtain ⟨hrecord, hattribute, hgatt⟩ :=
    @storeTrustedDeviceIndex_frame cfg s1 (x.element :: (slots.map Slot.element ++ rest))
  have hnodup : ((x :: slots).map Slot.pos).Nodup :=
    nodup_cons.mpr ⟨hpos, h.stored.nodup⟩
  have hholds : Holds cfg
      (s1.storeTrustedDeviceIndex cfg (x.element :: (slots.map Slot.element ++ rest)))
      (x :: slots) := by
    refine Holds.storeTrustedDeviceIndex hpacked rfl
      (fun e' he' => hunused e' (mem_cons_of_mem e he')) ?_ hroom ?_ hnodup ?_ ?_ ?_
    · rw [length_cons, ← hlength, hrest, length_append, length_append,
        length_cons]
      omega
    · intro y hy
      rcases mem_cons.mp hy with rfl | hy
      · exact hlt
      · exact h.stored.pos_lt y hy
    · intro y hy
      rw [hps]
      rcases mem_cons.mp hy with rfl | hy
      · exact update_self ..
      · exact hstored.record y hy
    · refine nodup_cons.mpr ⟨fun hmem => ?_, h.stored.taddrs⟩
      obtain ⟨y, hy, heq⟩ := List.mem_map.mp hmem
      exact htaddr y hy heq
    · intro y hy
      rcases mem_cons.mp hy with rfl | hy
      · exact hhash
      · exact h.hash y hy
  refine ⟨hholds, fun ho pos hnot => ?_, ?_, hcuts.trans (Cuts.storeTrustedDeviceIndex ?_
    (hholds.stored.survive (by rw [hothers])))⟩
  · have hne : pos ≠ x.pos := fun heq => hnot (heq ▸ mem_cons_self)
    change (s1.storeTrustedDeviceIndex cfg
      (x.element :: (slots.map Slot.element ++ rest))).ps.record pos = none
    rw [hrecord, hps]
    change update s.ps.record x.pos (some x.td) pos = none
    rw [update_of_ne hne]
    exact ho pos fun hmem => hnot (mem_cons_of_mem _ hmem)
  · rw [hothers]
    refine map_congr_left fun y _ => ?_
    unfold Slot.device
    change (⟨y.td, (s1.storeTrustedDeviceIndex cfg
      (x.element :: (slots.map Slot.element ++ rest))).ps.tdlAttribute y.pos,
      (s1.storeTrustedDeviceIndex cfg
      (x.element :: (slots.map Slot.element ++ rest))).ps.tdlGattAttribute y.pos⟩ : Device) = _
    rw [hattribute, hgatt, hps]
    rfl
  · rw [hps]
    exact hstored.survive rfl

/-- An index without a device is stored, and its record deleted. -/
theorem Moves.take_out (h : Holds cfg s (before ++ x :: after)) (hx : x.taddr ∈ about)
    {tdi rest : List Element} (htdi : tdi = (before ++ after).map Slot.element ++ rest)
    (hrest : ∀ e ∈ rest, e.order = tdiOrderUnused)
    (hlength : tdi.length = cfg.maxNoDevicesToManage) :
    Moves cfg about s (before ++ x :: after)
      ((s.storeTrustedDeviceIndex cfg tdi).psStore (.record x.pos none)) (before ++ after) := by
  have hstored := h.stored
  have hsub : ∀ y ∈ before ++ after, y ∈ before ++ x :: after := fun y hy =>
    (mem_append.mp hy).elim (mem_append_left _)
      fun hy => mem_append_right _ (mem_cons_of_mem x hy)
  have hne := pos_ne_of_split hstored
  have hpos : x.pos ∉ (before ++ after).map Slot.pos := fun hmem => by
    obtain ⟨y, hy, heq⟩ := List.mem_map.mp hmem
    exact hne y hy heq
  have hle : (before ++ after).length ≤ cfg.maxTrustedDevices := by
    have hle := hstored.le
    rw [length_append, length_cons] at hle
    rw [length_append]
    omega
  obtain ⟨hrecord, hattribute, hgatt⟩ := @storeTrustedDeviceIndex_frame cfg s tdi
  have hholds : Holds cfg (s.storeTrustedDeviceIndex cfg tdi) (before ++ after) :=
    Holds.storeTrustedDeviceIndex h.packed htdi hrest hlength hle
      (fun y hy => hstored.pos_lt y (hsub y hy))
      (nodup_cons.mp ((perm_middle.map Slot.pos).nodup_iff.mp hstored.nodup)).2
      (fun y hy => hstored.record y (hsub y hy))
      (nodup_cons.mp ((perm_middle.map Slot.taddr).nodup_iff.mp hstored.taddrs)).2
      (fun y hy => h.hash y (hsub y hy))
  have hfree := hholds.stored.record_free hpos none
  have hothers : otherSlots about (before ++ after) = otherSlots about (before ++ x :: after) :=
    (otherSlots_split hx).symm
  refine ⟨⟨hfree, hholds.tdi, hholds.length, hholds.hash, hholds.packed⟩,
    fun ho pos hnot => ?_, ?_, ?_⟩
  · change update (s.storeTrustedDeviceIndex cfg tdi).ps.record x.pos none pos = none
    by_cases hxpos : pos = x.pos
    · rw [hxpos, update_self]
    · rw [update_of_ne hxpos, hrecord]
      refine ho pos fun hmem => hnot ?_
      rw [(perm_middle.map Slot.pos).mem_iff, map_cons] at hmem
      exact (mem_cons.mp hmem).resolve_left hxpos
  · rw [hothers]
    refine map_congr_left fun y _ => ?_
    unfold Slot.device
    change (⟨y.td, (s.storeTrustedDeviceIndex cfg tdi).ps.tdlAttribute y.pos,
      (s.storeTrustedDeviceIndex cfg tdi).ps.tdlGattAttribute y.pos⟩ : Device) = _
    rw [hattribute, hgatt]
  · have hsurvive := hholds.stored.survive (congrArg (List.map Slot.td) hothers)
    exact (Cuts.storeTrustedDeviceIndex (hstored.survive rfl) hsurvive).trans
      (Cuts.psStore hsurvive (hfree.survive (congrArg (List.map Slot.td) hothers)))

/-- A device is taken off the list. -/
theorem Moves.deleteFromTrustedDeviceList (h : Holds cfg s (before ++ x :: after))
    (hx : x.taddr ∈ about) :
    Moves cfg about s (before ++ x :: after)
      (s.deleteFromTrustedDeviceList cfg x.pos before.length) (before ++ after) := by
  have hne := pos_ne_of_split h.stored
  have hother : ∀ y ∈ otherSlots about (before ++ after), y.pos ≠ x.pos := fun y hy =>
    hne y (mem_of_mem_filter hy)
  obtain ⟨rest, htake, hrest, hsum⟩ := h.exists_take
  have hle := h.stored.le
  have hcfg := cfg.le
  have hmaxpos := cfg.pos
  have hlength := h.length
  have hcount : (before ++ x :: after).length = before.length + after.length + 1 := by
    rw [length_append, length_cons]
    omega
  have hlast : cfg.maxTrustedDevices - 1 + 1 = cfg.maxTrustedDevices := by omega
  have hlen : before.length = (before.map Slot.element).length := (length_map _).symm
  have htdi : (Tdl.moveUp (cfg.maxTrustedDevices - 1 - before.length) before.length s.tdi).set
      (cfg.maxTrustedDevices - 1) .unused = (before ++ after).map Slot.element ++
        (rest ++ .unused :: s.tdi.drop cfg.maxTrustedDevices) := by
    rw [Tdl.moveUp_set (by omega) (by omega), hlast, htake, map_append, map_cons,
      append_assoc, cons_append, hlen, eraseIdx_length, map_append]
    simp only [append_assoc]
  unfold Tdl.deleteFromTrustedDeviceList
  dsimp only
  have hout := @Moves.take_out cfg s about before after x h hx _ _ htdi (fun e he => ?_) ?_
  · refine hout.trans ?_
    have hdelete := Moves.deleteAttribute hout.holds hother
    exact hdelete.trans (Moves.tdlGattAttribute hdelete.holds hother none)
  · rcases mem_append.mp he with he | he
    · exact hrest e he
    · rcases mem_cons.mp he with rfl | he
      · rfl
      · exact h.order_drop e he
  · rw [length_set, Tdl.length_moveUp, hlength]

end Split

end Mh40.TrustedDevices
