import Mh40.TrustedDevices.Tdl
import Mathlib.Data.List.GetD

/-!
# The index of the trusted device list

* `unpackOrder_packOrders`: the packed index is read back as it was written.
* `moveDown_set`, `moveUp_set`: the loops over the index move an element to the front, and take one
  out.
-/

namespace Mh40.TrustedDevices

open List

/-! ## The packed index -/

theorem packWord_digit (orders : List ℕ) (j : ℕ) :
    packWord orders / 16 ^ j % 16 = orders.getD j 0 % 16 := by
  induction orders generalizing j with
  | nil => simp [packWord]
  | cons order orders ih =>
    have hcons : packWord (order :: orders) = order % 16 + 16 * packWord orders := rfl
    rw [hcons]
    cases j with
    | zero =>
      rw [Nat.pow_zero, Nat.div_one, getD_cons_zero]
      omega
    | succ j =>
      have hdiv : (order % 16 + 16 * packWord orders) / 16 = packWord orders := by omega
      rw [Nat.pow_succ', ← Nat.div_div_eq_div_mul, hdiv, ih, getD_cons_succ]

/-- The order at a place is read back as it was packed. -/
theorem unpackOrder_packOrders {n i : ℕ} {orders : List ℕ} (hi : i < 4 * n) :
    unpackOrder (packOrders n orders) i = orders.getD i 0 % 16 := by
  induction n generalizing i orders with
  | zero => omega
  | succ n ih =>
    unfold unpackOrder packOrders
    by_cases h : i < 4
    · rw [Nat.div_eq_of_lt h, getD_cons_zero, Nat.mod_eq_of_lt h, packWord_digit]
      rw [getD_eq_getElem?_getD, getD_eq_getElem?_getD, getElem?_take_of_lt h]
    · obtain ⟨j, rfl⟩ : ∃ j, i = j + 4 := ⟨i - 4, by omega⟩
      have hdiv : (j + 4) / 4 = j / 4 + 1 := by omega
      have hmod : (j + 4) % 4 = j % 4 := by omega
      rw [hdiv, hmod, getD_cons_succ]
      have hrec := @ih j (orders.drop 4) (by omega)
      unfold unpackOrder at hrec
      rw [hrec, getD_eq_getElem?_getD, getD_eq_getElem?_getD, getElem?_drop,
        Nat.add_comm]

theorem length_packOrders (n : ℕ) (orders : List ℕ) : (packOrders n orders).length = n := by
  induction n generalizing orders with
  | zero => rfl
  | succ n ih => exact congrArg (· + 1) (ih _)

/-- The orders of the index that is stored are those that are read. -/
theorem map_order_read {cfg : Config} {ps : Ps} {orders : List ℕ}
    (hlength : orders.length = cfg.maxNoDevicesToManage) (hlt : ∀ o ∈ orders, o < 16)
    (hindex : ps.index = some (packOrders cfg.tdiSize orders)) :
    (readTrustedDeviceIndex cfg ps).map Element.order = orders := by
  unfold readTrustedDeviceIndex
  rw [hindex]
  dsimp only
  rw [if_pos (length_packOrders _ _), List.map_map]
  apply ext_getElem
  · rw [length_map, length_range, hlength]
  · intro i hi hi'
    have hle : i < 4 * cfg.tdiSize := by
      have := cfg.le
      have := cfg.pos
      unfold Config.tdiSize
      omega
    rw [getElem_map, getElem_range]
    change unpackOrder (packOrders cfg.tdiSize orders) i = orders[i]
    rw [unpackOrder_packOrders hle, getD_eq_getElem _ _ hi',
      Nat.mod_eq_of_lt (hlt _ (getElem_mem _))]

/-! ## Loops over the index -/

namespace Tdl

variable {tdi : List Element} {x : Element}

/-- An element that has been copied to the next place. -/
theorem eraseIdx_set_succ {i : ℕ} (hi : i + 1 < tdi.length) :
    (tdi.set (i + 1) (tdi.getD i .unused)).eraseIdx i = tdi.eraseIdx (i + 1) := by
  induction tdi generalizing i with
  | nil => rfl
  | cons e tdi ih =>
    cases i with
    | zero =>
      cases tdi with
      | nil => simp at hi
      | cons e' tdi => rfl
    | succ i =>
      rw [set_cons_succ, getD_cons_succ, eraseIdx_cons_succ,
        eraseIdx_cons_succ, ih (Nat.lt_of_succ_lt_succ hi)]

theorem moveDown_eq {idx : ℕ} (hidx : idx < tdi.length) :
    moveDown idx tdi = tdi.getD 0 .unused :: tdi.eraseIdx idx := by
  induction idx generalizing tdi with
  | zero =>
    cases tdi with
    | nil => simp at hidx
    | cons e tdi => rfl
  | succ idx ih =>
    have hlength : (tdi.set (idx + 1) (tdi.getD idx .unused)).length = tdi.length :=
      length_set
    have hhead :
        (tdi.set (idx + 1) (tdi.getD idx .unused)).getD 0 .unused = tdi.getD 0 .unused := by
      cases tdi with
      | nil => rfl
      | cons e tdi => rfl
    unfold moveDown
    rw [ih (by omega), eraseIdx_set_succ hidx, hhead]

/-- The element `x` for the one at `idx`, in front. -/
theorem moveDown_set {idx : ℕ} (hidx : idx < tdi.length) :
    (moveDown idx tdi).set 0 x = x :: tdi.eraseIdx idx := by
  rw [moveDown_eq hidx, set_cons_zero]

theorem moveUp_getElem? {n i : ℕ} (hlt : i + n < tdi.length) (j : ℕ) :
    (moveUp n i tdi)[j]? = if i ≤ j ∧ j < i + n then tdi[j + 1]? else tdi[j]? := by
  induction n generalizing i tdi with
  | zero =>
    rw [if_neg (by omega)]
    rfl
  | succ n ih =>
    have hlength : (tdi.set i (tdi.getD (i + 1) .unused)).length = tdi.length := length_set
    unfold moveUp
    rw [ih (by omega)]
    by_cases hj : i = j
    · subst hj
      rw [if_neg (by omega), if_pos (by omega), getElem?_set_self (by omega),
        getD_eq_getElem _ _ (by omega), getElem?_eq_getElem (by omega)]
    · by_cases hrange : i + 1 ≤ j ∧ j < i + 1 + n
      · rw [if_pos hrange, if_pos (by omega), getElem?_set_ne (by omega)]
      · rw [if_neg hrange, if_neg (by omega), getElem?_set_ne hj]

theorem length_moveUp {n i : ℕ} : (moveUp n i tdi).length = tdi.length := by
  induction n generalizing i tdi with
  | zero => rfl
  | succ n ih => exact ih.trans length_set

/-- The element at `idx` is taken out, and the last one is unused. -/
theorem moveUp_set {idx last : ℕ} (hidx : idx ≤ last) (hlast : last < tdi.length) :
    (moveUp (last - idx) idx tdi).set last x =
      (tdi.take (last + 1)).eraseIdx idx ++ x :: tdi.drop (last + 1) := by
  have herase : ((tdi.take (last + 1)).eraseIdx idx).length = last := by
    rw [length_eraseIdx_of_lt (by rw [length_take]; omega), length_take]
    omega
  apply ext_getElem?
  intro j
  have hmove := moveUp_getElem? (show idx + (last - idx) < tdi.length by omega) j
  rcases Nat.lt_trichotomy j last with hj | rfl | hj
  · rw [getElem?_set_ne (by omega), hmove, getElem?_append_left (by omega),
      getElem?_eraseIdx]
    by_cases hlt : j < idx
    · rw [if_pos hlt, if_neg (by omega), getElem?_take_of_lt (by omega)]
    · rw [if_neg hlt, if_pos (by omega), getElem?_take_of_lt (by omega)]
  · rw [getElem?_set_self (by rw [length_moveUp]; exact hlast),
      getElem?_append_right (by omega), herase, Nat.sub_self, getElem?_cons_zero]
  · obtain ⟨k, rfl⟩ : ∃ k, j = last + 1 + k := ⟨j - (last + 1), by omega⟩
    rw [getElem?_set_ne (by omega), hmove, if_neg (by omega),
      getElem?_append_right (by omega), herase, show last + 1 + k - last = k + 1 by omega,
      getElem?_cons_succ, getElem?_drop]

end Tdl

end Mh40.TrustedDevices
