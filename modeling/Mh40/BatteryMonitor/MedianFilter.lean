import Mh40.Lib.OrderStatistic

/-!
# The median filter of the battery voltage

* `medianFiltering`: the window of the last readings, and the sort of a copy of it. Its counters
  have eight bits; `none` is an access outside of a block, or a loop that `turns` turns do not end.
* `lastReadings window vs`: the last `min(n, window)` of `n` readings.
* **`medianFiltering_eq`**: a filter that holds the last readings returns their lower median, and
  holds the last readings again.
* `medianFiltering_full`: with a window of more than 255 readings the sort of the 256th reading
  does not end.
-/

namespace Mh40.BatteryMonitor

open Lib List Option

/-! ## Model -/

/-- The static variables of `batteryMonitor_MedianFiltering`. -/
structure MedianFilter where
  inputArr : Option (List UInt16)
  index : UInt8
  deriving DecidableEq

/-- The inner loop of the sort. -/
def swapLoop (index j : UInt8) : ℕ → UInt8 → List UInt16 → Option (List UInt16)
  | 0, _, _ => none
  | turns + 1, k, sortArr =>
    if k.toNat < index.toNat + 1 then
      sortArr[j.toNat]?.bind fun a => sortArr[k.toNat]?.bind fun b =>
        swapLoop index j turns (k + 1)
          (if b < a then (sortArr.set j.toNat b).set k.toNat a else sortArr)
    else some sortArr

/-- The outer loop of the sort. -/
def sortLoop (maxTurns : ℕ) (index : UInt8) : ℕ → UInt8 → List UInt16 → Option (List UInt16)
  | 0, _, _ => none
  | turns + 1, j, sortArr =>
    if j.toNat < index.toNat + 1 then
      (swapLoop index j maxTurns (j + 1) sortArr).bind (sortLoop maxTurns index turns (j + 1))
    else some sortArr

/-- The turns of the shift that are left, from `i` on. -/
def shiftLoop : ℕ → ℕ → List UInt16 → Option (List UInt16)
  | 0, _, inputArr => some inputArr
  | left + 1, i, inputArr =>
    inputArr[i + 1]?.bind fun next => shiftLoop left (i + 1) (inputArr.set i next)

/-- `batteryMonitor_MedianFiltering`. `fresh` is what the memory of the window holds when it is
allocated. -/
def medianFiltering (turns : ℕ) (fresh : ℕ → UInt16) (window : UInt16) (f : MedianFilter)
    (reading : UInt16) : Option (MedianFilter × UInt16) :=
  let inputArr := f.inputArr.getD ((List.range window.toNat).map fresh)
  if f.index.toNat < inputArr.length then
    let inputArr := inputArr.set f.index.toNat reading
    (sortLoop turns f.index turns 0 (inputArr.take (f.index.toNat + 1))).bind fun sortArr =>
      sortArr[(f.index.toNat + 1 - 1) / 2]?.bind fun median =>
        if f.index.toNat + 1 = window.toNat then
          (shiftLoop (window.toNat - 1) 0 inputArr).map fun shifted =>
            (⟨some (shifted.set (window.toNat - 1) 0), f.index⟩, median)
        else some (⟨some inputArr, f.index + 1⟩, median)
  else none

/-! ## Medians -/

instance instLinearOrderUInt16 : LinearOrder UInt16 where
  le_refl := UInt16.le_refl
  le_trans _ _ _ := UInt16.le_trans
  lt_iff_le_not_ge a b := by
    rw [UInt16.not_le]
    exact ⟨fun h => ⟨UInt16.le_of_lt h, h⟩, fun h => h.2⟩
  le_antisymm _ _ := UInt16.le_antisymm
  le_total := UInt16.le_total
  toDecidableLE := inferInstance
  min_def _ _ := rfl
  max_def _ _ := rfl

/-- The last `window` of the readings, or all of them. -/
def lastReadings (window : ℕ) (vs : List UInt16) : List UInt16 :=
  vs.drop (vs.length - window)

def lowerMedian (vs : List UInt16) : Option UInt16 :=
  orderStatistic vs ((vs.length - 1) / 2)

variable {window n turns maxTurns : ℕ} {vs pre mid rest : List UInt16} {a reading : UInt16}
  {index j k : UInt8} {f : MedianFilter} {fresh : ℕ → UInt16} {w : UInt16}

theorem length_lastReadings : (lastReadings window vs).length = min vs.length window := by
  rw [lastReadings, length_drop]
  omega

theorem lastReadings_concat :
    lastReadings (n + 1) (vs ++ [reading]) = lastReadings n vs ++ [reading] := by
  rw [lastReadings, lastReadings, length_append, length_singleton,
    Nat.add_sub_add_right, drop_append_of_le_length (Nat.sub_le _ _)]

/-- The oldest of the readings is the one that is dropped. -/
theorem lastReadings_tail (h : n < vs.length) :
    lastReadings n vs = (lastReadings (n + 1) vs).tail := by
  rw [lastReadings, lastReadings, tail_drop]
  congr 1
  omega

theorem lastReadings_of_le (h : vs.length ≤ n) : lastReadings n vs = vs := by
  rw [lastReadings, Nat.sub_eq_zero_of_le h, drop_zero]

/-! ## The sort -/

theorem toNat_succ (h : k.toNat < 255) : (k + 1).toNat = k.toNat + 1 := by
  rw [UInt8.toNat_add]
  have h1 : (1 : UInt8).toNat = 1 := rfl
  omega

/-- The inner loop is one pass of an exchange sort. -/
theorem swapLoop_eq (mid : List UInt16) (hindex : index.toNat < 255) (hj : j.toNat = pre.length)
    (hk : k.toNat = pre.length + 1 + mid.length)
    (hlen : index.toNat + 1 = pre.length + 1 + mid.length + rest.length)
    (hturns : rest.length < turns) :
    swapLoop index j turns k (pre ++ a :: (mid ++ rest)) =
      some (pre ++ (exchangePass a rest).1 :: (mid ++ (exchangePass a rest).2)) := by
  induction rest generalizing a mid k turns with
  | nil =>
    obtain ⟨turns, rfl⟩ := Nat.exists_eq_add_of_lt hturns
    rw [swapLoop, if_neg (by rw [length_nil] at hlen; omega), exchangePass]
  | cons b rest ih =>
    rw [length_cons] at hlen hturns
    obtain ⟨turns, rfl⟩ := Nat.exists_eq_succ_of_ne_zero (Nat.ne_zero_of_lt hturns)
    have hgetj : (pre ++ a :: (mid ++ b :: rest))[j.toNat]? = some a := by
      rw [hj, getElem?_append_right (Nat.le_refl _), Nat.sub_self, getElem?_cons_zero]
    have hgetk : (pre ++ a :: (mid ++ b :: rest))[k.toNat]? = some b := by
      rw [hk, getElem?_append_right (by omega),
        show pre.length + 1 + mid.length - pre.length = mid.length + 1 by omega,
        getElem?_cons_succ, getElem?_append_right (Nat.le_refl _), Nat.sub_self,
        getElem?_cons_zero]
    have hexchange : ((pre ++ a :: (mid ++ b :: rest)).set j.toNat b).set k.toNat a =
        pre ++ b :: (mid ++ a :: rest) := by
      rw [hj, hk, set_append_right _ _ (Nat.le_refl _), Nat.sub_self, set_cons_zero,
        set_append_right _ _ (by omega),
        show pre.length + 1 + mid.length - pre.length = mid.length + 1 by omega,
        set_cons_succ, set_append_right _ _ (Nat.le_refl _), Nat.sub_self,
        set_cons_zero]
    have hnext : (k + 1).toNat = k.toNat + 1 := toNat_succ (by omega)
    rw [swapLoop, if_pos (by omega), hgetj, bind_some, hgetk, bind_some,
      exchangePass]
    split_ifs with hlt
    · rw [hexchange, append_cons mid a rest,
        ih (mid ++ [a]) (by rw [length_append, length_singleton]; omega)
          (by rw [length_append, length_singleton]; omega) (by omega),
        append_assoc, singleton_append]
    · rw [append_cons mid b rest,
        ih (mid ++ [b]) (by rw [length_append, length_singleton]; omega)
          (by rw [length_append, length_singleton]; omega) (by omega),
        append_assoc, singleton_append]

/-- The loops sort what is behind the entries that are in place. -/
theorem sortLoop_eq (hindex : index.toNat < 255) (hj : j.toNat = pre.length)
    (hlen : index.toNat + 1 = pre.length + rest.length) (hturns : rest.length < turns)
    (hmax : index.toNat + 1 < maxTurns) :
    sortLoop maxTurns index turns j (pre ++ rest) = some (pre ++ exchangeSort rest) := by
  induction rest using exchangeSort.induct generalizing pre j turns with
  | case1 =>
    obtain ⟨turns, rfl⟩ := Nat.exists_eq_add_of_lt hturns
    rw [length_nil] at hlen
    rw [sortLoop, if_neg (by omega), exchangeSort]
  | case2 a rest ih =>
    rw [length_cons] at hlen hturns
    obtain ⟨turns, rfl⟩ := Nat.exists_eq_succ_of_ne_zero (Nat.ne_zero_of_lt hturns)
    have hnext : (j + 1).toNat = j.toNat + 1 := toNat_succ (by omega)
    have hpass : swapLoop index j maxTurns (j + 1) (pre ++ a :: rest) =
        some (pre ++ (exchangePass a rest).1 :: (exchangePass a rest).2) :=
      swapLoop_eq [] hindex hj (by rw [length_nil]; omega) (by rw [length_nil]; omega)
        (by omega)
    rw [sortLoop, if_pos (by omega), hpass, bind_some, append_cons,
      ih (by rw [length_append, length_singleton]; omega)
        (by rw [length_append, length_singleton, length_exchangePass]; omega)
        (by rw [length_exchangePass]; omega),
      exchangeSort, append_assoc, singleton_append]

/-- An eight bit counter is always below 256. -/
theorem swapLoop_full {sortArr : List UInt16} : swapLoop 255 j turns k sortArr = none := by
  induction turns generalizing k sortArr with
  | zero => rfl
  | succ turns ih =>
    have hlt : k.toNat < (255 : UInt8).toNat + 1 := k.toNat_lt
    rw [swapLoop, if_pos hlt]
    cases sortArr[j.toNat]? with
    | none => rfl
    | some a =>
      cases sortArr[k.toNat]? with
      | none => rfl
      | some b => exact ih

theorem sortLoop_full {sortArr : List UInt16} :
    sortLoop maxTurns 255 turns 0 sortArr = none := by
  cases turns with
  | zero => rfl
  | succ turns => rw [sortLoop, if_pos (by decide), swapLoop_full, bind_none]

/-! ## The shift -/

/-- The shift moves the entries behind the first one to the front. -/
theorem shiftLoop_eq {x : UInt16} : ∃ last,
    shiftLoop rest.length pre.length (pre ++ x :: rest) = some (pre ++ rest ++ [last]) := by
  induction rest generalizing pre x with
  | nil => exact ⟨x, by rw [length_nil, shiftLoop, append_nil]⟩
  | cons y rest ih =>
    have hnext : (pre ++ x :: y :: rest)[pre.length + 1]? = some y := by
      rw [getElem?_append_right (by omega), Nat.add_sub_cancel_left]
      rfl
    have hset : (pre ++ x :: y :: rest).set pre.length y = (pre ++ [y]) ++ y :: rest := by
      rw [set_append_right _ _ (Nat.le_refl _), Nat.sub_self, set_cons_zero,
        append_assoc, singleton_append]
    obtain ⟨last, hlast⟩ : ∃ last,
        shiftLoop rest.length (pre ++ [y]).length (pre ++ [y] ++ y :: rest) =
          some (pre ++ [y] ++ rest ++ [last]) := ih
    rw [length_append, length_singleton] at hlast
    refine ⟨last, ?_⟩
    rw [length_cons, shiftLoop, hnext, bind_some, hset, hlast, append_assoc pre,
      singleton_append]

theorem shiftLoop_zero {w : List UInt16} (hn : w.length = n + 1) :
    ∃ shifted, shiftLoop n 0 w = some shifted ∧ shifted.set n 0 = w.tail ++ [0] := by
  cases w with
  | nil => cases hn
  | cons x rest =>
    obtain rfl : rest.length = n := Nat.succ.inj hn
    obtain ⟨last, hlast⟩ : ∃ last, shiftLoop rest.length ([] : List UInt16).length
        ([] ++ x :: rest) = some ([] ++ rest ++ [last]) := shiftLoop_eq
    refine ⟨rest ++ [last], hlast, ?_⟩
    rw [set_append_right _ _ (Nat.le_refl _), Nat.sub_self, set_cons_zero,
      tail_cons]

/-! ## The filter -/

/-- The memory of the window, allocated by the first reading. -/
def MedianFilter.block (fresh : ℕ → UInt16) (window : UInt16) (f : MedianFilter) : List UInt16 :=
  f.inputArr.getD ((List.range window.toNat).map fresh)

theorem block_some {inputArr : List UInt16} :
    MedianFilter.block fresh w ⟨some inputArr, index⟩ = inputArr := rfl

/-- The filter holds the last readings that the next one does not push out. -/
structure Holds (fresh : ℕ → UInt16) (window : UInt16) (vs : List UInt16) (f : MedianFilter) :
    Prop where
  length : (f.block fresh window).length = window.toNat
  index : f.index.toNat = min vs.length (window.toNat - 1)
  last : (f.block fresh window).take f.index.toNat = lastReadings (window.toNat - 1) vs

theorem holds_nil : Holds fresh w [] ⟨none, 0⟩ where
  length := by
    rw [MedianFilter.block, getD_none, length_map, length_range]
  index := (Nat.zero_min _).symm
  last := take_zero.trans drop_nil.symm

/-- **The filter returns the lower median of the last readings.** -/
theorem medianFiltering_eq (hw : 1 ≤ w.toNat) (h : Holds fresh w vs f)
    (hfits : w.toNat ≤ 255 ∨ vs.length < 255) (hturns : 256 ≤ turns) (reading : UInt16) :
    ∃ f' median, medianFiltering turns fresh w f reading = some (f', median) ∧
      lowerMedian (lastReadings w.toNat (vs ++ [reading])) = some median ∧
      Holds fresh w (vs ++ [reading]) f' := by
  obtain ⟨n, hn⟩ : ∃ n, w.toNat = n + 1 := ⟨w.toNat - 1, by omega⟩
  obtain ⟨hlength, hindex, hlast⟩ := h
  rw [hn, Nat.add_sub_cancel] at hindex hlast
  have hlt : f.index.toNat < (f.block fresh w).length := by omega
  -- The written part of the window holds the last readings, with the new one.
  have htake : ((f.block fresh w).set f.index.toNat reading).take (f.index.toNat + 1) =
      lastReadings w.toNat (vs ++ [reading]) := by
    rw [hn, lastReadings_concat, ← hlast, take_add_one, take_set_of_le (Nat.le_refl _),
      getElem?_set_self hlt, toList_some]
  have hcount : (lastReadings w.toNat (vs ++ [reading])).length = f.index.toNat + 1 := by
    rw [length_lastReadings, length_append, length_singleton]
    omega
  have hsort : sortLoop turns f.index turns 0 ([] ++ lastReadings w.toNat (vs ++ [reading])) =
      some ([] ++ exchangeSort (lastReadings w.toNat (vs ++ [reading]))) :=
    sortLoop_eq (by omega) rfl (by rw [length_nil]; omega) (by omega) (by omega)
  rw [nil_append, nil_append] at hsort
  obtain ⟨median, hmedian⟩ : ∃ median,
      lowerMedian (lastReadings w.toNat (vs ++ [reading])) = some median :=
    isSome_iff_exists.mp (orderStatistic_isSome_iff.mpr (by omega))
  have hget : (exchangeSort (lastReadings w.toNat (vs ++ [reading])))[(f.index.toNat + 1 - 1) / 2]?
      = some median := by
    rw [getElem?_exchangeSort, ← hmedian, lowerMedian, hcount]
  have hfilter : medianFiltering turns fresh w f reading =
      if f.index.toNat + 1 = w.toNat then
        (shiftLoop (w.toNat - 1) 0 ((f.block fresh w).set f.index.toNat reading)).map
          fun shifted => (⟨some (shifted.set (w.toNat - 1) 0), f.index⟩, median)
      else some (⟨some ((f.block fresh w).set f.index.toNat reading), f.index + 1⟩, median) := by
    change (if f.index.toNat < (f.block fresh w).length then _ else none) = _
    rw [if_pos hlt]
    change (sortLoop turns f.index turns 0
      (((f.block fresh w).set f.index.toNat reading).take (f.index.toNat + 1))).bind _ = _
    rw [htake, hsort, bind_some, hget, bind_some]
    rfl
  rw [hfilter]
  by_cases hfull : f.index.toNat + 1 = w.toNat
  · obtain ⟨shifted, hshifted, hset⟩ :=
      shiftLoop_zero (n := n) (w := (f.block fresh w).set f.index.toNat reading)
        (by rw [length_set]; omega)
    have hcancel : w.toNat - 1 = n := by omega
    rw [if_pos hfull, hcancel, hshifted, map_some, hset]
    refine ⟨_, median, rfl, hmedian, ?_, ?_, ?_⟩
    · rw [block_some, length_append, length_tail, length_set, length_singleton]
      omega
    · change f.index.toNat = _
      rw [length_append, length_singleton]
      omega
    · have hall : ((f.block fresh w).set f.index.toNat reading).take (f.index.toNat + 1) =
          (f.block fresh w).set f.index.toNat reading :=
        take_of_length_le (by rw [length_set]; omega)
      rw [block_some]
      dsimp only
      rw [take_append_of_le_length (by rw [length_tail, length_set]; omega),
        take_of_length_le (by rw [length_tail, length_set]; omega), ← hall, htake,
        hn, Nat.add_sub_cancel, ← lastReadings_tail]
      rw [length_append, length_singleton]
      omega
  · have hnext := toNat_succ (k := f.index) (by omega)
    rw [if_neg hfull]
    refine ⟨_, median, rfl, hmedian, ?_, ?_, ?_⟩
    · rw [block_some, length_set, hlength]
    · change (f.index + 1).toNat = _
      rw [hnext, length_append, length_singleton]
      omega
    · have hfew : (vs ++ [reading]).length ≤ n := by
        rw [length_append, length_singleton]
        omega
      rw [block_some, hnext, htake, hn, Nat.add_sub_cancel, lastReadings_of_le hfew,
        lastReadings_of_le (Nat.le_succ_of_le hfew)]

/-- **With a larger window the sort of the 256th reading does not end.** -/
theorem medianFiltering_full (h : Holds fresh w vs f) (hw : 256 ≤ w.toNat) (hvs : vs.length = 255) :
    medianFiltering turns fresh w f reading = none := by
  have hindex : f.index = 255 := by
    rw [← UInt8.toNat_inj, h.index]
    have h255 : (255 : UInt8).toNat = 255 := rfl
    omega
  have hlt : f.index.toNat < (f.block fresh w).length := by
    have hle := h.index
    rw [h.length]
    omega
  change (if f.index.toNat < (f.block fresh w).length then _ else none) = _
  rw [if_pos hlt, hindex, sortLoop_full, bind_none]

end Mh40.BatteryMonitor
