import Mathlib.Data.List.Basic

/-!
# Arrays on the heap

`realloc`, `memmove` and `memset` on an array, which is the list of its cells. What lies behind an array, and
what is in fresh cells, is read as `default`.

* `insert_append`: making room for a cell and writing it inserts the cell.
* `erase_append`: closing the gap and dropping the last cell erases the cell.
* `getElem?_realloc`, `getElem?_memmove`, `getElem?_memset`: the cells after each of them.
-/

namespace Mh40.Lib.HeapArray

open List

variable {α : Type} [Inhabited α] {arr xs ys : List α} {i n : ℕ} {j : ℕ}

/-- The `n` cells from cell `i` on. -/
def cells (arr : List α) (i n : ℕ) : List α := (arr.drop i ++ List.replicate n default).take n

/-- `realloc` to `n` cells. -/
def realloc (arr : List α) (n : ℕ) : List α := cells arr 0 n

/-- `memmove` of `n` cells from `src` to `dest`, which has room for them. -/
def memmove (arr : List α) (dest src n : ℕ) : List α :=
  arr.take dest ++ cells arr src n ++ arr.drop (dest + n)

/-- `memset` of the `n` cells from cell `i` on. -/
def memset (arr : List α) (i n : ℕ) (a : α) : List α :=
  arr.take i ++ List.replicate n a ++ arr.drop (i + n)

theorem length_cells (arr : List α) (i n : ℕ) : (cells arr i n).length = n := by
  simp [cells]

theorem getElem?_cells (hj : j < n) (hi : i + j < arr.length) :
    (cells arr i n)[j]? = arr[i + j]? := by
  rw [cells, getElem?_take_of_lt hj, getElem?_append_left (by simp; omega),
    getElem?_drop]

theorem length_realloc (arr : List α) (n : ℕ) : (realloc arr n).length = n := length_cells arr 0 n

theorem getElem?_realloc (hj : j < n) (hlen : j < arr.length) :
    (realloc arr n)[j]? = arr[j]? := by
  rw [realloc, getElem?_cells hj (by omega), Nat.zero_add]

theorem length_memmove {dest src : ℕ} (h : dest + n ≤ arr.length) :
    (memmove arr dest src n).length = arr.length := by
  simp [memmove, length_cells]
  omega

theorem getElem?_memmove {dest src j : ℕ} (hdest : dest + n ≤ arr.length)
    (hsrc : src + n ≤ arr.length) : (memmove arr dest src n)[j]? =
      if dest ≤ j ∧ j < dest + n then arr[src + (j - dest)]? else arr[j]? := by
  have hfront : (arr.take dest).length = dest := by simp; omega
  have hboth : (arr.take dest ++ cells arr src n).length = dest + n := by
    rw [length_append, hfront, length_cells]
  unfold memmove
  by_cases h1 : j < dest
  · rw [if_neg (by omega), append_assoc, getElem?_append_left (by omega),
      getElem?_take_of_lt h1]
  · by_cases h2 : j < dest + n
    · rw [if_pos ⟨by omega, h2⟩, getElem?_append_left (by omega),
        getElem?_append_right (by omega), hfront, getElem?_cells (by omega) (by omega)]
    · rw [if_neg (by omega), getElem?_append_right (by omega), hboth, getElem?_drop,
        Nat.add_sub_cancel' (by omega)]

omit [Inhabited α] in
theorem length_memset {a : α} (h : i + n ≤ arr.length) : (memset arr i n a).length = arr.length := by
  simp [memset]
  omega

omit [Inhabited α] in
theorem getElem?_memset {a : α} (h : i + n ≤ arr.length) :
    (memset arr i n a)[j]? = if i ≤ j ∧ j < i + n then some a else arr[j]? := by
  have hfront : (arr.take i).length = i := by simp; omega
  have hboth : (arr.take i ++ List.replicate n a).length = i + n := by
    rw [length_append, hfront, length_replicate]
  unfold memset
  by_cases h1 : j < i
  · rw [if_neg (by omega), append_assoc, getElem?_append_left (by omega),
      getElem?_take_of_lt h1]
  · by_cases h2 : j < i + n
    · rw [if_pos ⟨by omega, h2⟩, getElem?_append_left (by omega),
        getElem?_append_right (by omega), getElem?_replicate, if_pos (by omega)]
    · rw [if_neg (by omega), getElem?_append_right (by omega), hboth, getElem?_drop,
        Nat.add_sub_cancel' (by omega)]

theorem cells_append (xs ys : List α) (hi : xs.length = i) (n : ℕ) :
    cells (xs ++ ys) i n = (ys ++ List.replicate n default).take n := by
  rw [cells, drop_append, drop_eq_nil_of_le (Nat.le_of_eq hi), hi]
  simp

theorem realloc_of_le (h : n ≤ arr.length) : realloc arr n = arr.take n := by
  rw [realloc, cells, drop_zero, take_append_of_le_length h]

theorem realloc_succ (hn : arr.length = n) : realloc arr (n + 1) = arr ++ [default] := by
  subst hn
  simp [realloc, cells, take_append, take_of_length_le, take_replicate]

/-- **A cell written behind the others.** -/
theorem realloc_set (hn : arr.length = n) (a : α) : (realloc arr (n + 1)).set n a = arr ++ [a] := by
  rw [realloc_succ hn, set_append_right _ _ (Nat.le_of_eq hn), hn]
  simp

/-- **Making room** at cell `i` and writing `a` there inserts `a`. -/
theorem insert_append (hi : xs.length = i) (hn : ys.length = n) (a : α) :
    (memmove (realloc (xs ++ ys) (i + n + 1)) (i + 1) i n).set i a = xs ++ a :: ys := by
  obtain ⟨b, zs, hb⟩ : ∃ b zs, ys ++ [(default : α)] = b :: zs := by
    cases ys <;> simp
  have hzs : zs.length = n := by
    have := congrArg List.length hb
    simp at this
    omega
  have hys : (ys ++ [default] ++ List.replicate n default).take n = ys := by
    rw [append_assoc, take_append_of_le_length (Nat.le_of_eq hn.symm),
      take_of_length_le (Nat.le_of_eq hn)]
  have htake : (xs ++ b :: zs).take (i + 1) = xs ++ [b] := by
    simp [take_append, take_of_length_le, hi]
  have hdrop : (xs ++ b :: zs).drop (i + 1 + n) = [] :=
    drop_eq_nil_of_le (by simp [hi, hzs]; omega)
  rw [realloc_succ (by simp [hi, hn]), append_assoc, memmove, cells_append _ _ hi, hys, hb,
    htake, hdrop, append_nil, append_assoc, set_append_right _ _ (Nat.le_of_eq hi), hi]
  simp

/-- **Closing the gap** over cell `i` and dropping the last cell erases cell `i`. -/
theorem erase_append (hi : xs.length = i) (hn : ys.length = n) (a : α) :
    realloc (memmove (xs ++ a :: ys) i (i + 1) (n + 1)) (i + n) = xs ++ ys := by
  have hcells : cells (xs ++ a :: ys) (i + 1) (n + 1) = ys ++ [default] := by
    have := cells_append (i := i + 1) (xs ++ [a]) ys (by simp [hi]) (n + 1)
    rw [append_assoc, singleton_append] at this
    rw [this]
    simp [take_append, take_of_length_le, hn, take_replicate]
  have hdrop : (xs ++ a :: ys).drop (i + (n + 1)) = [] :=
    drop_eq_nil_of_le (by simp [hi, hn])
  rw [memmove, hcells, hdrop, append_nil, take_append_of_le_length (Nat.le_of_eq hi.symm),
    take_of_length_le (Nat.le_of_eq hi), realloc_of_le (by simp [hi, hn]),
    ← append_assoc, take_append_of_le_length (by simp [hi, hn])]
  exact take_of_length_le (by simp [hi, hn])

/-- Closing the gap without touching a cell behind the array. -/
theorem erase_append_exact (hi : xs.length = i) (hn : ys.length = n) (a : α) :
    realloc (memmove (xs ++ a :: ys) i (i + 1) n) (i + n) = xs ++ ys := by
  have hcells : cells (xs ++ a :: ys) (i + 1) n = ys := by
    have := cells_append (i := i + 1) (xs ++ [a]) ys (by simp [hi]) n
    rw [append_assoc, singleton_append] at this
    rw [this, take_append_of_le_length (Nat.le_of_eq hn.symm),
      take_of_length_le (Nat.le_of_eq hn)]
  rw [memmove, hcells, take_append_of_le_length (Nat.le_of_eq hi.symm),
    take_of_length_le (Nat.le_of_eq hi), realloc_of_le (by simp [hi, hn]),
    take_append_of_le_length (by simp [hi, hn])]
  exact take_of_length_le (by simp [hi, hn])

end Mh40.Lib.HeapArray
