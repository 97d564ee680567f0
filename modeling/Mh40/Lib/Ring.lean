import Mh40.Lib.Buffer

/-!
# Circular buffers

A circular buffer is a list of cells with the index of its first element. `Window buf i xs` says
that the elements `xs` are in the cells from `i` on, where the cell behind the last one is the
first.

* `Window.append`: a write behind the window makes it longer.
* `Window.readAt`: a read of the cells in front.
* `Window.drop`: the window from a later element on.
* `slice`: the cells from an index on, of a ring whose indexes are counted modulo its size.
-/

namespace Mh40.Lib.Ring

open Lib.Buffer List

variable {α : Type} {buf buf' xs bs : List α} {cap i n : ℕ}

/-- The cell of the element `j` when the first one is in cell `i`. -/
def slot (cap i j : ℕ) : ℕ := if i + j < cap then i + j else i + j - cap

theorem slot_lt (hi : i < cap) {j : ℕ} (hj : j ≤ cap) : slot cap i j < cap := by
  unfold slot
  split_ifs <;> omega

@[simp] theorem slot_zero (hi : i < cap) : slot cap i 0 = i := if_pos hi

theorem slot_slot (hi : i < cap) {j k : ℕ} (h : j + k ≤ cap) :
    slot cap (slot cap i j) k = slot cap i (j + k) := by
  unfold slot
  split_ifs <;> omega

/-- The elements `xs` are in the cells from `i` on. -/
structure Window (buf : List α) (i : ℕ) (xs : List α) : Prop where
  length_le : xs.length ≤ buf.length
  lt : i < buf.length
  cell : ∀ j, j < xs.length → buf[slot buf.length i j]? = xs[j]?

theorem Window.nil (h : i < buf.length) : Window buf i [] := ⟨Nat.zero_le _, h, nofun⟩

section

variable (h : Window buf i xs)
include h

/-- The cells say what the elements are. -/
theorem Window.unique {ys : List α} (h' : Window buf i ys) (hlen : xs.length = ys.length) :
    xs = ys := by
  apply ext_getElem?
  intro j
  by_cases hj : j < xs.length
  · rw [← h.cell j hj, ← h'.cell j (by omega)]
  · rw [getElem?_eq_none (by omega), getElem?_eq_none (by omega)]

theorem Window.readAt (hn : n ≤ xs.length) (hi : i + n ≤ buf.length) :
    readAt buf i n = some (xs.take n) := by
  rw [Buffer.readAt, if_pos hi]
  congr 1
  apply ext_getElem?
  intro j
  by_cases hj : j < n
  · have hc := h.cell j (by omega)
    rw [slot, if_pos (by omega)] at hc
    rw [getElem?_take_of_lt hj, getElem?_take_of_lt hj, getElem?_drop, hc]
  · rw [getElem?_eq_none (by simp; omega), getElem?_eq_none (by simp; omega)]

theorem Window.drop (hn : n ≤ xs.length) :
    Window buf (slot buf.length i n) (xs.drop n) := by
  have hle := h.length_le
  refine ⟨by simp; omega, slot_lt h.lt (by omega), fun j hj => ?_⟩
  rw [length_drop] at hj
  rw [slot_slot h.lt (by omega), h.cell (n + j) (by omega), getElem?_drop]

/-- A block that ends at the last cell or in front of it, written behind the window. -/
theorem Window.append (hlen : xs.length + bs.length ≤ buf.length)
    (hfit : slot buf.length i xs.length + bs.length ≤ buf.length) :
    ∃ buf', writeAt buf (slot buf.length i xs.length) bs = some buf' ∧
      buf'.length = buf.length ∧ Window buf' i (xs ++ bs) := by
  have hw : writeAt buf (slot buf.length i xs.length) bs = some _ := if_pos hfit
  have hl := length_of_writeAt hw
  refine ⟨_, hw, hl, ?_⟩
  refine ⟨by rw [hl, length_append]; exact hlen, by rw [hl]; exact h.lt, ?_⟩
  intro j hj
  rw [length_append] at hj
  rw [hl]
  have hlt := h.lt
  set w := slot buf.length i xs.length with hwdef
  have hfront : (buf.take w).length = w := by
    rw [length_take]
    omega
  by_cases hjx : j < xs.length
  · -- a cell of the window is not one of the block
    have hc := h.cell j hjx
    rw [getElem?_append_left hjx, ← hc]
    have hne : slot buf.length i j < w ∨ w + bs.length ≤ slot buf.length i j := by
      rw [hwdef] at hfit ⊢
      unfold slot at *
      split_ifs at * <;> omega
    rcases hne with hlt' | hge
    · rw [append_assoc, getElem?_append_left (by omega), getElem?_take_of_lt hlt']
    · rw [getElem?_append_right (by simp; omega), getElem?_drop]
      congr 1
      simp
      omega
  · have hs : slot buf.length i j = w + (j - xs.length) := by
      rw [hwdef] at hfit ⊢
      unfold slot at *
      split_ifs at * <;> omega
    have hxs : (xs ++ bs)[j]? = bs[j - xs.length]? := getElem?_append_right (by omega)
    rw [hxs, hs, append_assoc, getElem?_append_right (by omega), hfront,
      getElem?_append_left (by omega)]
    congr 1
    omega

end

/-! ## Rings with indexes modulo their size -/

section Slice

variable {β : Type} {N b m : ℕ} {f g : ℕ → β}

/-- The `n` cells from the index `b` on. -/
def slice (N : ℕ) (f : ℕ → β) (b n : ℕ) : List β := (List.range n).map fun k => f ((b + k) % N)

@[simp] theorem length_slice : (slice N f b n).length = n := by simp [slice]

@[simp] theorem slice_zero : slice N f b 0 = [] := rfl

theorem slice_congr (h : ∀ k < n, f ((b + k) % N) = g ((m + k) % N)) :
    slice N f b n = slice N g m n :=
  map_congr_left fun k hk => h k (mem_range.mp hk)

theorem slice_snoc : slice N f b (n + 1) = slice N f b n ++ [f ((b + n) % N)] := by
  rw [slice, range_succ, map_append]
  rfl

theorem slice_cons : slice N f b (n + 1) = f (b % N) :: slice N f (b + 1) n := by
  rw [slice, range_succ_eq_map, map_cons, List.map_map]
  refine congrArg _ (map_congr_left fun k _ => ?_)
  rw [Function.comp_apply, Nat.succ_eq_add_one, Nat.add_right_comm, Nat.add_assoc]

theorem slice_append : slice N f b (m + n) = slice N f b m ++ slice N f (b + m) n := by
  induction n with
  | zero => rw [slice_zero, append_nil, Nat.add_zero]
  | succ n ih => rw [← Nat.add_assoc, slice_snoc, ih, slice_snoc, append_assoc, Nat.add_assoc]

theorem slice_mod : slice N f (b % N) n = slice N f b n :=
  slice_congr fun k _ => by rw [Nat.mod_add_mod]

end Slice

end Mh40.Lib.Ring
