import Mathlib.Data.List.Sort

/-!
# Order statistics

* `satisfies_iff_lt_countP`: where a property holds of a first part of a list only, it holds of
  the entries whose index is below their number.
* `orderStatistic l i`: the entry at the index `i` of the sorted list. It is at most `v` exactly
  when more than `i` entries are (`orderStatistic_le_iff`), and a pointwise greater list has a
  greater one (`orderStatistic_mono`).
* `exchangeSort`: the sort that exchanges the first entry with every smaller one behind it, and
  goes on with the rest. It sorts (`pairwise_exchangeSort`, `perm_exchangeSort`), so its entries
  are the order statistics (`getElem?_exchangeSort`).
-/

namespace Mh40.Lib

open List

universe u

variable {α : Type u} {l m : List α} {i j : ℕ} {a b v : α}

/-- The entries with a property that holds of a first part only are those in front. -/
theorem satisfies_iff_lt_countP {p : α → Bool}
    (h : l.Pairwise fun a b => p b = true → p a = true) (hj : l[j]? = some a) :
    p a = true ↔ j < l.countP p := by
  induction l generalizing j with
  | nil => cases hj
  | cons x l ih =>
    obtain ⟨hx, hl⟩ := pairwise_cons.mp h
    by_cases hp : p x = true
    · rw [countP_cons_of_pos hp]
      cases j with
      | zero =>
        cases hj
        exact iff_of_true hp (Nat.succ_pos _)
      | succ j => rw [ih hl hj, Nat.succ_lt_succ_iff]
    · have hnone : ∀ b ∈ x :: l, ¬ p b = true := by
        intro b hb
        obtain rfl | hb := mem_cons.mp hb
        · exact hp
        · exact fun hpb => hp (hx b hb hpb)
      rw [countP_eq_zero.mpr hnone]
      exact iff_of_false (hnone a (mem_of_getElem? hj)) (Nat.not_lt_zero j)

variable [LinearOrder α]

/-! ## Order statistics -/

/-- The entry at the index `i` of the sorted list. -/
def orderStatistic (l : List α) (i : ℕ) : Option α :=
  (l.insertionSort (· ≤ ·))[i]?

theorem orderStatistic_of_sorted (hperm : m.Perm l) (hm : m.Pairwise (· ≤ ·)) :
    orderStatistic l i = m[i]? := by
  have hsort : l.insertionSort (· ≤ ·) = m :=
    ((perm_insertionSort _ l).trans hperm.symm).eq_of_pairwise'
      (pairwise_insertionSort _ l) hm
  rw [orderStatistic, hsort]

theorem orderStatistic_isSome_iff : (orderStatistic l i).isSome ↔ i < l.length := by
  rw [orderStatistic, Option.isSome_iff_ne_none, Ne, List.getElem?_eq_none_iff, Nat.not_le,
    length_insertionSort]

theorem mem_of_orderStatistic (h : orderStatistic l i = some a) : a ∈ l :=
  (mem_insertionSort _).mp (mem_of_getElem? h)

/-- It does not exceed a bound exactly when enough entries do not. -/
theorem orderStatistic_le_iff (h : orderStatistic l i = some a) :
    a ≤ v ↔ i < l.countP (· ≤ v) := by
  have hprefix : (l.insertionSort (· ≤ ·)).Pairwise fun a b =>
      decide (b ≤ v) = true → decide (a ≤ v) = true := by
    refine (pairwise_insertionSort (· ≤ ·) l).imp fun {a b} hab hb => ?_
    exact decide_eq_true (hab.trans (of_decide_eq_true hb))
  rw [← (perm_insertionSort (· ≤ ·) l).countP_eq, ← satisfies_iff_lt_countP hprefix h,
    decide_eq_true_eq]

/-- **A pointwise greater list has the greater order statistic.** -/
theorem orderStatistic_mono (hle : List.Forall₂ (· ≤ ·) l m)
    (ha : orderStatistic l i = some a) (hb : orderStatistic m i = some b) : a ≤ b := by
  rw [orderStatistic_le_iff ha]
  refine Nat.lt_of_lt_of_le ((orderStatistic_le_iff hb).mp le_rfl) ?_
  clear ha hb
  induction hle with
  | nil => exact Nat.le_refl _
  | cons hxy _ ih =>
    rw [countP_cons, countP_cons]
    refine Nat.add_le_add ih ?_
    split_ifs with hy hx
    · exact Nat.le_refl 1
    · exact absurd (decide_eq_true (hxy.trans (of_decide_eq_true hy))) hx
    · exact Nat.zero_le 1
    · exact Nat.le_refl 0

/-! ## Exchange sort -/

/-- One pass: the first entry is exchanged with every smaller one. -/
def exchangePass (a : α) : List α → α × List α
  | [] => (a, [])
  | b :: rest =>
    if b < a then ((exchangePass b rest).1, a :: (exchangePass b rest).2)
    else ((exchangePass a rest).1, b :: (exchangePass a rest).2)

@[simp]
theorem length_exchangePass : (exchangePass a l).2.length = l.length := by
  induction l generalizing a with
  | nil => rfl
  | cons b rest ih =>
    rw [exchangePass]
    split_ifs
    · rw [length_cons, length_cons, ih]
    · rw [length_cons, length_cons, ih]

theorem perm_exchangePass : ((exchangePass a l).1 :: (exchangePass a l).2).Perm (a :: l) := by
  induction l generalizing a with
  | nil => exact .refl _
  | cons b rest ih =>
    rw [exchangePass]
    split_ifs
    · exact ((List.Perm.swap _ _ _).trans (ih.cons a))
    · exact (List.Perm.swap _ _ _).trans ((ih.cons b).trans (List.Perm.swap _ _ _))

theorem exchangePass_le_first : (exchangePass a l).1 ≤ a := by
  induction l generalizing a with
  | nil => exact le_rfl
  | cons b rest ih =>
    rw [exchangePass]
    split_ifs with hlt
    · exact ih.trans hlt.le
    · exact ih

/-- A pass leaves the least entry in front. -/
theorem exchangePass_le : ∀ x ∈ (exchangePass a l).2, (exchangePass a l).1 ≤ x := by
  induction l generalizing a with
  | nil => exact fun x hx => absurd hx not_mem_nil
  | cons b rest ih =>
    rw [exchangePass]
    split_ifs with hlt
    · refine forall_mem_cons.mpr ⟨exchangePass_le_first.trans hlt.le, ih⟩
    · refine forall_mem_cons.mpr ⟨exchangePass_le_first.trans (not_lt.mp hlt), ih⟩

def exchangeSort : List α → List α
  | [] => []
  | a :: rest => (exchangePass a rest).1 :: exchangeSort (exchangePass a rest).2
termination_by l => l.length
decreasing_by rw [length_exchangePass]; exact Nat.lt_succ_self _

theorem perm_exchangeSort : (exchangeSort l).Perm l := by
  induction l using exchangeSort.induct with
  | case1 =>
    rw [exchangeSort]
  | case2 a rest ih =>
    rw [exchangeSort]
    exact (ih.cons _).trans perm_exchangePass

theorem pairwise_exchangeSort : (exchangeSort l).Pairwise (· ≤ ·) := by
  induction l using exchangeSort.induct with
  | case1 =>
    rw [exchangeSort]
    exact .nil
  | case2 a rest ih =>
    rw [exchangeSort]
    exact pairwise_cons.mpr
      ⟨fun x hx => exchangePass_le x (perm_exchangeSort.mem_iff.mp hx), ih⟩

theorem getElem?_exchangeSort : (exchangeSort l)[i]? = orderStatistic l i :=
  (orderStatistic_of_sorted perm_exchangeSort pairwise_exchangeSort).symm

end Mh40.Lib
