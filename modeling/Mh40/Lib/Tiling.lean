import Mathlib.Algebra.Order.Ring.Nat
import Mathlib.Data.List.Chain

/-!
# Tilings of an interval

A list of blocks tiles `[lo, hi)` when they follow one another without a gap and none is empty.
`Tiles` is generic in the blocks, of which it knows where each starts and stops.

* `tiles_append`, `tiles_cons_iff`: a tiling is cut at a block and put together again, which is how
  a block is split or two blocks are joined.
* `Tiles.apart`, `Tiles.eq_of_start`: no two blocks overlap.
* `Tiles.before`, `Tiles.after`: a block that starts where another stops comes right after it.
* `NotBoth`: what holds of adjacent blocks when those of a kind have been joined.
-/

namespace Mh40.Lib

open List

universe u

variable {β : Type u} {start stop : β → ℕ} {lo hi : ℕ} {l l₁ l₂ : List β} {a b : β}
  {kind : β → Bool}

variable (start stop) in
/-- The blocks follow one another from `lo` to `hi`. -/
def Tiles : ℕ → List β → ℕ → Prop
  | lo, [], hi => lo = hi
  | lo, b :: l, hi => start b = lo ∧ start b < stop b ∧ Tiles (stop b) l hi

theorem Tiles.le (h : Tiles start stop lo l hi) : lo ≤ hi := by
  induction l generalizing lo with
  | nil => exact Nat.le_of_eq h
  | cons b l ih =>
    obtain ⟨hs, hlt, ht⟩ := h
    have := ih ht
    omega

theorem Tiles.mem (h : Tiles start stop lo l hi) (hb : b ∈ l) :
    lo ≤ start b ∧ start b < stop b ∧ stop b ≤ hi := by
  induction l generalizing lo with
  | nil => cases hb
  | cons c l ih =>
    obtain ⟨hs, hlt, ht⟩ := h
    have hle := Tiles.le ht
    rcases mem_cons.mp hb with rfl | hb
    · omega
    · have := ih ht hb
      omega

theorem tiles_append : Tiles start stop lo (l₁ ++ l₂) hi ↔
    ∃ m, Tiles start stop lo l₁ m ∧ Tiles start stop m l₂ hi := by
  induction l₁ generalizing lo with
  | nil => exact ⟨fun h => ⟨lo, rfl, h⟩, fun ⟨m, hm, h⟩ => (show lo = m from hm) ▸ h⟩
  | cons b l₁ ih =>
    constructor
    · rintro ⟨hs, hlt, ht⟩
      obtain ⟨m, h1, h2⟩ := ih.mp ht
      exact ⟨m, ⟨hs, hlt, h1⟩, h2⟩
    · rintro ⟨m, ⟨hs, hlt, h1⟩, h2⟩
      exact ⟨hs, hlt, ih.mpr ⟨m, h1, h2⟩⟩

/-- A tiling cut before and after one of its blocks. -/
theorem tiles_cons_iff : Tiles start stop lo (l₁ ++ b :: l₂) hi ↔
    Tiles start stop lo l₁ (start b) ∧ start b < stop b ∧ Tiles start stop (stop b) l₂ hi := by
  rw [tiles_append]
  constructor
  · rintro ⟨m, h1, rfl, hlt, h2⟩
    exact ⟨h1, hlt, h2⟩
  · rintro ⟨h1, hlt, h2⟩
    exact ⟨start b, h1, rfl, hlt, h2⟩

section

variable (h : Tiles start stop lo l hi)
include h

theorem Tiles.pairwise :
    l.Pairwise fun a b => stop a ≤ start b := by
  induction l generalizing lo with
  | nil => exact .nil
  | cons b l ih => exact .cons (fun c hc => (Tiles.mem h.2.2 hc).1) (ih h.2.2)

/-- Two blocks do not overlap. -/
theorem Tiles.apart (ha : a ∈ l) (hb : b ∈ l) :
    a = b ∨ stop a ≤ start b ∨ stop b ≤ start a := by
  have hp := h.pairwise
  clear h
  induction l with
  | nil => cases ha
  | cons c l ih =>
    obtain ⟨hc, hl⟩ := pairwise_cons.mp hp
    rcases mem_cons.mp ha with rfl | ha'
    · rcases mem_cons.mp hb with rfl | hb'
      · exact .inl rfl
      · exact .inr (.inl (hc b hb'))
    · rcases mem_cons.mp hb with rfl | hb'
      · exact .inr (.inr (hc a ha'))
      · exact ih ha' hb' hl

theorem Tiles.eq_of_start (ha : a ∈ l) (hb : b ∈ l) (hab : start a = start b) : a = b := by
  have h1 := h.mem ha
  have h2 := h.mem hb
  rcases h.apart ha hb with h | h | h
  · exact h
  · omega
  · omega

theorem Tiles.eq_of_stop (ha : a ∈ l) (hb : b ∈ l) (hab : stop a = stop b) : a = b := by
  have h1 := h.mem ha
  have h2 := h.mem hb
  rcases h.apart ha hb with h | h | h
  · exact h
  · omega
  · omega

/-- The last block stops at the end. -/
theorem Tiles.stop_of_mem_getLast? (hb : b ∈ l.getLast?) :
    stop b = hi := by
  obtain ⟨l', rfl⟩ := getLast?_eq_some_iff.mp hb
  exact (tiles_cons_iff.mp h).2.2

/-- The first block starts at the start. -/
theorem Tiles.start_of_mem_head? (hb : b ∈ l.head?) :
    start b = lo := by
  cases l with
  | nil => cases hb
  | cons c l =>
    cases hb
    exact h.1

end

/-- A block that stops where another starts comes right before it. -/
theorem Tiles.before (h : Tiles start stop lo (l₁ ++ b :: l₂) hi) (ha : a ∈ l₁ ++ b :: l₂)
    (hab : stop a = start b) : ∃ k, l₁ = k ++ [a] := by
  obtain ⟨h1, -, -⟩ := tiles_cons_iff.mp h
  cases hlast : l₁.getLast? with
  | none =>
    rw [getLast?_eq_none_iff] at hlast
    subst hlast
    have hlo : start b = lo := h.1
    have := h.mem ha
    omega
  | some c =>
    obtain ⟨k, rfl⟩ := getLast?_eq_some_iff.mp hlast
    have hc : c ∈ k ++ [c] ++ b :: l₂ := by simp
    rw [h.eq_of_stop ha hc (hab.trans (h1.stop_of_mem_getLast? hlast).symm)]
    exact ⟨k, rfl⟩

/-- A block that starts where another stops comes right after it. -/
theorem Tiles.after (h : Tiles start stop lo (l₁ ++ a :: l₂) hi) (hb : b ∈ l₁ ++ a :: l₂)
    (hab : stop a = start b) : ∃ k, l₂ = b :: k := by
  obtain ⟨-, -, h2⟩ := tiles_cons_iff.mp h
  cases l₂ with
  | nil =>
    have hhi : stop a = hi := h2
    have := h.mem hb
    omega
  | cons c k =>
    have hc : c ∈ l₁ ++ a :: c :: k := by simp
    rw [h.eq_of_start hb hc (hab.symm.trans h2.1.symm)]
    exact ⟨k, rfl⟩

/-- Not two blocks of a kind. -/
def NotBoth (kind : β → Bool) (a b : β) : Prop := ¬ (kind a = true ∧ kind b = true)

theorem notBoth_of_left (h : kind a = false) : NotBoth kind a b := fun hab => by
  rw [h] at hab
  cases hab.1

theorem notBoth_of_right (h : kind b = false) : NotBoth kind a b := fun hab => by
  rw [h] at hab
  cases hab.2

/-- The last block replaced by one of its kind. -/
theorem isChain_congr_last (hab : kind a = kind b) (h : (l ++ [a]).IsChain (NotBoth kind)) :
    (l ++ [b]).IsChain (NotBoth kind) := by
  rw [isChain_append] at h ⊢
  refine ⟨h.1, .singleton b, fun z hz w hw => ?_⟩
  have := h.2.2 z hz a (by simp)
  obtain rfl : b = w := by simpa using hw
  unfold NotBoth at *
  rwa [← hab]

/-- **Fragmentation.** When adjacent blocks of a kind have been joined and none of them is longer
than `m`, the others take the rest of the interval, less `m` in front of each and behind the last. -/
theorem Tiles.le_of_notBoth {m : ℕ} (h : Tiles start stop lo l hi)
    (hchain : l.IsChain (NotBoth kind)) (hm : ∀ b ∈ l, kind b = true → stop b - start b ≤ m) :
    hi - lo ≤ l.countP (!kind ·) * m + (if l.head?.any kind then m else 0) +
      ((l.filter (!kind ·)).map fun b => stop b - start b).sum := by
  induction l generalizing lo with
  | nil => exact Nat.le_trans (Nat.le_of_eq (by rw [show lo = hi from h, Nat.sub_self])) (Nat.zero_le _)
  | cons b l ih =>
    obtain ⟨rfl, hlt, ht⟩ := h
    obtain ⟨hnext, hrest⟩ := isChain_cons.mp hchain
    have hle := Tiles.le ht
    have hi' := ih ht hrest fun c hc => hm c (mem_cons_of_mem b hc)
    cases hk : kind b with
    | true =>
      have hb := hm b mem_cons_self hk
      have hhead : l.head?.any kind = false := by
        cases hl : l.head? with
        | none => rfl
        | some c => exact Bool.eq_false_iff.mpr fun hc => hnext c hl ⟨hk, hc⟩
      simp only [hhead, Bool.false_eq_true, if_false] at hi'
      simp only [countP_cons, filter_cons, head?_cons, Option.any_some, hk, Bool.not_true,
        Bool.false_eq_true, if_false, if_true, Nat.add_zero]
      omega
    | false =>
      have hif : (if l.head?.any kind then m else 0) ≤ m := by split <;> omega
      simp only [countP_cons, filter_cons, head?_cons, Option.any_some, hk, Bool.not_false,
        Bool.false_eq_true, if_false, if_true, map_cons, sum_cons, Nat.add_mul, Nat.one_mul]
      omega

/-- There are no more blocks than places. -/
theorem Tiles.length_le (h : Tiles start stop lo l hi) : l.length ≤ hi - lo := by
  induction l generalizing lo with
  | nil => exact Nat.zero_le _
  | cons b l ih =>
    obtain ⟨hs, hlt, ht⟩ := h
    have := ih ht
    have := Tiles.le ht
    rw [length_cons]
    omega

end Mh40.Lib
