import Mathlib.Data.List.Basic

/-!
# Linked lists

`Linked next p l`: the nodes of a null-terminated list that starts at `p`, where `next` is the link
that a node holds. `walk` follows the links, with a bound on the number of nodes.

* `walk_eq`: the walk of a linked list yields its nodes.
* `Linked.congr`, `Linked.functional`: the nodes depend on their own links, and on nothing else.
* `Linked.relink`: a list cut at a node and continued elsewhere, by a change of the link that led
  to the node; `Linked.unlink`: the node taken out.
-/

namespace Mh40.Lib

open List

variable {next next' : ℕ → ℕ} {p a : ℕ} {l l₁ l₂ : List ℕ}

/-- The nodes of the list that starts at `p`; 0 is the null pointer. -/
def Linked (next : ℕ → ℕ) : ℕ → List ℕ → Prop
  | p, [] => p = 0
  | p, a :: l => p = a ∧ a ≠ 0 ∧ Linked next (next a) l

/-- The nodes met from `p` on, `none` when there are too many. -/
def walk (next : ℕ → ℕ) : ℕ → ℕ → Option (List ℕ)
  | 0, _ => none
  | fuel + 1, p => if p = 0 then some [] else (walk next fuel (next p)).map (p :: ·)

theorem walk_eq {fuel : ℕ} (h : Linked next p l) (hfuel : l.length < fuel) :
    walk next fuel p = some l := by
  induction l generalizing p fuel with
  | nil =>
    cases fuel with
    | zero => cases hfuel
    | succ fuel => exact if_pos h
  | cons a l ih =>
    cases fuel with
    | zero => cases hfuel
    | succ fuel =>
      obtain ⟨rfl, hne, h⟩ := h
      rw [walk, if_neg hne, ih h (Nat.lt_of_succ_lt_succ hfuel)]
      rfl

theorem Linked.congr (h : Linked next p l) (hn : ∀ a ∈ l, next' a = next a) :
    Linked next' p l := by
  induction l generalizing p with
  | nil => exact h
  | cons a l ih =>
    obtain ⟨hp, hne, h⟩ := h
    refine ⟨hp, hne, ?_⟩
    rw [hn a mem_cons_self]
    exact ih h fun b hb => hn b (mem_cons_of_mem a hb)

theorem Linked.functional (h1 : Linked next p l₁) (h2 : Linked next p l₂) : l₁ = l₂ := by
  induction l₁ generalizing p l₂ with
  | nil =>
    cases l₂ with
    | nil => rfl
    | cons b l₂ => exact absurd (h2.1.symm.trans h1) h2.2.1
  | cons a l₁ ih =>
    cases l₂ with
    | nil => exact absurd (h1.1.symm.trans h2) h1.2.1
    | cons b l₂ =>
      obtain ⟨rfl, -, h1⟩ := h1
      obtain ⟨rfl, -, h2⟩ := h2
      rw [ih h1 h2]

/-- No node is null. -/
theorem Linked.ne_zero (h : Linked next p l) : ∀ a ∈ l, a ≠ 0 := by
  induction l generalizing p with
  | nil => exact fun a ha => absurd ha not_mem_nil
  | cons b l ih =>
    intro a ha
    rcases mem_cons.mp ha with rfl | ha
    · exact h.2.1
    · exact ih h.2.2 a ha

section

variable (h : Linked next p (l₁ ++ a :: l₂))
include h

/-- The list after a node. -/
theorem Linked.tail : Linked next (next a) l₂ := by
  induction l₁ generalizing p with
  | nil => exact h.2.2
  | cons b l₁ ih => exact ih h.2.2

/-- The link that leads to a node: from the start, or from the node before it. -/
theorem Linked.link :
    (l₁.getLast?.map next).getD p = a := by
  induction l₁ generalizing p with
  | nil => exact h.1
  | cons b l₁ ih =>
    obtain ⟨-, -, h⟩ := h
    rw [← ih h]
    cases l₁ with
    | nil => rfl
    | cons c l₁ =>
      obtain ⟨d, hd⟩ := Option.isSome_iff_exists.mp (getLast?_isSome.mpr (cons_ne_nil c l₁))
      have hlast : (b :: c :: l₁).getLast? = (c :: l₁).getLast? := by simp
      rw [hlast, hd]
      rfl

/-- A list cut at a node: the link that led to it, from the start or from the node before it, now
leads to another list. -/
theorem Linked.relink {q : ℕ} {tail : List ℕ} (hnd : l₁.Nodup)
    (hsame : ∀ b ∈ l₁, some b ≠ l₁.getLast? → next' b = next b)
    (hprev : ∀ b ∈ l₁.getLast?, next' b = q) (htail : Linked next' q tail) :
    Linked next' (if l₁ = [] then q else p) (l₁ ++ tail) := by
  induction l₁ generalizing p with
  | nil =>
    rw [if_pos rfl]
    exact htail
  | cons c l₁ ih =>
    obtain ⟨rfl, hne, h⟩ := h
    rw [nodup_cons] at hnd
    rw [if_neg (cons_ne_nil _ _)]
    refine ⟨rfl, hne, ?_⟩
    cases l₁ with
    | nil =>
      rw [hprev p rfl]
      exact htail
    | cons d l₁ =>
      have hlast : (p :: d :: l₁).getLast? = (d :: l₁).getLast? := by simp
      have hp : next' p = next p := by
        refine hsame p mem_cons_self fun hpl => hnd.1 ?_
        rw [hlast] at hpl
        exact mem_of_getLast? hpl.symm
      have hrest := ih h hnd.2 (fun b hb hne => hsame b (mem_cons_of_mem p hb) (hlast ▸ hne))
        fun b hb => hprev b (hlast ▸ hb)
      rw [if_neg (cons_ne_nil _ _)] at hrest
      rw [hp]
      exact hrest

/-- A node taken out: the link that led to it goes on to where its own link leads. -/
theorem Linked.unlink (hnd : (l₁ ++ a :: l₂).Nodup)
    (hsame : ∀ b ∈ l₁ ++ l₂, some b ≠ l₁.getLast? → next' b = next b)
    (hprev : ∀ b ∈ l₁.getLast?, next' b = next a) :
    Linked next' (if l₁ = [] then next a else p) (l₁ ++ l₂) := by
  obtain ⟨hnd1, hnd2, hdisj⟩ := nodup_append.mp hnd
  refine h.relink hnd1 (fun b hb => hsame b (mem_append_left _ hb)) hprev ?_
  refine h.tail.congr fun b hb => hsame b (mem_append_right _ hb) fun hlast => ?_
  exact hdisj b (mem_of_getLast? hlast.symm) b (mem_cons_of_mem a hb) rfl

end

end Mh40.Lib
