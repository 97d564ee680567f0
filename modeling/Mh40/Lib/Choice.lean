import Mathlib.Algebra.Order.Ring.Nat
import Mathlib.Data.List.Find
import Mh40.Lib.Mask

/-!
# Choosing one bit of a field

A field is a mask, its values are the bits that it has. A chain of tests chooses one of them in an
order of preference, and the last one where no test holds.

* `Single x b`: `b` is the only bit of `x`. `exists_single_iff`: the test `x & (x - 1)` for it.
* `firstMatch`: the chain. `firstMatch_map`: it takes the value that belongs to `pick`.
* `keepOnly f b`: the mask that leaves the bit `b` of the field `f`, and all of the other fields.
* `Chosen x l r`: one bit is set in `x`, and it is one of `l` and of `r`.
* `chosen_of_both`: a choice among the common bits is `Chosen` when there are any.
* `chosen_iff_leads`, `chosen_keep_iff_leads`: a choice that tests only one side is `Chosen` exactly
  when the other side has the bit that comes first (`Leads`).
-/

namespace Mh40.Lib.Choice

open List

variable {w v : ℕ} {x l r s f g : BitVec w} {b d p : ℕ} {bits : List ℕ}

/-- The only bit of the mask. -/
def Single (x : BitVec w) (b : ℕ) : Prop := ∀ i, Has x i ↔ i = b

theorem Single.has (h : Single x b) : Has x b := (h b).mpr rfl

theorem toNat_eq_of_single (h : Single x b) : x.toNat = 2 ^ b := by
  refine Nat.eq_of_testBit_eq fun i => ?_
  rw [Nat.testBit_two_pow]
  exact Bool.eq_iff_iff.mpr ((h i).trans (by rw [decide_eq_true_eq, eq_comm]))

theorem single_of_toNat_eq (h : x.toNat = 2 ^ b) : Single x b := fun i => by
  show x.toNat.testBit i = true ↔ i = b
  rw [h, Nat.testBit_two_pow, decide_eq_true_eq, eq_comm]

/-- The test for a single bit. -/
theorem exists_single_iff : (∃ b, Single x b) ↔ x ≠ 0 ∧ x &&& (x - 1) = 0 := by
  have hpow : (∃ b, Single x b) ↔ x.toNat.isPowerOfTwo :=
    ⟨fun ⟨b, h⟩ => ⟨b, toNat_eq_of_single h⟩, fun ⟨b, h⟩ => ⟨b, single_of_toNat_eq h⟩⟩
  rw [hpow, ← Nat.ne_zero_and_sub_one_eq_zero_iff_isPowerOfTwo]
  have hzero : x.toNat ≠ 0 ↔ x ≠ 0 := not_congr ⟨fun h => BitVec.eq_of_toNat_eq (by simpa using h),
    fun h => by simp [h]⟩
  rw [hzero]
  refine and_congr_right fun hx => ?_
  have hpred : (x - 1).toNat = x.toNat - 1 := by
    have hpos : x.toNat ≠ 0 := hzero.mpr hx
    have hlt := x.isLt
    have hone : (1#w).toNat = 1 := by
      rw [BitVec.toNat_ofNat]
      exact Nat.mod_eq_of_lt (by omega)
    rw [BitVec.toNat_sub_of_le (by rw [BitVec.le_def]; show (1#w).toNat ≤ _; omega)]
    show x.toNat - (1#w).toNat = _
    rw [hone]
  rw [← hpred, ← BitVec.toNat_and]
  exact ⟨fun h => BitVec.eq_of_toNat_eq (by simpa using h), fun h => congrArg BitVec.toNat h⟩

/-! ## Chains of tests -/

/-- A chain of tests, each of them with the value that it gives. -/
def firstMatch (tested : BitVec w) (rows : List (BitVec w × BitVec v)) (otherwise : BitVec v) :
    BitVec v :=
  ((rows.find? fun row => tested &&& row.1 ≠ 0).map Prod.snd).getD otherwise

/-- The first of some bits that is set, or the last resort. -/
def pick (bits : List ℕ) (d : ℕ) (s : BitVec w) : ℕ := (bits.find? fun b => decide (Has s b)).getD d

theorem pick_cons (bits : List ℕ) : pick (b :: bits) d s = if Has s b then b else pick bits d s := by
  unfold pick
  by_cases hb : Has s b
  · rw [find?_cons_of_pos (by simpa using hb), if_pos hb]
    rfl
  · rw [find?_cons_of_neg (by simpa using hb), if_neg hb]

theorem pick_congr {s' : BitVec v} (h : ∀ b ∈ bits, Has s b ↔ Has s' b) :
    pick bits d s = pick bits d s' := by
  unfold pick
  rw [find?_congr fun b hb => decide_eq_decide.mpr (h b hb)]

theorem and_single_ne_zero_iff : s &&& 1#w <<< b ≠ 0 ↔ Has s b := by
  rw [and_ne_zero_iff]
  constructor
  · rintro ⟨i, hs, hi⟩
    obtain ⟨rfl, -⟩ := has_single.mp hi
    exact hs
  · exact fun h => ⟨b, h, has_single.mpr ⟨rfl, h.lt⟩⟩

theorem has_of_find? (h : bits.find? (fun b => decide (Has s b)) = some b) :
    Has s b := by
  simpa using find?_some h

theorem firstMatch_map (bits : List ℕ) (d : ℕ) (value : ℕ → BitVec v) (s : BitVec w) :
    firstMatch s (bits.map fun b => (1#w <<< b, value b)) (value d) = value (pick bits d s) := by
  rw [firstMatch, pick, find?_map, Option.map_map]
  have htest : ((fun row : BitVec w × BitVec v => decide (s &&& row.1 ≠ 0)) ∘
      fun b => (1#w <<< b, value b)) = fun b => decide (Has s b) :=
    funext fun b => decide_eq_decide.mpr and_single_ne_zero_iff
  rw [htest]
  cases bits.find? fun b => decide (Has s b) <;> rfl

/-- The other side has the first bit, in the order of preference, that this side has. -/
def Leads (order : List ℕ) (r l : BitVec w) : Prop :=
  ∃ b, order.find? (fun b => decide (Has r b)) = some b ∧ Has l b

instance (order : List ℕ) (r l : BitVec w) : Decidable (Leads order r l) :=
  decidable_of_iff ((order.find? fun b => decide (Has r b)).any fun b => decide (Has l b)) (by
    unfold Leads
    cases order.find? fun b => decide (Has r b) <;> simp)

/-- Only the bits of the order matter. -/
theorem leads_congr {order : List ℕ} {r' : BitVec w} (h : r &&& f = r' &&& f)
    (hf : ∀ b ∈ order, Has f b) : Leads order r l ↔ Leads order r' l := by
  have hfind : order.find? (fun b => decide (Has r b)) = order.find? fun b => decide (Has r' b) := by
    refine find?_congr fun b hb => ?_
    have hb' : Has (r &&& f) b ↔ Has (r' &&& f) b := by rw [h]
    rw [has_and, has_and, and_iff_left (hf b hb), and_iff_left (hf b hb)] at hb'
    exact decide_eq_decide.mpr hb'
  unfold Leads
  rw [hfind]

/-- What the order finds, with its last bit. -/
theorem find?_append_singleton (bits : List ℕ) (d : ℕ) (s : BitVec w) :
    (bits ++ [d]).find? (fun b => decide (Has s b)) =
      if Has s (pick bits d s) then some (pick bits d s) else none := by
  unfold pick
  rw [find?_append]
  cases hfind : bits.find? fun b => decide (Has s b) with
  | some b =>
    have hb : Has s b := has_of_find? hfind
    exact (if_pos hb).symm
  | none =>
    show [d].find? (fun b => decide (Has s b)) = if Has s d then some d else none
    by_cases hd : Has s d
    · rw [find?_cons_of_pos (by simpa using hd), if_pos hd]
    · rw [find?_cons_of_neg (by simpa using hd), if_neg hd, find?_nil]

theorem leads_iff :
    Leads (bits ++ [d]) r l ↔ Has r (pick bits d r) ∧ Has l (pick bits d r) := by
  unfold Leads
  rw [find?_append_singleton]
  by_cases hr : Has r (pick bits d r)
  · rw [if_pos hr]
    constructor
    · rintro ⟨b, hb, hl⟩
      obtain rfl := Option.some.inj hb
      exact ⟨hr, hl⟩
    · exact fun h => ⟨_, rfl, h.2⟩
  · rw [if_neg hr]
    refine iff_of_false ?_ fun h => hr h.1
    rintro ⟨b, hb, -⟩
    exact absurd hb.symm (Option.some_ne_none b)

/-- A bit is found when the bits of the chain are all that there may be. -/
theorem has_pick (hcover : ∀ b, Has f b → b ∈ bits ∨ b = d) (h : s &&& f ≠ 0) :
    Has s (pick bits d s) := by
  obtain ⟨b, hs, hf⟩ := and_ne_zero_iff.mp h
  unfold pick
  cases hfind : bits.find? fun b => decide (Has s b) with
  | some c => exact has_of_find? hfind
  | none =>
    obtain hb | rfl := hcover b hf
    · exact absurd hs (by simpa using find?_eq_none.mp hfind b hb)
    · exact hs

theorem pick_mem (bits : List ℕ) (d : ℕ) (s : BitVec w) : pick bits d s ∈ bits ++ [d] := by
  unfold pick
  cases hfind : bits.find? fun b => decide (Has s b) with
  | some c => exact mem_append_left _ (mem_of_find?_eq_some hfind)
  | none => exact mem_append_right _ (mem_singleton_self d)

/-! ## What is chosen -/

/-- One bit is set, and both sides have it. -/
def Chosen (x l r : BitVec w) : Prop := ∃ b, Single x b ∧ Has l b ∧ Has r b

theorem chosen_iff_of_single (h : Single x b) : Chosen x l r ↔ Has r b ∧ Has l b := by
  constructor
  · rintro ⟨c, hc, hl, hr⟩
    obtain rfl := (h c).mp hc.has
    exact ⟨hr, hl⟩
  · exact fun hb => ⟨b, h, hb.2, hb.1⟩

/-- Nothing was chosen: what is left is what the other side asked for. -/
theorem chosen_self_iff (h : l &&& r ≠ 0) : Chosen r l r ↔ ∃ b, Single r b := by
  constructor
  · exact fun ⟨b, hb, _⟩ => ⟨b, hb⟩
  · rintro ⟨b, hb⟩
    obtain ⟨c, hl, hr⟩ := and_ne_zero_iff.mp h
    obtain rfl := (hb c).mp hr
    exact ⟨c, hb, hl, hr⟩

/-- A chosen bit overlaps with both sides. -/
theorem Chosen.overlap (h : Chosen x l r) : l &&& x ≠ 0 ∧ r &&& x ≠ 0 := by
  obtain ⟨b, hx, hl, hr⟩ := h
  exact ⟨and_ne_zero_iff.mpr ⟨b, hl, hx.has⟩, and_ne_zero_iff.mpr ⟨b, hr, hx.has⟩⟩

theorem Chosen.exists_single (h : Chosen x l r) : ∃ b, Single x b :=
  let ⟨b, hb, _⟩ := h
  ⟨b, hb⟩

/-- The mask leaves one bit of the field, whatever it does outside. -/
def Leaves (f m : BitVec w) (b : ℕ) : Prop := Has f b ∧ ∀ i, Has f i → (Has m i ↔ i = b)

instance (f m : BitVec w) (b : ℕ) : Decidable (Leaves f m b) :=
  inferInstanceAs (Decidable (_ ∧ _))

theorem Leaves.has_iff {m : BitVec w} (h : Leaves f m b) (i : ℕ) :
    Has (r &&& m &&& f) i ↔ i = b ∧ Has r b := by
  rw [has_and, has_and]
  constructor
  · rintro ⟨⟨hr, hm⟩, hf⟩
    obtain rfl := (h.2 i hf).mp hm
    exact ⟨rfl, hr⟩
  · rintro ⟨rfl, hr⟩
    exact ⟨⟨hr, (h.2 i h.1).mpr rfl⟩, h.1⟩

theorem Leaves.single {m : BitVec w} (h : Leaves f m b) (hr : Has r b) :
    Single (r &&& m &&& f) b := fun i => (h.has_iff i).trans (and_iff_left hr)

/-- All but the other bits of the field. -/
def keepOnly (f : BitVec w) (b : ℕ) : BitVec w := ~~~f ||| 1#w <<< b

theorem leaves_keepOnly (hb : Has f b) : Leaves f (keepOnly f b) b := by
  refine ⟨hb, fun i hi => ?_⟩
  rw [keepOnly, has_or, has_single]
  have hnot : ¬ Has (~~~f) i := by
    unfold Has at hi ⊢
    rw [BitVec.getLsbD_not, hi]
    simp
  exact (or_iff_right hnot).trans (and_iff_left hb.lt)

/-- Another field is left as it is. -/
theorem and_keepOnly_and (h : f &&& g = 0) : x &&& keepOnly f b &&& g = x &&& g := by
  have hsub : keepOnly f b &&& g = g := by
    rw [BitVec.and_comm, and_eq_left_iff]
    intro i hi
    have hnot : ¬ Has f i := fun hf => has_zero (h ▸ has_and.mpr ⟨hf, hi⟩)
    refine has_or.mpr (.inl ?_)
    unfold Has at hnot ⊢
    rw [BitVec.getLsbD_not, Bool.eq_false_iff.mpr hnot]
    simpa using hi.lt
  rw [BitVec.and_assoc, hsub]

theorem and_and_ne_zero (h : l &&& f &&& (r &&& f) ≠ 0) : r &&& l &&& f ≠ 0 := by
  obtain ⟨b, hl, hr⟩ := and_ne_zero_iff.mp h
  rw [has_and] at hl hr
  exact and_ne_zero_iff.mpr ⟨b, has_and.mpr ⟨hr.1, hl.1⟩, hl.2⟩

/-- A choice among the bits that both sides have. -/
theorem chosen_of_both {value : ℕ → BitVec w} (hcover : ∀ b, Has f b → b ∈ bits ∨ b = d)
    (hvalue : ∀ b ∈ bits ++ [d], Leaves f (value b) b) (h : l &&& f &&& (r &&& f) ≠ 0) :
    Chosen (r &&& value (pick bits d (r &&& l)) &&& f) (l &&& f) (r &&& f) := by
  obtain ⟨hr, hl⟩ := has_and.mp (has_pick hcover (and_and_ne_zero h))
  have hleaves := hvalue _ (pick_mem bits d (r &&& l))
  exact ⟨_, hleaves.single hr, has_and.mpr ⟨hl, hleaves.1⟩, has_and.mpr ⟨hr, hleaves.1⟩⟩

/-- A choice that looks at one side, and gives the bit. -/
theorem chosen_iff_leads (h : Single x (pick bits d r)) :
    Chosen x l r ↔ Leads (bits ++ [d]) r l :=
  (chosen_iff_of_single h).trans leads_iff.symm

/-- A choice that looks at one side, and clears the other bits. -/
theorem chosen_keep_iff_leads (bits : List ℕ) {value : ℕ → BitVec w}
    (hvalue : ∀ b ∈ bits ++ [d], Leaves f (value b) b) :
    Chosen (r &&& value (pick bits d r) &&& f) (l &&& f) (r &&& f) ↔ Leads (bits ++ [d]) r l := by
  have hleaves := hvalue _ (pick_mem bits d r)
  rw [leads_iff]
  constructor
  · rintro ⟨c, hc, hl, hr⟩
    obtain ⟨rfl, hrp⟩ := (hleaves.has_iff c).mp hc.has
    exact ⟨hrp, (has_and.mp hl).1⟩
  · rintro ⟨hr, hl⟩
    exact ⟨_, hleaves.single hr, has_and.mpr ⟨hl, hleaves.1⟩, has_and.mpr ⟨hr, hleaves.1⟩⟩

end Mh40.Lib.Choice
