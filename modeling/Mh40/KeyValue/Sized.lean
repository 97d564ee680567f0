import Mh40.KeyValue.Capacity

/-!
# Values of an expected size

`KeyValueList_GetSized` searches the segment of the size asked for. It panics when the key has a
value of another size, but for two sizes that both have no array: the elements of the linked list
are not asked for their lengths.

* `SizedAgrees`: `KeyValueList_GetSized` is what `KeyValueList_Get` says.
* `sizedAgrees_iff`: when it is; `not_sizedAgrees_five`: a value of 5 octets is returned for 8.
-/

namespace Mh40.KeyValue

open Option

variable {list : KeyValueList} {m : Map} {key : UInt16} {size : ℕ}

/-- The value is returned where `KeyValueList_Get` returns it with that size, `NULL` where it
returns none, and there is a panic where it returns another size. -/
def SizedAgrees (list : KeyValueList) (key : UInt16) (size : ℕ) : Prop :=
  match get list key with
  | some (some (n, value)) => getSized list key size = if n = size then some (some value) else none
  | some none => getSized list key size = some none
  | none => False

namespace Segments

variable {s : Segments}

/-- The linked list has the values without an array. -/
theorem find_large (hs : s.Valid) (key : UInt16) :
    find s.large key = (s.lookup key).filter fun value => ¬IsSmall value := by
  obtain ⟨m, hm⟩ := s.exists_map
  have hsized : find s.large key = m.sized key 0 := lookupSized_eq hs hm key 0
  rw [hsized, hm]
  rfl

/-- What is found by size, from the value of the key. -/
theorem lookupSized_filter (hs : s.Valid) (key : UInt16) (size : ℕ) :
    s.lookupSized key size = (s.lookup key).filter fun value =>
      if size = 1 ∨ size = 2 ∨ size = 4 then value.length = size else ¬IsSmall value := by
  obtain ⟨m, hm⟩ := s.exists_map
  rw [lookupSized_eq hs hm key size, hm]
  rfl

/-- The values agree iff a value of the linked list has the size asked for. -/
theorem sizedAgrees_layout_iff (hs : s.Valid) :
    SizedAgrees s.layout key size ↔ ∀ value, find s.large key = some value →
      size = 1 ∨ size = 2 ∨ size = 4 ∨ size = value.length := by
  unfold SizedAgrees
  rw [get_layout hs, getSized_layout hs, lookupSized_filter hs, find_large hs]
  rcases s.lookup key with _ | value
  · exact iff_of_true rfl fun value h => (nomatch h)
  dsimp only [map_some, isSome_some]
  rw [filter_some, filter_some]
  by_cases hsize : size = 1 ∨ size = 2 ∨ size = 4
  · have hor : ∀ n : ℕ, size = 1 ∨ size = 2 ∨ size = 4 ∨ size = n := fun n => by tauto
    refine iff_of_true ?_ fun value' _ => hor value'.length
    simp only [hsize, if_true, decide_eq_true_eq]
    by_cases hlen : value.length = size
    · rw [if_pos hlen, if_pos hlen]
    · rw [if_neg hlen, if_neg hlen]
  · simp only [hsize, if_false, decide_not, Bool.not_eq_true', decide_eq_false_iff_not]
    by_cases hsmall : IsSmall value
    · have hne : ¬value.length = size := fun h => hsize (h ▸ hsmall)
      rw [if_neg (not_not.mpr hsmall), if_neg hne]
      exact iff_of_true rfl fun value h => (nomatch h)
    · rw [if_pos hsmall]
      constructor
      · intro h value' hvalue
        obtain rfl := some.inj hvalue
        by_cases hlen : value.length = size
        · exact .inr (.inr (.inr hlen.symm))
        · rw [if_neg hlen] at h
          cases h
      · intro h
        have hlen : value.length = size := by
          have := h value rfl
          tauto
        rw [if_pos hlen]

end Segments

/-- **`KeyValueList_GetSized` agrees with `KeyValueList_Get` iff** the key is not in the linked list
with another length than the size asked for, where that size has no array. -/
theorem sizedAgrees_iff (h : Represents list m) : SizedAgrees list key size ↔
    ∀ ele, findLarge list key = some ele →
      size = 1 ∨ size = 2 ∨ size = 4 ∨ size = ele.len.toNat := by
  obtain ⟨s, hs, rfl, -⟩ := h.holds
  rw [Segments.sizedAgrees_layout_iff hs, Segments.findLarge_layout]
  have hlen : ∀ value, Segments.find s.large key = some value →
      (Segments.element (key, value)).len.toNat = value.length := fun value hvalue => by
    obtain ⟨p, hp, rfl⟩ := Option.map_eq_some_iff.mp hvalue
    change (UInt16.ofNat p.2.length).toNat = p.2.length
    rw [UInt16.toNat_ofNat', Nat.mod_eq_of_lt (hs.large_lt p (List.mem_of_find?_eq_some hp))]
  constructor
  · intro hsize ele hele
    obtain ⟨value, hvalue, rfl⟩ := Option.map_eq_some_iff.mp hele
    rw [hlen value hvalue]
    exact hsize value hvalue
  · intro hsize value hvalue
    rw [← hlen value hvalue]
    exact hsize _ (by rw [hvalue]; rfl)

/-- A value of two octets, and one in the linked list, both with the size of the latter. -/
theorem sizedAgrees_iff_fourSizes :
    (SizedAgrees fourSizes.layout 2 5 ↔ ∀ ele, findLarge fourSizes.layout 2 = some ele →
      5 = 1 ∨ 5 = 2 ∨ 5 = 4 ∨ 5 = ele.len.toNat) ∧
    (SizedAgrees fourSizes.layout 4 5 ↔ ∀ ele, findLarge fourSizes.layout 4 = some ele →
      5 = 1 ∨ 5 = 2 ∨ 5 = 4 ∨ 5 = ele.len.toNat) := by
  obtain ⟨m, hm⟩ := fourSizes.exists_map
  have h := Segments.represents_layout valid_fourSizes hm
  exact ⟨sizedAgrees_iff h, sizedAgrees_iff h⟩

/-- **The sizes are not always told apart**: a value of 5 octets is returned for one of 8. -/
theorem not_sizedAgrees_five : ¬ ∀ (list : KeyValueList) (m : Map) (key : UInt16) (size : ℕ),
    Represents list m → SizedAgrees list key size := by
  intro h
  have hvalid : (⟨[], [], [], [(7, [1, 2, 3, 4, 5])]⟩ : Segments).Valid :=
    ⟨by decide, by decide, by decide, by decide⟩
  obtain ⟨m, hm⟩ := Segments.exists_map ⟨[], [], [], [(7, [1, 2, 3, 4, 5])]⟩
  have hagrees := h _ m 7 8 (Segments.represents_layout hvalid hm)
  rw [Segments.sizedAgrees_layout_iff hvalid] at hagrees
  exact absurd (hagrees _ rfl) (by decide)

end Mh40.KeyValue
