import Mh40.Marshal.Types

/-!
# Object sets that grow

A set is searched by address and type. In a set without two matching entries the index of an entry
never changes while the set grows, which is what lets an index stand for an object in the stream.

* `mobsPush_cases`: a push finds a match, or puts the object behind the others.
* `Distinct.index`: the search finds the entry that matches.
* `mobsIterateFrom_cases`: the rule for an iteration over a set that its callback lets grow.
-/

namespace Mh40.Marshal

open List

/-- `o` is the entry for `object`. A NULL address matches all types. -/
def Mob.Matches (object o : Mob) : Prop :=
  object.address = o.address ∧ (o.type = object.type ∨ object.address = none)

/-- No entry matches an earlier one. -/
def Distinct (set : Mobs) : Prop := set.Pairwise fun o object => ¬object.Matches o

variable {set : Mobs} {object o : Mob} {i : ℕ}

theorem Mob.matches_refl (o : Mob) : o.Matches o := ⟨rfl, .inl rfl⟩

/-- Two objects with the same entry match each other. -/
theorem Mob.Matches.trans_symm {o' : Mob} (h : object.Matches o) (h' : object.Matches o') :
    o.Matches o' := by
  obtain ⟨ha, ht⟩ := h
  obtain ⟨ha', ht'⟩ := h'
  refine ⟨ha.symm.trans ha', ?_⟩
  rcases ht with ht | ht
  · rcases ht' with ht' | ht'
    · exact .inl (ht'.trans ht.symm)
    · exact .inr (ha.symm.trans ht')
  · exact .inr (ha.symm.trans ht)

theorem mobsHasObject_eq_some_iff :
    mobsHasObject set object = some i ↔
      (∃ o, set[i]? = some o ∧ object.Matches o) ∧
        ∀ j < i, ∀ o, set[j]? = some o → ¬object.Matches o := by
  unfold mobsHasObject Mob.Matches
  rw [findIdx?_eq_some_iff_getElem]
  constructor
  · rintro ⟨hi, hm, hlt⟩
    refine ⟨⟨set[i], getElem?_eq_getElem hi, by simpa using hm⟩, fun j hj o ho => ?_⟩
    obtain ⟨_, rfl⟩ := List.getElem?_eq_some_iff.mp ho
    simpa using hlt j hj
  · rintro ⟨⟨o, ho, hm⟩, hlt⟩
    obtain ⟨hi, rfl⟩ := List.getElem?_eq_some_iff.mp ho
    refine ⟨hi, by simpa using hm, fun j hj => ?_⟩
    simpa using hlt j hj _ (getElem?_eq_getElem (Nat.lt_trans hj hi))

theorem mobsHasObject_eq_none_iff :
    mobsHasObject set object = none ↔ ∀ o ∈ set, ¬object.Matches o := by
  unfold mobsHasObject Mob.Matches
  rw [findIdx?_eq_none_iff]
  simp

/-- What is in a set is found, at the same index, when the set has grown. -/
theorem mobsHasObject_of_prefix {set' : Mobs} (h : mobsHasObject set object = some i)
    (hset : set <+: set') : mobsHasObject set' object = some i := by
  obtain ⟨more, rfl⟩ := hset
  unfold mobsHasObject at h ⊢
  rw [findIdx?_append, h]
  rfl

/-- The disambiguator plays no part in the search. -/
theorem mobsHasObject_congr {object' : Mob} (ha : object'.address = object.address)
    (ht : object'.type = object.type) : mobsHasObject set object' = mobsHasObject set object := by
  unfold mobsHasObject
  rw [ha, ht]

/-- **The search in a set without duplicates finds the entry that matches.** -/
theorem Distinct.index (h : Distinct set) (hi : set[i]? = some o) (hm : object.Matches o) :
    mobsHasObject set object = some i := by
  refine mobsHasObject_eq_some_iff.mpr ⟨⟨o, hi, hm⟩, fun j hj o' ho' hm' => ?_⟩
  obtain ⟨hlt, rfl⟩ := List.getElem?_eq_some_iff.mp hi
  obtain ⟨hlt', rfl⟩ := List.getElem?_eq_some_iff.mp ho'
  exact pairwise_iff_getElem.mp h j i hlt' hlt hj (hm.trans_symm hm')

theorem Distinct.snoc (h : Distinct set) (hnone : mobsHasObject set object = none) :
    Distinct (set ++ [object]) := by
  refine pairwise_append.mpr ⟨h, by simp, fun o ho o' ho' => ?_⟩
  rw [mem_singleton.mp ho']
  exact mobsHasObject_eq_none_iff.mp hnone o ho

theorem mobsPushUnique_eq_some_iff {set' : Mobs} :
    mobsPushUnique set object = some set' ↔
      set.length < mobsMaxObjects ∧ set' = set ++ [object] := by
  unfold mobsPushUnique
  split <;> simp_all [eq_comm]

/-- A push finds the entry, or puts the object behind the others, or the set is full. -/
theorem mobsPush_cases (set : Mobs) (object : Mob) :
    (∃ i, mobsHasObject set object = some i ∧ mobsPush set object = some (false, set)) ∨
      mobsHasObject set object = none ∧
        (set.length < mobsMaxObjects ∧ mobsPush set object = some (true, set ++ [object]) ∨
          mobsMaxObjects ≤ set.length ∧ mobsPush set object = none) := by
  unfold mobsPush mobsPushUnique
  rcases mobsHasObject set object with _ | i
  · by_cases h : set.length < mobsMaxObjects
    · exact .inr ⟨rfl, .inl ⟨h, by simp [h]⟩⟩
    · exact .inr ⟨rfl, .inr ⟨Nat.not_lt.mp h, by simp [h]⟩⟩
  · exact .inl ⟨i, rfl, rfl⟩

/-! ## Iteration -/

section

variable {σ : Type} (set : σ → Mobs) (cb : ℕ → Mob → σ → Option (Bool × σ))

/-- **The iteration rule.** `Inv i` holds when the entries before index `i` are processed. When the
callback never returns `false`, the iteration reaches the end, or the callback faults. -/
theorem mobsIterateFrom_cases (Inv : ℕ → σ → Prop)
    (hbounds : ∀ i s, Inv i s → i ≤ (set s).length ∧ (set s).length ≤ mobsMaxObjects)
    (hcb : ∀ i o s, Inv i s → (set s)[i]? = some o →
      (∃ s', cb i o s = some (true, s') ∧ Inv (i + 1) s') ∨ cb i o s = none) :
    ∀ (gas : ℕ) {start : ℕ} {s : σ}, mobsMaxObjects < start + gas → Inv start s →
      (∃ s', mobsIterateFrom set cb gas start s = some (true, s') ∧ Inv (set s').length s') ∨
        mobsIterateFrom set cb gas start s = none ∧
          ∃ i o s', Inv i s' ∧ (set s')[i]? = some o ∧ cb i o s' = none := by
  intro gas
  induction gas with
  | zero =>
    intro start s hgas hi
    have := hbounds start s hi
    omega
  | succ gas ih =>
    intro start s hgas hi
    unfold mobsIterateFrom
    rcases ho : (set s)[start]? with _ | o
    · have hle := List.getElem?_eq_none_iff.mp ho
      have := (hbounds start s hi).1
      obtain rfl : start = (set s).length := by omega
      exact .inl ⟨s, rfl, hi⟩
    · simp only
      rcases hcb start o s hi ho with ⟨s', hs', hi'⟩ | hnone
      · rw [hs']
        exact ih (by omega) hi'
      · rw [hnone]
        exact .inr ⟨rfl, start, o, s, hi, ho, hnone⟩

end

end Mh40.Marshal
