import Mathlib
import Mh40.Lib.Refine
import Mh40.KeyValue.Segments

/-!
# A key-value list is a finite map

* `Map.step`: what the operations do to a finite map from keys to values.
* `Represents`: the lengths agree with the arrays, the keys lie in the order of the sizes of their
  values, no key is there twice, and `KeyValueList_Get` gives what the map holds.
* `list_refines_map`: every run of operations on a list that never holds more than 255 values of 1,
  2 or 4 octets, with values under 65536 octets, answers the run on the map.

The only panic left is that of `KeyValueList_GetSized`: for a size of 1, 2 or 4 octets when the key
has a value of another size, and for any other size when the value has one of these sizes.
-/

namespace Mh40.KeyValue

open Lib List Option

/-- A finite map from keys to values. -/
abbrev Map := Finmap fun _ : UInt16 => List UInt8

namespace Map

/-- The number of values that have an array. -/
def small (m : Map) : ℕ := (m.keys.filter fun key => ∃ value ∈ m.lookup key, IsSmall value).card

/-- What is found by size: a value of the size, or for a size without an array any value without
an array. -/
def sized (m : Map) (key : UInt16) (size : ℕ) : Option (List UInt8) :=
  (m.lookup key).filter fun value =>
    if size = 1 ∨ size = 2 ∨ size = 4 then value.length = size else ¬IsSmall value

/-- One operation: the map after it and what it returns. -/
def step (m : Map) : Op → Option (Map × Result)
  | .add key value =>
    some (if (m.lookup key).isNone then (m.insert key value, .added true) else (m, .added false))
  | .remove key => some (m.erase key, .done)
  | .removeAll => some (∅, .done)
  | .get key => some (m, .got ((m.lookup key).map fun value => (value.length, value)))
  | .isSet key => some (m, .set (m.lookup key).isSome)
  | .getSized key size =>
    match m.sized key size with
    | some value => some (m, .sized (some value))
    | none => if (m.lookup key).isSome then none else some (m, .sized none)

/-- The operation adds a value under 65536 octets only, and leaves at most 255 values that have an
array. -/
def Bounded (m : Map) (op : Op) : Prop :=
  (∀ key value, op = .add key value → value.length < 65536) ∧
    ∀ m' r, m.step op = some (m', r) → m'.small ≤ 255

end Map

/-- The size of the values whose keys lie at the index. -/
def segmentSize (list : KeyValueList) (index : ℕ) : ℕ :=
  if index < list.len8.toNat then 1
  else if index < list.len8.toNat + list.len16.toNat then 2
  else 4

/-- The list represents the map. -/
structure Represents (list : KeyValueList) (m : Map) : Prop where
  lenKeys : list.lenKeys.toNat = list.len8.toNat + list.len16.toNat + list.len32.toNat
  length_keys : list.keys.length = list.lenKeys.toNat
  length_values8 : list.values8.length = list.len8.toNat
  length_values16 : list.values16.length = list.len16.toNat
  length_values32 : list.values32.length = list.len32.toNat
  segmented : ∀ (index : ℕ) key, list.keys[index]? = some key →
    ∃ value, m.lookup key = some value ∧ value.length = segmentSize list index
  large : ∀ ele ∈ list.head, m.lookup ele.key = some ele.data ∧ ele.len.toNat = ele.data.length ∧
    ¬IsSmall ele.data
  nodup : (list.head.map (·.key) ++ list.keys).Nodup
  get : ∀ key, get list key = some ((m.lookup key).map fun value => (value.length, value))

namespace Segments

variable {s : Segments} {m : Map} {key key' : UInt16} {value : List UInt8}

/-! ## The map of the segments -/

section

variable {β : Type} {pairs : List (UInt16 × β)}

theorem find_append (pairs qairs : List (UInt16 × β)) (key : UInt16) :
    find (pairs ++ qairs) key = (find pairs key).or (find qairs key) := by
  simp only [find, find?_append]
  cases pairs.find? (·.1 = key) <;> simp

theorem find_cons (p : UInt16 × β) (pairs : List (UInt16 × β)) (key : UInt16) :
    find (p :: pairs) key = if p.1 = key then some p.2 else find pairs key := by
  simp only [find, find?_cons]
  by_cases h : p.1 = key <;> simp [h]

theorem find_nil (key : UInt16) : find ([] : List (UInt16 × β)) key = none := rfl

theorem find_eraseP_of_ne (hne : key' ≠ key) :
    find (pairs.eraseP (·.1 = key)) key' = find pairs key' := by
  rcases find_cases pairs key with hkey | ⟨front, v, back, rfl, hfront⟩
  · rw [eraseP_of_notMem hkey]
  · rw [eraseP_split hfront, find_append, find_append, find_cons, if_neg hne.symm]

theorem find_eraseP_self (hn : (pairs.map Prod.fst).Nodup) :
    find (pairs.eraseP (·.1 = key)) key = none := by
  rw [find_eq_none_iff]
  rcases find_cases pairs key with hkey | ⟨front, v, back, rfl, hfront⟩
  · rwa [eraseP_of_notMem hkey]
  · rw [eraseP_split hfront]
    rw [map_append, map_cons, nodup_middle, nodup_cons] at hn
    simpa using hn.1

end

theorem lookup_eq_none_iff : s.lookup key = none ↔ key ∉ s.allKeys := by
  simp only [lookup, allKeys, smallKeys, orElse_eq_orElse, orElse_eq_or,
    or_eq_none_iff, map_eq_none_iff, find_eq_none_iff, mem_append, not_or]
  tauto

theorem lookup_add (hkey : s.lookup key = none) (value : List UInt8) (key' : UInt16) :
    (s.add key value).lookup key' = if key = key' then some value else s.lookup key' := by
  simp only [lookup, orElse_eq_orElse, orElse_eq_or, or_eq_none_iff,
    map_eq_none_iff] at hkey ⊢
  obtain ⟨hl, h8, h16, h32⟩ := hkey
  by_cases heq : key = key'
  · subst heq
    unfold add
    split_ifs <;> simp [find_append, find_cons, hl, h8, h16, h32] at *
  · unfold add
    split_ifs <;> simp [find_append, find_cons, heq, find_nil]

theorem nodup_parts (hn : s.allKeys.Nodup) :
    (s.large.map Prod.fst).Nodup ∧ (s.pairs8.map Prod.fst).Nodup ∧
      (s.pairs16.map Prod.fst).Nodup ∧ (s.pairs32.map Prod.fst).Nodup := by
  rw [allKeys, smallKeys, nodup_append, nodup_append, nodup_append] at hn
  exact ⟨hn.1, hn.2.1.1.1, hn.2.1.1.2.1, hn.2.1.2.1⟩

theorem lookup_erase (hn : s.allKeys.Nodup) (key key' : UInt16) :
    (s.erase key).lookup key' = if key = key' then none else s.lookup key' := by
  obtain ⟨hl, h8, h16, h32⟩ := nodup_parts hn
  unfold lookup erase
  by_cases heq : key = key'
  · subst heq
    rw [find_eraseP_self hl, find_eraseP_self h8, find_eraseP_self h16, find_eraseP_self h32,
      if_pos rfl]
    rfl
  · have hne : key' ≠ key := fun h => heq h.symm
    rw [find_eraseP_of_ne hne, find_eraseP_of_ne hne, find_eraseP_of_ne hne,
      find_eraseP_of_ne hne, if_neg heq]

theorem Valid.erase (h : s.Valid) (key : UInt16) : (s.erase key).Valid where
  small_le := by
    refine Nat.le_trans ?_ h.small_le
    have h8 := (eraseP_sublist (p := (·.1 = key)) (l := s.pairs8)).length_le
    have h16 := (eraseP_sublist (p := (·.1 = key)) (l := s.pairs16)).length_le
    have h32 := (eraseP_sublist (p := (·.1 = key)) (l := s.pairs32)).length_le
    simp only [small, Segments.erase]
    omega
  large_lt := fun p hp => h.large_lt p (mem_of_mem_eraseP hp)
  large_size := fun p hp => h.large_size p (mem_of_mem_eraseP hp)
  nodup := by
    refine h.nodup.sublist ?_
    unfold allKeys smallKeys Segments.erase
    exact (eraseP_sublist.map _).append
      (((eraseP_sublist.map _).append (eraseP_sublist.map _)).append
        (eraseP_sublist.map _))

theorem nodup_add (hn : s.allKeys.Nodup) (hkey : s.lookup key = none) (value : List UInt8) :
    (s.add key value).allKeys.Nodup := by
  have hmiddle : ∀ xs ys : List UInt16, xs ++ ys = s.allKeys →
      (xs ++ key :: ys).Perm (key :: s.allKeys) := by
    rintro xs ys h
    rw [← h]
    exact perm_middle
  have hperm : (s.add key value).allKeys.Perm (key :: s.allKeys) := by
    unfold add
    split_ifs
    · have := hmiddle (s.large.map Prod.fst ++ s.pairs8.map Prod.fst)
        (s.pairs16.map Prod.fst ++ s.pairs32.map Prod.fst) (by simp [allKeys, smallKeys])
      simpa [allKeys, smallKeys] using this
    · have := hmiddle (s.large.map Prod.fst ++ (s.pairs8.map Prod.fst ++ s.pairs16.map Prod.fst))
        (s.pairs32.map Prod.fst) (by simp [allKeys, smallKeys])
      simpa [allKeys, smallKeys] using this
    · have := hmiddle s.allKeys [] (by simp)
      simpa [allKeys, smallKeys] using this
    · rfl
  rw [hperm.nodup_iff]
  exact nodup_cons.mpr ⟨lookup_eq_none_iff.mp hkey, hn⟩

theorem large_size_add (hs : ∀ p ∈ s.large, ¬IsSmall p.2) (key : UInt16) (value : List UInt8) :
    ∀ p ∈ (s.add key value).large, ¬IsSmall p.2 := by
  unfold add
  split_ifs with h1 h2 h4
  · exact hs
  · exact hs
  · exact hs
  · refine forall_mem_cons.mpr ⟨?_, hs⟩
    simp [IsSmall, h1, h2, h4]

theorem large_lt_add (h : s.Valid) (hvalue : value.length < 65536) :
    ∀ p ∈ (s.add key value).large, p.2.length < 65536 := by
  unfold add
  split_ifs
  · exact h.large_lt
  · exact h.large_lt
  · exact h.large_lt
  · exact forall_mem_cons.mpr ⟨hvalue, h.large_lt⟩

/-- The key of a value that has an array is in the array of keys. -/
theorem mem_smallKeys_iff (hn : s.allKeys.Nodup) (hs : ∀ p ∈ s.large, ¬IsSmall p.2) :
    key ∈ s.smallKeys ↔ ∃ value, s.lookup key = some value ∧ IsSmall value := by
  cases place hn key with
  | absent hl h8 h16 h32 =>
    have hnone : s.lookup key = none := by
      simp [lookup, find_none hl, find_none h8, find_none h16, find_none h32]
    refine iff_of_false ?_ (by simp [hnone])
    simp only [smallKeys, mem_append, not_or]
    exact ⟨⟨h8, h16⟩, h32⟩
  | large front v back hsplit hfront h8 h16 h32 =>
    have hv : s.lookup key = some v := by
      simp [lookup, hsplit, find_split hfront]
    have hlarge : ¬IsSmall v := hs (key, v) (by simp [hsplit])
    refine iff_of_false ?_ (by simp [hv, hlarge])
    simp only [smallKeys, mem_append, not_or]
    exact ⟨⟨h8, h16⟩, h32⟩
  | octets1 front v back hsplit hfront hl h16 h32 =>
    refine iff_of_true (by simp [smallKeys, hsplit]) ⟨v.val, ?_, .inl v.2⟩
    exact (indexed_octets1 hsplit hfront hl).lookup
  | octets2 front v back hsplit hfront hl h8 h32 =>
    refine iff_of_true (by simp [smallKeys, hsplit]) ⟨v.val, ?_, .inr (.inl v.2)⟩
    exact (indexed_octets2 hsplit hfront hl h8).lookup
  | octets4 front v back hsplit hfront hl h8 h16 =>
    refine iff_of_true (by simp [smallKeys, hsplit]) ⟨v.val, ?_, .inr (.inr v.2)⟩
    exact (indexed_octets4 hsplit hfront hl h8 h16).lookup

/-- The number of values that have an array is that of the map. -/
theorem small_eq (hn : s.allKeys.Nodup) (hs : ∀ p ∈ s.large, ¬IsSmall p.2)
    (hm : ∀ key, s.lookup key = m.lookup key) : s.small = m.small := by
  have hnodup : s.smallKeys.Nodup := (nodup_append.mp hn).2.1
  rw [← Valid.length_smallKeys, ← toFinset_card_of_nodup hnodup, Map.small]
  congr 1
  ext key
  rw [List.mem_toFinset, mem_smallKeys_iff hn hs, Finset.mem_filter, Finmap.mem_keys,
    ← Finmap.lookup_isSome, ← hm]
  constructor
  · rintro ⟨value, hvalue, hsmall⟩
    exact ⟨by simp [hvalue], value, hvalue, hsmall⟩
  · rintro ⟨_, value, hvalue, hsmall⟩
    exact ⟨value, hvalue, hsmall⟩

/-- `KeyValueList_GetSized` finds what the map holds by size. -/
theorem lookupSized_eq (h : s.Valid) (hm : ∀ key, s.lookup key = m.lookup key) (key : UInt16)
    (size : ℕ) : s.lookupSized key size = m.sized key size := by
  rw [Map.sized, ← hm]
  cases place h.nodup key with
  | absent hl h8 h16 h32 =>
    simp [lookupSized, lookup, find_none hl, find_none h8, find_none h16, find_none h32]
  | large front v back hsplit hfront h8 h16 h32 =>
    have hlarge : ¬IsSmall v := h.large_size (key, v) (by simp [hsplit])
    have hv : s.lookup key = some v := by
      simp [lookup, hsplit, find_split hfront]
    unfold IsSmall at hlarge
    rw [hv, lookupSized, find_none h8, find_none h16, find_none h32, hsplit, find_split hfront,
      filter_some]
    unfold IsSmall
    grind
  | octets1 front v back hsplit hfront hl h16 h32 =>
    have hlen := v.2
    rw [(indexed_octets1 hsplit hfront hl).lookup, lookupSized, find_none hl, find_none h16,
      find_none h32, hsplit, find_split hfront, filter_some]
    unfold IsSmall
    grind
  | octets2 front v back hsplit hfront hl h8 h32 =>
    have hlen := v.2
    rw [(indexed_octets2 hsplit hfront hl h8).lookup, lookupSized, find_none hl, find_none h8,
      find_none h32, hsplit, find_split hfront, filter_some]
    unfold IsSmall
    grind
  | octets4 front v back hsplit hfront hl h8 h16 =>
    have hlen := v.2
    rw [(indexed_octets4 hsplit hfront hl h8 h16).lookup, lookupSized, find_none hl, find_none h8,
      find_none h16, hsplit, find_split hfront, filter_some]
    unfold IsSmall
    grind

/-- A key has one index. -/
theorem Indexed.index_eq {index index' n : ℕ} {v : Octets n} (hi : s.Indexed key index n v)
    (hn : s.allKeys.Nodup) (hkey : s.smallKeys[index']? = some key) : index' = index := by
  obtain ⟨hlt, hfound, _⟩ := findIdx?_eq_some_iff_getElem.mp hi.findIdx
  refine (getElem?_inj (List.getElem?_eq_some_iff.mp hkey).1
    (nodup_append.mp hn).2.1).mp ?_
  have hkey' : s.smallKeys[index] = key := by simpa using hfound
  rw [hkey, getElem?_eq_getElem hlt, hkey']

/-- **A key lies in the segment of the size of its value.** -/
theorem segmented_layout (h : s.Valid) {index : ℕ} (hkey : s.smallKeys[index]? = some key) :
    ∃ value, s.lookup key = some value ∧ value.length = segmentSize s.layout index := by
  have hmem : key ∈ s.smallKeys := mem_of_getElem? hkey
  unfold segmentSize
  rw [h.toNat_len8, h.toNat_len16]
  cases place h.nodup key with
  | absent hl h8 h16 h32 | large front v back hsplit hfront h8 h16 h32 =>
    simp only [smallKeys, mem_append] at hmem
    exact absurd hmem (not_or.mpr ⟨not_or.mpr ⟨h8, h16⟩, h32⟩)
  | octets1 front v back hsplit hfront hl h16 h32 =>
    have hi := indexed_octets1 hsplit hfront hl
    refine ⟨_, hi.lookup, ?_⟩
    rw [hi.index_eq h.nodup hkey, if_pos (by rw [hsplit]; simp), v.2]
  | octets2 front v back hsplit hfront hl h8 h32 =>
    have hi := indexed_octets2 hsplit hfront hl h8
    refine ⟨_, hi.lookup, ?_⟩
    rw [hi.index_eq h.nodup hkey, if_neg (by omega), if_pos (by rw [hsplit]; simp), v.2]
  | octets4 front v back hsplit hfront hl h8 h16 =>
    have hi := indexed_octets4 hsplit hfront hl h8 h16
    refine ⟨_, hi.lookup, ?_⟩
    rw [hi.index_eq h.nodup hkey, if_neg (by omega), if_neg (by omega), v.2]

theorem lookup_of_mem_large (hn : s.allKeys.Nodup) {p : UInt16 × List UInt8} (hp : p ∈ s.large) :
    s.lookup p.1 = some p.2 := by
  obtain ⟨front, back, hsplit⟩ := append_of_mem hp
  have hkey : p.1 ∉ front.map Prod.fst := by
    have := (nodup_parts hn).1
    rw [hsplit, map_append, map_cons, nodup_middle, nodup_cons] at this
    intro hmem
    exact this.1 (mem_append_left _ hmem)
  have hfind : find s.large p.1 = some p.2 := hsplit ▸ find_split (v := p.2) hkey
  simp [lookup, hfind]

/-- **The layout represents the map** of its segments. -/
theorem represents_layout (h : s.Valid) (hm : ∀ key, s.lookup key = m.lookup key) :
    Represents s.layout m where
  lenKeys := by rw [h.toNat_lenKeys, h.toNat_len8, h.toNat_len16, h.toNat_len32, small]
  length_keys := by rw [h.toNat_lenKeys, ← Valid.length_smallKeys]; rfl
  length_values8 := by rw [h.toNat_len8]; simp [layout]
  length_values16 := by rw [h.toNat_len16]; simp [layout]
  length_values32 := by rw [h.toNat_len32]; simp [layout]
  segmented := by
    intro index key hkey
    rw [← hm]
    exact segmented_layout h hkey
  large := by
    intro ele hele
    obtain ⟨p, hp, rfl⟩ := List.mem_map.mp hele
    refine ⟨?_, ?_, h.large_size p hp⟩
    · rw [← hm]
      exact lookup_of_mem_large h.nodup hp
    · rw [element, UInt16.toNat_ofNat', Nat.mod_eq_of_lt (h.large_lt p hp)]
  nodup := by
    have := h.nodup
    rwa [allKeys, show s.large.map Prod.fst = s.layout.head.map (·.key) by
      simp [layout, element, Function.comp_def]] at this
  get := fun key => by rw [get_layout h, hm]

end Segments

/-! ## The refinement -/

/-- The list is the layout of segments whose map is `m`. -/
def Holds (list : KeyValueList) (m : Map) : Prop :=
  ∃ s : Segments, s.Valid ∧ s.layout = list ∧ ∀ key, s.lookup key = m.lookup key

variable {list : KeyValueList} {m : Map}

theorem holds_create : Holds create ∅ := by
  refine ⟨⟨[], [], [], []⟩, ⟨by decide, by simp, by simp, by decide⟩, rfl, fun key => ?_⟩
  rw [Finmap.lookup_empty]
  rfl

/-- `KeyValueList_Add` of a key that is not set. -/
theorem holds_add {key : UInt16} {value : List UInt8} (h : Holds list m)
    (hkey : m.lookup key = none) (hvalue : value.length < 65536)
    (hsmall : Map.small (m.insert key value) ≤ 255) :
    add list key value = some (true, addKeyValuePair list key value) ∧
      Holds (addKeyValuePair list key value) (m.insert key value) := by
  obtain ⟨s, hs, rfl, hm⟩ := h
  have hnone : s.lookup key = none := by rw [hm, hkey]
  have hlookup : ∀ key', (s.add key value).lookup key' = (m.insert key value).lookup key' := by
    intro key'
    rw [Segments.lookup_add hnone, hm]
    by_cases heq : key = key'
    · subst heq
      rw [if_pos rfl, Finmap.lookup_insert]
    · rw [if_neg heq, Finmap.lookup_insert_of_ne _ fun h => heq h.symm]
  have hnodup := Segments.nodup_add hs.nodup hnone value
  have hsize := Segments.large_size_add hs.large_size key value
  have hvalid : (s.add key value).Valid :=
    ⟨Segments.small_eq hnodup hsize hlookup ▸ hsmall, Segments.large_lt_add hs hvalue, hsize, hnodup⟩
  refine ⟨?_, s.add key value, hvalid, (Segments.addKeyValuePair_layout hs key value).symm, hlookup⟩
  rw [add, Segments.isSet_layout hs, hnone]
  rfl

/-- **Every operation answers the operation on the map.** -/
theorem step_answers (list : KeyValueList) (m : Map) (op : Op) (h : Holds list m)
    (hb : m.Bounded op) : Answers Holds (step list op) (m.step op) := by
  cases op with
  | add key value =>
    rcases hkey : m.lookup key with _ | old
    · have hadded : m.step (.add key value) = some (m.insert key value, .added true) := by
        simp [Map.step, hkey]
      obtain ⟨hadd, hholds⟩ := holds_add h hkey (hb.1 key value rfl) (hb.2 _ _ hadded)
      rw [hadded]
      exact ⟨_, by rw [step, hadd]; rfl, hholds⟩
    · obtain ⟨s, hs, rfl, hm⟩ := h
      have hold : m.step (.add key value) = some (m, .added false) := by simp [Map.step, hkey]
      rw [hold]
      refine ⟨s.layout, ?_, s, hs, rfl, hm⟩
      rw [step, add, Segments.isSet_layout hs, hm, hkey]
      rfl
  | remove key =>
    obtain ⟨s, hs, rfl, hm⟩ := h
    refine ⟨(s.erase key).layout, ?_, s.erase key, hs.erase key, rfl, fun key' => ?_⟩
    · rw [step, Segments.remove_layout hs]
      rfl
    · rw [Segments.lookup_erase hs.nodup, hm]
      by_cases heq : key = key'
      · subst heq
        rw [if_pos rfl, Finmap.lookup_erase]
      · rw [if_neg heq, Finmap.lookup_erase_ne fun h => heq h.symm]
  | removeAll => exact ⟨create, rfl, holds_create⟩
  | get key =>
    obtain ⟨s, hs, rfl, hm⟩ := h
    refine ⟨s.layout, ?_, s, hs, rfl, hm⟩
    rw [step, Segments.get_layout hs, hm]
    rfl
  | isSet key =>
    obtain ⟨s, hs, rfl, hm⟩ := h
    refine ⟨s.layout, ?_, s, hs, rfl, hm⟩
    rw [step, Segments.isSet_layout hs, hm]
    rfl
  | getSized key size =>
    obtain ⟨s, hs, rfl, hm⟩ := h
    simp only [step, Map.step]
    rw [Segments.getSized_layout hs, Segments.lookupSized_eq hs hm, hm]
    rcases m.sized key size with _ | value
    · simp only
      split_ifs
      · rfl
      · exact ⟨s.layout, rfl, s, hs, rfl, hm⟩
    · exact ⟨s.layout, rfl, s, hs, rfl, hm⟩

/-- **A key-value list is a finite map.** A run that never holds more than 255 values of 1, 2 or 4
octets, with values under 65536 octets, returns what the run on the map returns, and leaves a list
that represents the map; an addition of a key that is there leaves the list as it is. -/
theorem list_refines_map (ops : List Op) (h : Meets (silent Map.step) Map.Bounded ∅ ops) :
    Answers (fun list m => Represents list m ∧ ∀ key value, m.lookup key ≠ none →
      add list key value = some (false, list)) (outputs step create ops) (outputs Map.step ∅ ops) := by
  have hrun := outputs_answers step_answers holds_create h
  rcases hm : outputs Map.step ∅ ops with _ | ⟨m, results⟩ <;> rw [hm] at hrun
  · exact hrun
  · obtain ⟨list, hlist, s, hs, rfl, hlookup⟩ := hrun
    refine ⟨s.layout, hlist, Segments.represents_layout hs hlookup, fun key value hkey => ?_⟩
    obtain ⟨old, hold⟩ := Option.ne_none_iff_exists'.mp hkey
    rw [add, Segments.isSet_layout hs, hlookup, hold]
    rfl

theorem list_refines_map_three :
    Answers (fun list m => Represents list m ∧ ∀ key value, m.lookup key ≠ none →
      add list key value = some (false, list))
      (outputs step create [.add 7 [1], .add 8 [2, 3], .remove 7])
      (outputs Map.step ∅ [.add 7 [1], .add 8 [2, 3], .remove 7]) := by
  refine list_refines_map _ ⟨⟨?_, ?_⟩, ⟨?_, ?_⟩, ⟨?_, ?_⟩, trivial⟩ <;> rintro _ _ ⟨⟩ <;> decide

end Mh40.KeyValue
