import Mathlib.Data.List.Nodup
import Mh40.KeyValue.List

/-!
# The segments of a key-value list

The pairs of a list as they lie in memory: three segments of pairs with values of 1, 2 and 4 octets,
and the pairs of the linked list.

* `Segments.layout`: the arrays and lengths that hold them.
* `addKeyValuePair_layout`, `remove_layout`, `get_layout`, `getSized_layout`: each operation on the
  layout is an operation on the segments.
-/

namespace Mh40.KeyValue

open Lib.HeapArray List Option
open Prod (fst)

/-- The value has an array. -/
def IsSmall (value : List UInt8) : Prop := value.length = 1 ∨ value.length = 2 ∨ value.length = 4

instance (value : List UInt8) : Decidable (IsSmall value) :=
  inferInstanceAs (Decidable (_ ∨ _ ∨ _))

/-- The pairs of a list. -/
structure Segments where
  pairs8 : List (UInt16 × Octets 1)
  pairs16 : List (UInt16 × Octets 2)
  pairs32 : List (UInt16 × Octets 4)
  large : List (UInt16 × List UInt8)

namespace Segments

variable {s : Segments} {key : UInt16} {value : List UInt8}

/-- The number of values of 1, 2 and 4 octets. -/
def small (s : Segments) : ℕ := s.pairs8.length + s.pairs16.length + s.pairs32.length

/-- The keys of the values of 1, 2 and 4 octets. -/
def smallKeys (s : Segments) : List UInt16 :=
  s.pairs8.map Prod.fst ++ s.pairs16.map Prod.fst ++ s.pairs32.map Prod.fst

/-- The keys, those of the linked list first. -/
def allKeys (s : Segments) : List UInt16 := s.large.map Prod.fst ++ s.smallKeys

/-- The element of a pair in the linked list. -/
def element (p : UInt16 × List UInt8) : LargeKvElement := ⟨.ofNat p.2.length, p.1, p.2⟩

/-- The list that holds the pairs. -/
def layout (s : Segments) : KeyValueList where
  lenKeys := .ofNat s.small
  len8 := .ofNat s.pairs8.length
  len16 := .ofNat s.pairs16.length
  len32 := .ofNat s.pairs32.length
  keys := s.smallKeys
  values8 := s.pairs8.map Prod.snd
  values16 := s.pairs16.map Prod.snd
  values32 := s.pairs32.map Prod.snd
  head := s.large.map element

/-- The lengths fit their `uint8` and `uint16`, a value is where its size belongs, and no key is
there twice. -/
structure Valid (s : Segments) : Prop where
  small_le : s.small ≤ 255
  large_lt : ∀ p ∈ s.large, p.2.length < 65536
  large_size : ∀ p ∈ s.large, ¬IsSmall p.2
  nodup : s.allKeys.Nodup

/-- The value of a key in a segment. -/
def find {β : Type} (pairs : List (UInt16 × β)) (key : UInt16) : Option β :=
  (pairs.find? (·.1 = key)).map Prod.snd

/-- The value of a key. -/
def lookup (s : Segments) (key : UInt16) : Option (List UInt8) :=
  find s.large key <|> (find s.pairs8 key).map (·.val) <|> (find s.pairs16 key).map (·.val) <|>
    (find s.pairs32 key).map (·.val)

/-- A pair is added to its segment. -/
def add (s : Segments) (key : UInt16) (value : List UInt8) : Segments :=
  if h : value.length = 1 then { s with pairs8 := s.pairs8 ++ [(key, ⟨value, h⟩)] }
  else if h : value.length = 2 then { s with pairs16 := s.pairs16 ++ [(key, ⟨value, h⟩)] }
  else if h : value.length = 4 then { s with pairs32 := s.pairs32 ++ [(key, ⟨value, h⟩)] }
  else { s with large := (key, value) :: s.large }

/-- The pair of the key is taken out of every segment. -/
def erase (s : Segments) (key : UInt16) : Segments where
  pairs8 := s.pairs8.eraseP (·.1 = key)
  pairs16 := s.pairs16.eraseP (·.1 = key)
  pairs32 := s.pairs32.eraseP (·.1 = key)
  large := s.large.eraseP (·.1 = key)

/-! ## Pairs and their keys -/

section

variable {β : Type} {pairs front back : List (UInt16 × β)} {v : β}

/-- A key is not in the segment, or it is in one place. -/
theorem find_cases (pairs : List (UInt16 × β)) (key : UInt16) :
    (key ∉ pairs.map fst) ∨ ∃ front v back, pairs = front ++ (key, v) :: back ∧
      key ∉ front.map fst := by
  induction pairs with
  | nil => simp
  | cons p pairs ih =>
    by_cases hp : p.1 = key
    · exact .inr ⟨[], p.2, pairs, by rw [← hp]; rfl, by simp⟩
    · have hp' : ¬key = p.1 := fun h => hp h.symm
      rcases ih with hkey | ⟨front, v, back, rfl, hkey⟩
      · exact .inl (by simpa [hp'] using hkey)
      · exact .inr ⟨p :: front, v, back, rfl, by simpa [hp'] using hkey⟩

theorem find_eq_none_iff : find pairs key = none ↔ key ∉ pairs.map fst := by
  simp only [find, map_eq_none_iff, find?_eq_none, decide_eq_true_eq, List.mem_map,
    not_exists, not_and]

theorem find_split (hkey : key ∉ front.map fst) :
    find (front ++ (key, v) :: back) key = some v := by
  have : front.find? (·.1 = key) = none := by
    rw [← map_eq_none_iff (f := Prod.snd)]
    exact find_eq_none_iff.mpr hkey
  simp [find, find?_append, this]

theorem eraseP_of_notMem (hkey : key ∉ pairs.map fst) :
    pairs.eraseP (·.1 = key) = pairs := by
  refine eraseP_of_forall_not fun p hp => ?_
  simp only [decide_eq_true_eq]
  rintro rfl
  exact hkey (List.mem_map_of_mem hp)

theorem eraseP_split (hkey : key ∉ front.map fst) (v : β) (back : List (UInt16 × β)) :
    (front ++ (key, v) :: back).eraseP (·.1 = key) = front ++ back := by
  rw [eraseP_append_right _ fun p hp => ?_]
  · simp
  · simp only [decide_eq_true_eq]
    rintro rfl
    exact hkey (List.mem_map_of_mem hp)

end

theorem findIdx?_eq_none {keys : List UInt16} (hkey : key ∉ keys) :
    keys.findIdx? (· = key) = none := by
  refine findIdx?_eq_none_iff.mpr fun k hk => ?_
  simp only [decide_eq_false_iff_not]
  rintro rfl
  exact hkey hk

/-- The index of a key behind other keys. -/
theorem findIdx?_split {front back : List UInt16} (hkey : key ∉ front) :
    (front ++ key :: back).findIdx? (· = key) = some front.length := by
  rw [findIdx?_append, findIdx?_eq_none hkey]
  simp [findIdx?_cons]

/-! ## Reading -/

namespace Valid

theorem toNat_ofNat (h : s.Valid) {n : ℕ} (hn : n ≤ s.small) : (UInt8.ofNat n).toNat = n := by
  rw [UInt8.toNat_ofNat', Nat.mod_eq_of_lt (Nat.lt_succ_of_le (Nat.le_trans hn h.small_le))]

theorem toNat_len8 (h : s.Valid) : s.layout.len8.toNat = s.pairs8.length :=
  h.toNat_ofNat (by unfold small; omega)

theorem toNat_len16 (h : s.Valid) : s.layout.len16.toNat = s.pairs16.length :=
  h.toNat_ofNat (by unfold small; omega)

theorem toNat_len32 (h : s.Valid) : s.layout.len32.toNat = s.pairs32.length :=
  h.toNat_ofNat (by unfold small; omega)

theorem toNat_lenKeys (h : s.Valid) : s.layout.lenKeys.toNat = s.small := h.toNat_ofNat (Nat.le_refl _)

theorem length_smallKeys (s : Segments) : s.smallKeys.length = s.small := by
  simp [smallKeys, small, Nat.add_assoc]

end Valid

/-- The four places that a key may be in exclude each other. -/
theorem disjoint (hn : s.allKeys.Nodup) :
    (∀ k ∈ s.large.map fst, k ∉ s.smallKeys) ∧
    (∀ k ∈ s.pairs8.map fst, k ∉ s.pairs16.map fst ∧ k ∉ s.pairs32.map fst) ∧
    (∀ k ∈ s.pairs16.map fst, k ∉ s.pairs32.map fst) := by
  rw [allKeys, nodup_append] at hn
  obtain ⟨_, hsmall, hlarge⟩ := hn
  refine ⟨fun k hk hk' => hlarge k hk k hk' rfl, ?_⟩
  rw [smallKeys, append_assoc, nodup_append] at hsmall
  obtain ⟨_, hrest, h8⟩ := hsmall
  rw [nodup_append] at hrest
  refine ⟨fun k hk => ⟨fun hk' => ?_, fun hk' => ?_⟩, fun k hk hk' => hrest.2.2 k hk k hk' rfl⟩
  · exact h8 k hk k (mem_append_left _ hk') rfl
  · exact h8 k hk k (mem_append_right _ hk') rfl

theorem findLarge_layout (s : Segments) (key : UInt16) :
    findLarge s.layout key = (find s.large key).map fun v => element (key, v) := by
  rcases find_cases s.large key with hkey | ⟨front, v, back, hsplit, hkey⟩
  · rw [find_eq_none_iff.mpr hkey, findLarge, layout, find?_map, map_eq_none_iff.mpr]
    · rfl
    · exact map_eq_none_iff.mp (find_eq_none_iff.mpr hkey)
  · rw [hsplit, find_split hkey, findLarge, layout, hsplit, find?_map, find?_append]
    have : front.find? ((fun e : LargeKvElement => decide (e.key = key)) ∘ element) = none := by
      exact map_eq_none_iff.mp (find_eq_none_iff.mpr hkey)
    simp [this, element]

/-- The loop over all keys. -/
theorem findKey_layout (h : s.Valid) (key : UInt16) :
    findKey s.layout 0 s.layout.lenKeys.toNat key = s.smallKeys.findIdx? (· = key) := by
  rw [findKey, h.toNat_lenKeys, ← Valid.length_smallKeys, drop_zero]
  exact congrArg _ (take_of_length_le (Nat.le_refl _))

/-- Where a key is. -/
inductive Place (s : Segments) (key : UInt16) : Prop
  | absent : key ∉ s.large.map Prod.fst → key ∉ s.pairs8.map Prod.fst →
      key ∉ s.pairs16.map Prod.fst → key ∉ s.pairs32.map Prod.fst → Place s key
  | large (front v back) : s.large = front ++ (key, v) :: back → key ∉ front.map Prod.fst →
      key ∉ s.pairs8.map Prod.fst → key ∉ s.pairs16.map Prod.fst →
      key ∉ s.pairs32.map Prod.fst → Place s key
  | octets1 (front v back) : s.pairs8 = front ++ (key, v) :: back → key ∉ front.map Prod.fst →
      key ∉ s.large.map Prod.fst → key ∉ s.pairs16.map Prod.fst →
      key ∉ s.pairs32.map Prod.fst → Place s key
  | octets2 (front v back) : s.pairs16 = front ++ (key, v) :: back → key ∉ front.map Prod.fst →
      key ∉ s.large.map Prod.fst → key ∉ s.pairs8.map Prod.fst →
      key ∉ s.pairs32.map Prod.fst → Place s key
  | octets4 (front v back) : s.pairs32 = front ++ (key, v) :: back → key ∉ front.map Prod.fst →
      key ∉ s.large.map Prod.fst → key ∉ s.pairs8.map Prod.fst →
      key ∉ s.pairs16.map Prod.fst → Place s key

theorem place (hn : s.allKeys.Nodup) (key : UInt16) : s.Place key := by
  obtain ⟨hlarge, h8, h16⟩ := disjoint hn
  have hmem : ∀ {β : Type} {pairs front back : List (UInt16 × β)} {v : β},
      pairs = front ++ (key, v) :: back → key ∈ pairs.map fst := by
    rintro β _ front back v rfl
    simp
  simp only [smallKeys, mem_append, not_or] at hlarge
  rcases find_cases s.large key with hl | ⟨front, v, back, hsplit, hfront⟩
  · rcases find_cases s.pairs8 key with hp8 | ⟨front, v, back, hsplit, hfront⟩
    · rcases find_cases s.pairs16 key with hp16 | ⟨front, v, back, hsplit, hfront⟩
      · rcases find_cases s.pairs32 key with hp32 | ⟨front, v, back, hsplit, hfront⟩
        · exact .absent hl hp8 hp16 hp32
        · exact .octets4 front v back hsplit hfront hl hp8 hp16
      · exact .octets2 front v back hsplit hfront hl hp8 (h16 key (hmem hsplit))
    · obtain ⟨hn16, hn32⟩ := h8 key (hmem hsplit)
      exact .octets1 front v back hsplit hfront hl hn16 hn32
  · obtain ⟨⟨hn8, hn16⟩, hn32⟩ := hlarge key (hmem hsplit)
    exact .large front v back hsplit hfront hn8 hn16 hn32

theorem findLarge_none (hkey : key ∉ s.large.map fst) : findLarge s.layout key = none := by
  rw [findLarge_layout, find_eq_none_iff.mpr hkey]
  rfl

/-- The index of a key in the segments. -/
theorem findIdx?_smallKeys {index : ℕ} (front middle back : List UInt16)
    (hkeys : s.smallKeys = front ++ (middle ++ key :: back)) (hfront : key ∉ front)
    (hmiddle : key ∉ middle) (hindex : front.length + middle.length = index) :
    s.smallKeys.findIdx? (· = key) = some index := by
  rw [hkeys, ← append_assoc, findIdx?_split (by simp [hfront, hmiddle]), length_append,
    hindex]

/-- The sizes and the octets of the values, in the order of their keys. -/
def smallValues (s : Segments) : List (ℕ × List UInt8) :=
  s.pairs8.map (fun p => (1, p.2.val)) ++ (s.pairs16.map (fun p => (2, p.2.val)) ++
    s.pairs32.map (fun p => (4, p.2.val)))

/-- **Every index is paired with the value of its key.** -/
theorem valueAt_layout (h : s.Valid) (index : ℕ) :
    valueAt s.layout index = s.smallValues[index]? := by
  unfold valueAt smallValues
  rw [h.toNat_len8, h.toNat_len16, getElem?_append, getElem?_append]
  simp [layout, getElem?_map, Function.comp_def]

theorem find_none {β : Type} {pairs : List (UInt16 × β)} (hkey : key ∉ pairs.map fst) :
    find pairs key = none :=
  find_eq_none_iff.mpr hkey

/-- The index of the key of a value of `n` octets, and the value. -/
structure Indexed (s : Segments) (key : UInt16) (index n : ℕ) (v : Octets n) : Prop where
  findIdx : s.smallKeys.findIdx? (· = key) = some index
  value : s.smallValues[index]? = some (n, v.val)
  lookup : s.lookup key = some v.val

theorem indexed_octets1 {front back : List (UInt16 × Octets 1)} {v : Octets 1}
    (hsplit : s.pairs8 = front ++ (key, v) :: back) (hfront : key ∉ front.map fst)
    (hl : key ∉ s.large.map fst) : s.Indexed key front.length 1 v where
  findIdx := findIdx?_smallKeys [] (front.map fst) (back.map fst ++
    (s.pairs16.map fst ++ s.pairs32.map fst)) (by simp [smallKeys, hsplit])
    not_mem_nil hfront (by simp)
  value := by simp [smallValues, hsplit]
  lookup := by simp [Segments.lookup, find_none hl, hsplit, find_split hfront]

theorem indexed_octets2 {front back : List (UInt16 × Octets 2)} {v : Octets 2}
    (hsplit : s.pairs16 = front ++ (key, v) :: back) (hfront : key ∉ front.map fst)
    (hl : key ∉ s.large.map fst) (h8 : key ∉ s.pairs8.map fst) :
    s.Indexed key (s.pairs8.length + front.length) 2 v where
  findIdx := findIdx?_smallKeys (s.pairs8.map fst) (front.map fst)
    (back.map fst ++ s.pairs32.map fst) (by simp [smallKeys, hsplit]) h8 hfront (by simp)
  value := by simp [smallValues, hsplit]
  lookup := by
    simp [Segments.lookup, find_none hl, find_none h8, hsplit, find_split hfront]

theorem indexed_octets4 {front back : List (UInt16 × Octets 4)} {v : Octets 4}
    (hsplit : s.pairs32 = front ++ (key, v) :: back) (hfront : key ∉ front.map fst)
    (hl : key ∉ s.large.map fst) (h8 : key ∉ s.pairs8.map fst)
    (h16 : key ∉ s.pairs16.map fst) :
    s.Indexed key (s.pairs8.length + (s.pairs16.length + front.length)) 4 v where
  findIdx := findIdx?_smallKeys (s.pairs8.map fst ++ s.pairs16.map fst)
    (front.map fst) (back.map fst) (by simp [smallKeys, hsplit])
    (by simp only [mem_append, not_or]; exact ⟨h8, h16⟩) hfront (by simp [Nat.add_assoc])
  value := by simp [smallValues, hsplit]
  lookup := by
    simp [Segments.lookup, find_none hl, find_none h8, find_none h16, hsplit, find_split hfront]

theorem get_of_indexed {index n : ℕ} {v : Octets n} (h : s.Valid)
    (hl : key ∉ s.large.map fst) (hi : s.Indexed key index n v) :
    get s.layout key = some ((s.lookup key).map fun v => (v.length, v)) := by
  simp [get, findLarge_none hl, findKey_layout h, hi.findIdx, valueAt_layout h, hi.value,
    hi.lookup, v.2]

/-- **`KeyValueList_Get`** gives the value of the key, with its size. -/
theorem get_layout (h : s.Valid) (key : UInt16) :
    get s.layout key = some ((s.lookup key).map fun v => (v.length, v)) := by
  cases place h.nodup key with
  | absent hl h8 h16 h32 =>
    have hidx : s.smallKeys.findIdx? (· = key) = none := findIdx?_eq_none (by
      simp only [smallKeys, mem_append, not_or]
      exact ⟨⟨h8, h16⟩, h32⟩)
    simp only [get, findLarge_none hl, findKey_layout h, hidx, lookup, find_none hl, find_none h8,
      find_none h16, find_none h32]
    rfl
  | large front v back hsplit hfront h8 h16 h32 =>
    have hlen := h.large_lt (key, v) (by simp [hsplit])
    have hfind : find s.large key = some v := hsplit ▸ find_split hfront
    have hnat : (UInt16.ofNat v.length).toNat = v.length := by
      rw [UInt16.toNat_ofNat', Nat.mod_eq_of_lt hlen]
    simp [get, findLarge_layout, hfind, lookup, element, hnat]
  | octets1 front v back hsplit hfront hl h16 h32 =>
    exact get_of_indexed h hl (indexed_octets1 hsplit hfront hl)
  | octets2 front v back hsplit hfront hl h8 h32 =>
    exact get_of_indexed h hl (indexed_octets2 hsplit hfront hl h8)
  | octets4 front v back hsplit hfront hl h8 h16 =>
    exact get_of_indexed h hl (indexed_octets4 hsplit hfront hl h8 h16)

theorem isSet_layout (h : s.Valid) (key : UInt16) :
    isSet s.layout key = some (s.lookup key).isSome := by
  rw [isSet, get_layout h]
  simp

/-- `KeyValueList_GetSized` with a size that has an array finds the key in its segment only, with
another size in the linked list only. -/
def lookupSized (s : Segments) (key : UInt16) (size : ℕ) : Option (List UInt8) :=
  if size = 1 then (find s.pairs8 key).map (·.val)
  else if size = 2 then (find s.pairs16 key).map (·.val)
  else if size = 4 then (find s.pairs32 key).map (·.val)
  else find s.large key

/-- The loop over the keys of one segment. -/
theorem findKey_segment {β : Type} {start len : ℕ} (front : List UInt16) (pairs : List (UInt16 × β))
    (back : List UInt16) (hkeys : s.smallKeys = front ++ (pairs.map fst ++ back))
    (hstart : front.length = start) (hlen : len = pairs.length) (key : UInt16) :
    findKey s.layout start len key = (pairs.map fst).findIdx? (· = key) := by
  subst hstart hlen
  rw [findKey]
  simp [layout, hkeys]

/-- The value at the index of the key in its segment. -/
theorem getElem?_findIdx {n : ℕ} (pairs : List (UInt16 × Octets n)) (key : UInt16)
    (absent : Option (Option (List UInt8))) :
    (match (pairs.map fst).findIdx? (· = key) with
      | some index => (pairs.map Prod.snd)[index]?.map fun v => some v.val
      | none => absent) =
    match find pairs key with
      | some v => some (some v.val)
      | none => absent := by
  rcases find_cases pairs key with hkey | ⟨front, v, back, rfl, hfront⟩
  · rw [find_none hkey, findIdx?_eq_none hkey]
  · rw [find_split hfront, map_append, map_cons, findIdx?_split hfront]
    simp

theorem getSized_layout (h : s.Valid) (key : UInt16) (size : ℕ) :
    getSized s.layout key size =
      match s.lookupSized key size with
      | some v => some (some v)
      | none => if (s.lookup key).isSome then none else some none := by
  have hset : notSized s.layout key = if (s.lookup key).isSome then none else some none := by
    rw [notSized, isSet_layout h, bind_some]
  unfold getSized lookupSized
  rw [hset]
  generalize (if (s.lookup key).isSome then none else some none) = absent
  split_ifs
  · rw [findKey_segment (s := s) [] s.pairs8 (s.pairs16.map fst ++ s.pairs32.map fst)
      (by simp [smallKeys]) length_nil h.toNat_len8]
    refine (getElem?_findIdx s.pairs8 key _).trans ?_
    cases find s.pairs8 key <;> rfl
  · rw [findKey_segment (s := s) (s.pairs8.map fst) s.pairs16 (s.pairs32.map fst)
      (by simp [smallKeys]) (by simp [h.toNat_len8]) h.toNat_len16]
    refine (getElem?_findIdx s.pairs16 key _).trans ?_
    cases find s.pairs16 key <;> rfl
  · rw [findKey_segment (s := s) (s.pairs8.map fst ++ s.pairs16.map fst) s.pairs32 []
      (by simp [smallKeys]) (by simp [h.toNat_len8, h.toNat_len16]) h.toNat_len32]
    refine (getElem?_findIdx s.pairs32 key _).trans ?_
    cases find s.pairs32 key <;> rfl
  · rw [findLarge_layout]
    cases find s.large key <;> rfl

/-! ## Adding -/

/-- Room is made for the key between other keys. -/
theorem insertKey_eq {list : KeyValueList} {keyIndex : ℕ} (xs ys : List UInt16)
    (hkeys : list.keys = xs ++ ys) (hindex : xs.length = keyIndex)
    (hlen : list.lenKeys.toNat = xs.length + ys.length) (key : UInt16) :
    insertKey list keyIndex key =
      { list with keys := xs ++ key :: ys, lenKeys := .ofNat (xs.length + ys.length + 1) } := by
  have hys : list.lenKeys.toNat - keyIndex = ys.length := by omega
  have hnew : list.lenKeys.toNat + 1 = keyIndex + ys.length + 1 := by omega
  rw [insertKey, hkeys, hys, hnew, insert_append hindex rfl, hindex]

theorem appendValue_eq {n : ℕ} {values : List (Octets n)} {len : UInt8}
    (hlen : len.toNat = values.length) (v : Octets n) :
    appendValue values len v = values ++ [v] :=
  realloc_set hlen.symm v

/-- **A pair is added** to its segment. -/
theorem addKeyValuePair_layout (h : s.Valid) (key : UInt16) (value : List UInt8) :
    addKeyValuePair s.layout key value = (s.add key value).layout := by
  have hlen : s.layout.lenKeys.toNat = s.pairs8.length + s.pairs16.length + s.pairs32.length :=
    h.toNat_lenKeys
  unfold addKeyValuePair add
  split_ifs
  · rw [insertKey_eq (s.pairs8.map fst) (s.pairs16.map fst ++ s.pairs32.map fst)
      (by simp [layout, smallKeys]) (by simp [h.toNat_len8]) (by simpa [Nat.add_assoc] using hlen),
      appendValue_eq (by rw [h.toNat_len8]; simp [layout]), h.toNat_len8]
    simp [layout, smallKeys, small]
    ac_rfl
  · rw [insertKey_eq (s.pairs8.map fst ++ s.pairs16.map fst) (s.pairs32.map fst)
      (by simp [layout, smallKeys]) (by simp [h.toNat_len8, h.toNat_len16])
      (by simpa [Nat.add_assoc] using hlen),
      appendValue_eq (by rw [h.toNat_len16]; simp [layout]), h.toNat_len16]
    simp [layout, smallKeys, small]
    ac_rfl
  · rw [insertKey_eq (s.pairs8.map fst ++ (s.pairs16.map fst ++ s.pairs32.map fst)) []
      (by simp [layout, smallKeys]) (by simp [h.toNat_len8, h.toNat_len16, h.toNat_len32, Nat.add_assoc])
      (by simpa [Nat.add_assoc] using hlen),
      appendValue_eq (by rw [h.toNat_len32]; simp [layout]), h.toNat_len32]
    simp [layout, smallKeys, small]
    ac_rfl
  · simp [layout, smallKeys, small, element]

/-! ## Removing -/

theorem removeCell_eq {α : Type} [Inhabited α] {arr : List α} {len : UInt8} (index : ℕ)
    (xs : List α) (a : α) (ys : List α) (harr : arr = xs ++ a :: ys) (hindex : xs.length = index)
    (hlen : len.toNat = arr.length) : removeCell arr len index = xs ++ ys := by
  subst harr
  rw [length_append, length_cons] at hlen
  have hpred : (len - 1).toNat = index + ys.length := by
    have h1 : (1 : UInt8).toNat = 1 := rfl
    rw [UInt8.toNat_sub, h1]
    have := len.toNat_lt
    omega
  have hn : len.toNat - index = ys.length + 1 := by omega
  rw [removeCell, hn]
  split_ifs with h0
  · rw [hpred, erase_append hindex rfl]
  · have hzero : len - 1 = 0 := by simpa using h0
    rw [hzero, UInt8.toNat_zero] at hpred
    rw [eq_nil_of_length_eq_zero (l := ys) (by omega),
      eq_nil_of_length_eq_zero (l := xs) (by omega)]
    rfl

/-- **A pair is taken out** of its segment. -/
theorem remove_layout (h : s.Valid) (key : UInt16) :
    remove s.layout key = some (s.erase key).layout := by
  have hlen : s.layout.lenKeys.toNat = s.layout.keys.length := by
    rw [h.toNat_lenKeys, ← Valid.length_smallKeys]
    rfl
  cases place h.nodup key with
  | absent hl h8 h16 h32 =>
    have hidx : s.smallKeys.findIdx? (· = key) = none := findIdx?_eq_none (by
      simp only [smallKeys, mem_append, not_or]
      exact ⟨⟨h8, h16⟩, h32⟩)
    simp only [remove, findLarge_none hl, findKey_layout h, hidx, erase, eraseP_of_notMem hl,
      eraseP_of_notMem h8, eraseP_of_notMem h16, eraseP_of_notMem h32]
  | large front v back hsplit hfront h8 h16 h32 =>
    have hfind : find s.large key = some v := hsplit ▸ find_split hfront
    have hhead : s.layout.head.eraseP (·.key = key) = (front ++ back).map element := by
      rw [← eraseP_split hfront v back, ← hsplit]
      exact eraseP_map
    simp only [remove, findLarge_layout, hfind, map_some, hhead, erase,
      eraseP_of_notMem h8, eraseP_of_notMem h16, eraseP_of_notMem h32]
    rw [hsplit, eraseP_split hfront v back]
    rfl
  | octets1 front v back hsplit hfront hl h16 h32 =>
    have hlt : front.length < s.layout.len8.toNat := by
      rw [h.toNat_len8, hsplit]
      simp
    have hvalues := removeCell_eq front.length (front.map Prod.snd) v (back.map Prod.snd)
      (show s.layout.values8 = _ by simp [layout, hsplit]) (by simp)
      (show s.layout.len8.toNat = _ by rw [h.toNat_len8]; simp [layout])
    have hkeys := removeCell_eq front.length (front.map fst) key
      (back.map fst ++ (s.pairs16.map fst ++ s.pairs32.map fst))
      (by simp [layout, smallKeys, hsplit]) (by simp) hlen
    simp only [remove, findLarge_none hl, findKey_layout h,
      (indexed_octets1 hsplit hfront hl).findIdx, removeValue, if_pos hlt, map_some,
      removeKey, hvalues, hkeys, erase, eraseP_of_notMem hl, eraseP_of_notMem h16,
      eraseP_of_notMem h32]
    rw [hsplit, eraseP_split hfront v back]
    simp [layout, smallKeys, small, hsplit]
    constructor <;> grind
  | octets2 front v back hsplit hfront hl h8 h32 =>
    have hge : ¬s.pairs8.length + front.length < s.layout.len8.toNat := by
      rw [h.toNat_len8]
      omega
    have hlt : s.pairs8.length + front.length - s.layout.len8.toNat < s.layout.len16.toNat := by
      rw [h.toNat_len8, h.toNat_len16, hsplit]
      simp
    have hvalues := removeCell_eq (s.pairs8.length + front.length - s.layout.len8.toNat)
      (front.map Prod.snd) v (back.map Prod.snd)
      (show s.layout.values16 = _ by simp [layout, hsplit]) (by simp [h.toNat_len8])
      (show s.layout.len16.toNat = _ by rw [h.toNat_len16]; simp [layout])
    have hkeys := removeCell_eq (s.pairs8.length + front.length)
      (s.pairs8.map fst ++ front.map fst) key
      (back.map fst ++ s.pairs32.map fst)
      (by simp [layout, smallKeys, hsplit]) (by simp) hlen
    simp only [remove, findLarge_none hl, findKey_layout h,
      (indexed_octets2 hsplit hfront hl h8).findIdx, removeValue, if_neg hge, if_pos hlt,
      map_some, removeKey, hvalues, hkeys, erase, eraseP_of_notMem hl, eraseP_of_notMem h8,
      eraseP_of_notMem h32]
    rw [hsplit, eraseP_split hfront v back]
    simp [layout, smallKeys, small, hsplit]
    constructor <;> grind
  | octets4 front v back hsplit hfront hl h8 h16 =>
    have hge : ¬s.pairs8.length + (s.pairs16.length + front.length) < s.layout.len8.toNat := by
      rw [h.toNat_len8]
      omega
    have hge16 : ¬s.pairs8.length + (s.pairs16.length + front.length) - s.layout.len8.toNat <
        s.layout.len16.toNat := by
      rw [h.toNat_len8, h.toNat_len16]
      omega
    have hindex : s.pairs8.length + (s.pairs16.length + front.length) - s.layout.len8.toNat -
        s.layout.len16.toNat = front.length := by
      rw [h.toNat_len8, h.toNat_len16]
      omega
    have hlt : front.length < s.layout.len32.toNat := by
      rw [h.toNat_len32, hsplit]
      simp
    have hvalues := removeCell_eq front.length (front.map Prod.snd) v (back.map Prod.snd)
      (show s.layout.values32 = _ by simp [layout, hsplit]) (by simp)
      (show s.layout.len32.toNat = _ by rw [h.toNat_len32]; simp [layout])
    have hkeys := removeCell_eq (s.pairs8.length + (s.pairs16.length + front.length))
      (s.pairs8.map fst ++ (s.pairs16.map fst ++ front.map fst)) key
      (back.map fst) (by simp [layout, smallKeys, hsplit]) (by simp) hlen
    simp only [remove, findLarge_none hl, findKey_layout h,
      (indexed_octets4 hsplit hfront hl h8 h16).findIdx, removeValue, if_neg hge, if_neg hge16,
      hindex, if_pos hlt, map_some, removeKey, hvalues, hkeys, erase, eraseP_of_notMem hl,
      eraseP_of_notMem h8, eraseP_of_notMem h16]
    rw [hsplit, eraseP_split hfront v back]
    simp [layout, smallKeys, small, hsplit]
    constructor <;> grind

end Segments

end Mh40.KeyValue
