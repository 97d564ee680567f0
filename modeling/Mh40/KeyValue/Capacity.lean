import Mh40.KeyValue.Refinement

/-!
# How much a key-value list holds

`KeyValueList_Add` adds without a look at the lengths of its arrays, which are octets, and stores
the size of a large value in 16 bits.

* `Represents.holds`: a list that represents a map is the layout of its segments.
* `Stores`: what adding an absent key is to do; `stores_iff`: when it does.
* `not_stores_full`: with 255 values of 1 octet, a further one hides them all.
-/

namespace Mh40.KeyValue

open List Option

variable {list : KeyValueList} {m : Map} {key : UInt16} {value : List UInt8}

/-! ## Segments of a list -/

/-- The segments that the arrays and the linked list hold. -/
def segmentsOf (list : KeyValueList) : Segments where
  pairs8 := (list.keys.take list.len8.toNat).zip list.values8
  pairs16 := ((list.keys.drop list.len8.toNat).take list.len16.toNat).zip list.values16
  pairs32 := (list.keys.drop (list.len8.toNat + list.len16.toNat)).zip list.values32
  large := list.head.map fun ele => (ele.key, ele.data)

section

variable {α β : Type} {xs : List α} {ys : List β}

theorem map_fst_zip (h : xs.length = ys.length) : (xs.zip ys).map Prod.fst = xs :=
  List.map_fst_zip (Nat.le_of_eq h)

theorem map_snd_zip (h : xs.length = ys.length) : (xs.zip ys).map Prod.snd = ys :=
  List.map_snd_zip (Nat.le_of_eq h.symm)

theorem length_zip (h : xs.length = ys.length) : (xs.zip ys).length = xs.length := by
  rw [List.length_zip, h, Nat.min_self]

end

/-- **A list that represents a map is the layout of its segments.** -/
theorem Represents.holds (h : Represents list m) : Holds list m := by
  have hlen := h.lenKeys
  have hkeys := h.length_keys
  have h8 : (list.keys.take list.len8.toNat).length = list.values8.length := by
    rw [length_take, h.length_values8]
    omega
  have h16 : ((list.keys.drop list.len8.toNat).take list.len16.toNat).length =
      list.values16.length := by
    rw [length_take, length_drop, h.length_values16]
    omega
  have h32 : (list.keys.drop (list.len8.toNat + list.len16.toNat)).length =
      list.values32.length := by
    rw [length_drop, h.length_values32]
    omega
  have hsmallKeys : (segmentsOf list).smallKeys = list.keys := by
    unfold Segments.smallKeys segmentsOf
    dsimp only
    rw [map_fst_zip h8, map_fst_zip h16, map_fst_zip h32, ← drop_drop, append_assoc,
      take_append_drop, take_append_drop]
  have hsmall : (segmentsOf list).small = list.lenKeys.toNat := by
    rw [← Segments.Valid.length_smallKeys, hsmallKeys, hkeys]
  have hlayout : (segmentsOf list).layout = list := by
    unfold Segments.layout
    rw [hsmall, hsmallKeys]
    unfold segmentsOf
    dsimp only
    rw [length_zip h8, length_zip h16, length_zip h32, map_snd_zip h8, map_snd_zip h16,
      map_snd_zip h32, h8, h16, h32, h.length_values8, h.length_values16, h.length_values32]
    have hhead : (list.head.map fun ele => (ele.key, ele.data)).map Segments.element =
        list.head := by
      rw [List.map_map]
      refine (map_congr_left fun ele hele => ?_).trans (List.map_id _)
      have hele := (h.large ele hele).2.1
      change (⟨.ofNat ele.data.length, ele.key, ele.data⟩ : LargeKvElement) = ele
      rw [← hele, UInt16.ofNat_toNat]
    rw [hhead]
    simp only [UInt8.ofNat_toNat]
  have hvalid : (segmentsOf list).Valid := by
    refine ⟨?_, fun p hp => ?_, fun p hp => ?_, ?_⟩
    · rw [hsmall]
      exact Nat.le_of_lt_succ list.lenKeys.toNat_lt
    · obtain ⟨ele, hele, rfl⟩ := List.mem_map.mp hp
      rw [← (h.large ele hele).2.1]
      exact ele.len.toNat_lt
    · obtain ⟨ele, hele, rfl⟩ := List.mem_map.mp hp
      exact (h.large ele hele).2.2
    · unfold Segments.allKeys
      rw [hsmallKeys]
      have hlarge : (segmentsOf list).large.map Prod.fst = list.head.map (·.key) := by
        unfold segmentsOf
        rw [List.map_map]
        rfl
      rw [hlarge]
      exact h.nodup
  refine ⟨segmentsOf list, hvalid, hlayout, fun key => ?_⟩
  have hget := Segments.get_layout hvalid key
  rw [hlayout, h.get key] at hget
  have hmap := congrArg (Option.map Prod.snd) (some.inj hget)
  simpa only [Option.map_map, Function.comp_def, Option.map_id'] using hmap.symm

/-! ## Adding an absent key -/

/-- What adding an absent key is to do: the pair is stored and the others are what they were, or the
list is full and stays as it is. -/
def Stores (list : KeyValueList) (key : UInt16) (value : List UInt8) : Prop :=
  (∃ list', add list key value = some (true, list') ∧
    get list' key = some (some (value.length, value)) ∧
    ∀ key' ≠ key, get list' key' = get list key') ∨
  add list key value = some (false, list)

namespace Segments

variable {s : Segments}

/-- The segment that a new pair goes to. -/
theorem add_eq (s : Segments) (key : UInt16) (value : List UInt8) :
    (s.add key value).small = (s.small + if IsSmall value then 1 else 0) ∧
      (s.add key value).large = if IsSmall value then s.large else (key, value) :: s.large := by
  unfold add
  by_cases hsmall : IsSmall value
  · rw [if_pos hsmall, if_pos hsmall]
    split_ifs with h1 h2 h4
    · exact ⟨by simp only [small, length_append, length_cons, length_nil]; omega, rfl⟩
    · exact ⟨by simp only [small, length_append, length_cons, length_nil]; omega, rfl⟩
    · exact ⟨by simp only [small, length_append, length_cons, length_nil]; omega, rfl⟩
    · exact absurd hsmall (not_or.mpr ⟨h1, not_or.mpr ⟨h2, h4⟩⟩)
  · obtain ⟨h1, hrest⟩ := not_or.mp hsmall
    obtain ⟨h2, h4⟩ := not_or.mp hrest
    rw [dif_neg h1, dif_neg h2, dif_neg h4, if_neg hsmall, if_neg hsmall]
    exact ⟨rfl, rfl⟩

/-- With 255 small values the 8-bit number of keys wraps: none of them is searched. -/
theorem get_add_full (hnone : s.lookup key = none) (hsmall : IsSmall value)
    (hfull : s.small = 255) : get (s.add key value).layout key = some none := by
  have hlarge : find (s.add key value).large key = none := by
    rw [(add_eq ..).2, if_pos hsmall]
    exact find_none fun hmem => lookup_eq_none_iff.mp hnone (mem_append_left _ hmem)
  have hlen : (s.add key value).layout.lenKeys.toNat = 0 := by
    change (UInt8.ofNat (s.add key value).small).toNat = 0
    rw [(add_eq ..).1, if_pos hsmall, hfull]
    rfl
  unfold get
  rw [findLarge_layout, hlarge, hlen]
  unfold findKey
  rw [take_zero]
  rfl

/-- The size of a large value is stored in 16 bits. -/
theorem get_add_large (s : Segments) (key : UInt16) (hsmall : ¬IsSmall value) :
    get (s.add key value).layout key =
      some (some (value.length % 65536, value.take (value.length % 65536))) := by
  have hlarge : find (s.add key value).large key = some value := by
    rw [(add_eq ..).2, if_neg hsmall, find_cons, if_pos rfl]
  have hlen : (element (key, value)).len.toNat = value.length % 65536 := UInt16.toNat_ofNat'
  unfold get
  rw [findLarge_layout, hlarge]
  dsimp only [map_some]
  rw [hlen]
  rfl

end Segments

/-- Segments have a map. -/
theorem Segments.exists_map (s : Segments) : ∃ m : Map, ∀ key, s.lookup key = m.lookup key := by
  have hlookup : ∀ (keys : List UInt16) (key : UInt16),
      (keys.map fun k => (⟨k, (s.lookup k).getD []⟩ : Sigma fun _ : UInt16 => List UInt8)).dlookup
        key = if key ∈ keys then some ((s.lookup key).getD []) else none := by
    intro keys key
    induction keys with
    | nil => rfl
    | cons k keys ih =>
      rw [map_cons]
      by_cases hk : k = key
      · subst hk
        rw [dlookup_cons_eq, if_pos mem_cons_self]
      · rw [dlookup_cons_ne _ _ fun h => hk h.symm, ih]
        simp only [mem_cons, Ne.symm hk, false_or]
  refine ⟨(s.allKeys.map fun k => ⟨k, (s.lookup k).getD []⟩).toFinmap, fun key => ?_⟩
  rw [Finmap.dlookup_list_toFinmap, hlookup]
  by_cases hkey : key ∈ s.allKeys
  · rw [if_pos hkey]
    obtain ⟨value, hvalue⟩ := ne_none_iff_exists'.mp fun h =>
      Segments.lookup_eq_none_iff.mp h hkey
    rw [hvalue]
    rfl
  · rw [if_neg hkey]
    exact Segments.lookup_eq_none_iff.mpr hkey

/-- A key that is absent is added to the segments. -/
theorem stores_layout_iff {s : Segments} (hs : s.Valid) (hnone : s.lookup key = none) :
    Stores s.layout key value ↔
      get (s.add key value).layout key = some (some (value.length, value)) ∧
      ∀ key' ≠ key, get (s.add key value).layout key' = get s.layout key' := by
  have hadd : add s.layout key value = some (true, (s.add key value).layout) := by
    rw [add, Segments.isSet_layout hs, hnone, ← Segments.addKeyValuePair_layout hs]
    rfl
  unfold Stores
  rw [hadd]
  constructor
  · rintro (⟨list', hlist, hget⟩ | hfalse)
    · obtain rfl : (s.add key value).layout = list' := congrArg Prod.snd (some.inj hlist)
      exact hget
    · cases congrArg Prod.fst (some.inj hfalse)
  · exact fun hget => .inl ⟨_, rfl, hget⟩

/-- **Adding an absent key stores the pair iff** there are fewer than 255 values of 1, 2 or 4
octets, when the value is one of these, and it has fewer than 65536 octets. -/
theorem stores_iff (h : Represents list m) (hkey : get list key = some none) :
    Stores list key value ↔
      (IsSmall value → list.lenKeys.toNat < 255) ∧ value.length < 65536 := by
  obtain ⟨s, hs, rfl, -⟩ := h.holds
  have hnone : s.lookup key = none := by
    rw [Segments.get_layout hs] at hkey
    exact Option.map_eq_none_iff.mp (some.inj hkey)
  rw [stores_layout_iff hs hnone, hs.toNat_lenKeys]
  have hle := hs.small_le
  constructor
  · rintro ⟨hget, -⟩
    refine ⟨fun hsmall => ?_, ?_⟩
    · by_contra hfull
      rw [Segments.get_add_full hnone hsmall (by omega)] at hget
      cases some.inj hget
    · by_cases hsmall : IsSmall value
      · unfold IsSmall at hsmall
        omega
      · rw [Segments.get_add_large s key hsmall] at hget
        have hlen : value.length % 65536 = value.length :=
          congrArg Prod.fst (some.inj (some.inj hget))
        rw [← hlen]
        exact Nat.mod_lt _ (by decide)
  · rintro ⟨hroom, hvalue⟩
    have hvalid : (s.add key value).Valid := by
      refine ⟨?_, Segments.large_lt_add hs hvalue, Segments.large_size_add hs.large_size key value,
        Segments.nodup_add hs.nodup hnone value⟩
      rw [(Segments.add_eq ..).1]
      split_ifs with hsmall
      · exact hroom hsmall
      · exact hle
    refine ⟨?_, fun key' hne => ?_⟩
    · rw [Segments.get_layout hvalid, Segments.lookup_add hnone, if_pos rfl]
      rfl
    · rw [Segments.get_layout hvalid, Segments.lookup_add hnone, if_neg hne.symm,
        Segments.get_layout hs]

/-- A value in each of the arrays, and one in the linked list. -/
def fourSizes : Segments :=
  ⟨[(1, ⟨[10], rfl⟩)], [(2, ⟨[20, 21], rfl⟩)], [(3, ⟨[30, 31, 32, 33], rfl⟩)],
    [(4, [40, 41, 42, 43, 44])]⟩

theorem valid_fourSizes : fourSizes.Valid := ⟨by decide, by decide, by decide, by decide⟩

theorem stores_iff_fourSizes : Stores fourSizes.layout 7 [70, 71] ↔
    (IsSmall [70, 71] → fourSizes.layout.lenKeys.toNat < 255) ∧
      [(70 : UInt8), 71].length < 65536 := by
  obtain ⟨m, hm⟩ := fourSizes.exists_map
  exact stores_iff (Segments.represents_layout valid_fourSizes hm)
    (by rw [Segments.get_layout valid_fourSizes]; rfl)

/-- 255 values of 1 octet. -/
def fullSegments : Segments :=
  ⟨(List.range 255).map fun key => (.ofNat key, ⟨[0], rfl⟩), [], [], []⟩

theorem valid_fullSegments : fullSegments.Valid :=
  ⟨by decide +kernel, nofun, nofun,
    Pairwise.imp UInt16.ne_of_lt (isChain_iff_pairwise.mp (by decide +kernel))⟩

/-- **Not every absent key is stored**: with 255 values of 1 octet, adding a further one returns
`TRUE`, and then no key is found. -/
theorem not_stores_full : ¬ ∀ (list : KeyValueList) (m : Map) (key : UInt16) (value : List UInt8),
    Represents list m → get list key = some none → Stores list key value := by
  intro h
  obtain ⟨m, hm⟩ := fullSegments.exists_map
  have hnone : fullSegments.lookup 255 = none := by decide +kernel
  have hget : get fullSegments.layout 255 = some none := by
    rw [Segments.get_layout valid_fullSegments, hnone]
    rfl
  have hstores := h fullSegments.layout m 255 [0]
    (Segments.represents_layout valid_fullSegments hm) hget
  obtain ⟨hstored, -⟩ := (stores_layout_iff valid_fullSegments hnone).mp hstores
  have hsmall : fullSegments.small = 255 := by decide +kernel
  rw [Segments.get_add_full hnone (.inl rfl) hsmall] at hstored
  cases some.inj hstored

end Mh40.KeyValue
