import Mathlib.Data.List.Forall2
import Mh40.BuffMetadata.PrivateData
import Mh40.Lib.Run

/-!
# The items of a tag

What the private data of a tag stands for is the list of the items that were added. The walks over
the items, the size of a block and the copies agree on where an item is, as long as its length fits
the 16 bits that it is kept in.

* `Stored`, `Finds`: a block has the items of the list, in places that do not meet, and the first
  item with a key is found.
* `Right`: that, for every tag; a copy has the items of its original, or none without memory.
* `right_of_permits`: every run of adds and copies whose lengths fit is right.
-/

namespace Mh40.BuffMetadata

open Lib Lib.Buffer List Option

/-! ## Statement -/

/-- An item. -/
structure Item where
  key : UInt8
  data : List UInt8
  deriving DecidableEq

/-- The offset of an item: the ones in front of it are in whole words. -/
def offsetOf (items : List Item) (i : ℕ) : ℕ :=
  4 + ((items.take i).map fun item => privItemLength item.data.length).sum

/-- The block has the items. -/
structure Stored (block : Block) (items : List Item) : Prop where
  count : itemCount block = some items.length
  header : ∀ i item, items[i]? = some item →
    privItem block (offsetOf items i) = some (item.key, item.data.length)
  data : ∀ i item, items[i]? = some item →
    readAt block (offsetOf items i + 4) item.data.length = some item.data
  inside : ∀ i item, items[i]? = some item →
    offsetOf items i + 4 + item.data.length ≤ block.length
  apart : ∀ i j item, i < j → items[i]? = some item →
    offsetOf items i + 4 + item.data.length ≤ offsetOf items j

/-- The first item with the key is found, with its data. -/
def Finds (xdata : Option Block) (items : List Item) (key : UInt8) : Prop :=
  ∃ answer, findPrivateData xdata key = some answer ∧
    match items.find? (·.key = key) with
    | none => answer = none
    | some item => ∃ block off, xdata = some block ∧ answer = some (item.data.length, off) ∧
        readAt block off item.data.length = some item.data

/-- The block of a tag, and the items that were added to it. -/
structure Tag where
  xdata : Option Block
  items : List Item

/-- A tag has its items and finds them. -/
structure Right (t : Tag) : Prop where
  stored : ∀ block, t.xdata = some block → Stored block t.items
  none : t.xdata = none → t.items = []
  finds : ∀ key, Finds t.xdata t.items key

/-- A call. The allocator may have nothing for a copy of the tag or of its data. -/
inductive MetadataCall where
  | add (tag : ℕ) (key : UInt8) (length : UInt32) (data : Option (ℕ → UInt8))
      (grant : Option Grant)
  | copy (tag : ℕ) (newTag : Bool) (grant : Option Grant)

/-- The items after an add. Without data, the item has what its memory holds. -/
def itemsAfter (items : List Item) (key : UInt8) (length : UInt32) (data : Option (ℕ → UInt8))
    (answer : Option ℕ × Option Block) : List Item :=
  match answer with
  | (some off, some block) => items ++ [⟨key, match data with
      | some data => (List.range length.toNat).map data
      | none => (readAt block off length.toNat).getD []⟩]
  | _ => items

/-- One call on the tags. -/
def metadataStep (s : List Tag) : MetadataCall → Option (List Tag)
  | .add tag key length data grant =>
    match s[tag]? with
    | none => some s
    | some t => (addPrivateData t.xdata key length data grant).map fun answer =>
        s.set tag ⟨answer.2, itemsAfter t.items key length data answer⟩
  | .copy tag newTag grant =>
    match s[tag]? with
    | none => some s
    | some t =>
      if newTag then (copyPrivateData t.xdata grant).map fun xdata =>
        s ++ [⟨xdata, if xdata.isSome then t.items else []⟩]
      else some s

/-- A failed add changes nothing, and a copy is without the data only if there is none or there is
no memory for it. -/
def Answers (s : List Tag) : MetadataCall → Prop
  | .add tag key length data grant => ∀ t, s[tag]? = some t →
    ∃ place xdata, addPrivateData t.xdata key length data grant = some (place, xdata) ∧
      (place = none → xdata = t.xdata)
  | .copy tag _ grant => ∀ t, s[tag]? = some t →
    ∃ xdata, copyPrivateData t.xdata grant = some xdata ∧
      (xdata = none → t.xdata = none ∨ ∃ block size, t.xdata = some block ∧
        getPrivDataLength block = some size ∧ xpmalloc size grant = none)

/-- The length of an item that is added fits its 16 bits, or it is not added. -/
def Permits (s : List Tag) : MetadataCall → Prop
  | .add tag key length data grant => ∀ t, s[tag]? = some t →
    length.toNat < 2 ^ 16 ∨
      addPrivateData t.xdata key length data grant = some (none, t.xdata)
  | .copy .. => True

instance Permits.decidable (s : List Tag) : (call : MetadataCall) → Decidable (Permits s call)
  | .add tag key length data grant =>
    match h : s[tag]? with
    | none => .isTrue fun t ht => absurd (h.symm.trans ht) (some_ne_none t).symm
    | some t => decidable_of_iff (length.toNat < 2 ^ 16 ∨
        addPrivateData t.xdata key length data grant = some (none, t.xdata))
      ⟨fun hp _ ht => some.inj (h.symm.trans ht) ▸ hp, fun hp => hp t h⟩
  | .copy .. => inferInstanceAs (Decidable True)

/-! ## Encoded items -/

/-- The bytes of an item. -/
def Encodes (bytes : List UInt8) (item : Item) : Prop :=
  item.data.length < 2 ^ 16 ∧ bytes.length = privItemLength item.data.length ∧
    ∃ pad tail, bytes = [item.key, UInt8.ofNat item.data.length,
      UInt8.ofNat (item.data.length / 2 ^ 8)] ++ [pad] ++ item.data ++ tail

/-- The count, the items, and what is left of the block. -/
def Holds (block : Block) (items : List Item) : Prop :=
  ∃ cs slack, block = wordBytes items.length ++ cs.flatten ++ slack ∧
    List.Forall₂ Encodes cs items ∧ block.length < 2 ^ 31

section Encoding

variable {bytes front back : List UInt8} {item : Item} {items : List Item} {cs : List (List UInt8)}
  {block : Block} {w length : ℕ} {t : Tag}

@[simp] theorem length_wordBytes (w : ℕ) : (wordBytes w).length = 4 := rfl

theorem privItemLength_eq (h : length < 2 ^ 16) : privItemLength length = (length + 7) / 4 * 4 := by
  unfold privItemLength roundUpToWholeWords
  omega

theorem itemCount_wordBytes (h : w < 2 ^ 32) : itemCount (wordBytes w ++ back) = some w := by
  have hread : readAt (wordBytes w ++ back) 0 4 = some (wordBytes w) :=
    readAt_append [] (wordBytes w) back rfl rfl
  rw [itemCount, hread, map_some]
  simp only [wordBytes, foldr_cons, foldr_nil, UInt8.toNat_ofNat']
  congr 1
  omega

theorem setItemCount_append (h : front.length = 4) :
    setItemCount (front ++ back) w = some (wordBytes w ++ back) :=
  writeAt_append [] front (wordBytes w) back rfl h

theorem privItem_append (h : Encodes bytes item) :
    privItem (front ++ bytes ++ back) front.length = some (item.key, item.data.length) := by
  obtain ⟨hlt, -, pad, tail, rfl⟩ := h
  have hread := readAt_append front [item.key, UInt8.ofNat item.data.length,
    UInt8.ofNat (item.data.length / 2 ^ 8)] ([pad] ++ item.data ++ tail ++ back) rfl
    (n := 3) rfl
  have hassoc : front ++ ([item.key, UInt8.ofNat item.data.length,
      UInt8.ofNat (item.data.length / 2 ^ 8)] ++ [pad] ++ item.data ++ tail) ++ back =
      front ++ [item.key, UInt8.ofNat item.data.length,
        UInt8.ofNat (item.data.length / 2 ^ 8)] ++ ([pad] ++ item.data ++ tail ++ back) := by
    simp only [append_assoc]
  rw [privItem, hassoc, hread, bind_some]
  simp only [UInt8.toNat_ofNat']
  congr 2
  omega

theorem readData_append (h : Encodes bytes item) :
    readAt (front ++ bytes ++ back) (front.length + 4) item.data.length = some item.data := by
  obtain ⟨-, -, pad, tail, rfl⟩ := h
  have hassoc : front ++ ([item.key, UInt8.ofNat item.data.length,
      UInt8.ofNat (item.data.length / 2 ^ 8)] ++ [pad] ++ item.data ++ tail) ++ back =
      (front ++ [item.key, UInt8.ofNat item.data.length,
        UInt8.ofNat (item.data.length / 2 ^ 8), pad]) ++ item.data ++ (tail ++ back) := by
    simp only [append_assoc, cons_append, nil_append]
  rw [hassoc]
  exact readAt_append _ _ _ (by simp) rfl

theorem length_encodes (h : Encodes bytes item) : bytes.length = privItemLength item.data.length :=
  h.2.1

theorem append_between (front bytes rest back : List UInt8) :
    front ++ (bytes ++ rest) ++ back = front ++ bytes ++ (rest ++ back) := by
  simp only [append_assoc]

/-- The loop ends behind the last item. -/
theorem lengthLoop_append (front back : List UInt8) (h : List.Forall₂ Encodes cs items) :
    lengthLoop (front ++ cs.flatten ++ back) items.length front.length =
      some (front.length + cs.flatten.length) := by
  induction h generalizing front with
  | nil => rfl
  | @cons bytes item cs items hc _ ih =>
    rw [flatten_cons, append_between, length_cons, lengthLoop, privItem_append hc]
    simp only [bind_eq_bind, bind_some]
    rw [privItemNext, ← length_encodes hc, ← length_append, ← append_assoc, ih, length_append,
      length_append, Nat.add_assoc]

/-- The loop finds the first item with the key. -/
theorem findLoop_append (front back : List UInt8) (key : UInt8) (h : List.Forall₂ Encodes cs items) :
    ∃ answer, findLoop (front ++ cs.flatten ++ back) key items.length front.length =
        some answer ∧
      match items.find? (·.key = key) with
      | none => answer = none
      | some item => ∃ off, answer = some (item.data.length, off) ∧
          readAt (front ++ cs.flatten ++ back) off item.data.length = some item.data := by
  induction h generalizing front with
  | nil => exact ⟨none, rfl, rfl⟩
  | @cons bytes item cs items hc _ ih =>
    rw [flatten_cons, append_between, length_cons, findLoop, privItem_append hc]
    simp only [bind_eq_bind, bind_some]
    by_cases hkey : item.key = key
    · rw [if_pos hkey, find?_cons_of_pos (by simpa using hkey)]
      exact ⟨_, rfl, front.length + 4, rfl, readData_append hc⟩
    · rw [if_neg hkey, find?_cons_of_neg (by simpa using hkey), privItemNext,
        ← length_encodes hc, ← length_append, ← append_assoc]
      exact ih _

/-- An item lies between the ones in front of it and the ones behind it. -/
theorem exists_encoded {i : ℕ} (h : List.Forall₂ Encodes cs items) (hi : items[i]? = some item) :
    ∃ before bytes after, cs.flatten = before ++ bytes ++ after ∧ 4 + before.length =
      offsetOf items i ∧ Encodes bytes item := by
  induction h generalizing i with
  | nil => cases hi
  | @cons bytes first cs items hc _ ih =>
    cases i with
    | zero =>
      obtain rfl := some.inj hi
      exact ⟨[], bytes, cs.flatten, by rw [flatten_cons, nil_append], rfl, hc⟩
    | succ i =>
      obtain ⟨before, bytes', after, hflat, hoff, hencodes⟩ := ih hi
      refine ⟨bytes ++ before, bytes', after, ?_, ?_, hencodes⟩
      · rw [flatten_cons, hflat]
        simp only [append_assoc]
      · rw [offsetOf] at hoff ⊢
        rw [take_succ_cons, map_cons, sum_cons, length_append,
          length_encodes hc]
        omega

theorem le_privItemLength (h : length < 2 ^ 16) : 4 + length ≤ privItemLength length := by
  rw [privItemLength_eq h]
  omega

theorem offsetOf_succ {i : ℕ} (hi : items[i]? = some item) :
    offsetOf items (i + 1) = offsetOf items i + privItemLength item.data.length := by
  rw [offsetOf, take_add_one, hi, toList_some, map_append, sum_append]
  exact (Nat.add_assoc _ _ _).symm

theorem offsetOf_mono (items : List Item) : Monotone (offsetOf items) := by
  refine monotone_nat_of_le_succ fun i => ?_
  cases hi : items[i]? with
  | none =>
    rw [offsetOf, offsetOf, take_add_one, hi, toList_none, append_nil]
  | some item =>
    rw [offsetOf_succ hi]
    exact Nat.le_add_right _ _

theorem length_le_flatten (h : List.Forall₂ Encodes cs items) :
    items.length ≤ cs.flatten.length := by
  induction h with
  | nil => exact Nat.le_refl _
  | cons hc _ ih =>
    have := le_privItemLength hc.1
    rw [length_cons, flatten_cons, length_append, length_encodes hc]
    omega

theorem Holds.count_lt (h : Holds block items) : items.length < 2 ^ 32 ∧ block.length < 2 ^ 31 := by
  obtain ⟨cs, slack, rfl, hcs, hlt⟩ := h
  refine ⟨?_, hlt⟩
  have hle := length_le_flatten hcs
  rw [length_append, length_append] at hlt
  omega

theorem Holds.itemCount (h : Holds block items) : itemCount block = some items.length := by
  have hlt := h.count_lt
  obtain ⟨cs, slack, rfl, -, -⟩ := h
  rw [append_assoc]
  exact itemCount_wordBytes hlt.1

theorem Holds.stored (h : Holds block items) : Stored block items := by
  have hcount := h.itemCount
  obtain ⟨cs, slack, hblock, hcs, -⟩ := h
  have hat : ∀ i item, items[i]? = some item → ∃ front bytes back, block = front ++ bytes ++ back ∧
      front.length = offsetOf items i ∧ Encodes bytes item := by
    intro i item hi
    obtain ⟨before, bytes, after, hflat, hoff, hencodes⟩ := exists_encoded hcs hi
    refine ⟨wordBytes items.length ++ before, bytes, after ++ slack, ?_, ?_, hencodes⟩
    · rw [hblock, hflat]
      simp only [append_assoc]
    · rw [length_append, length_wordBytes, hoff]
  refine ⟨hcount, fun i item hi => ?_, fun i item hi => ?_, fun i item hi => ?_,
    fun i j item hij hi => ?_⟩
  · obtain ⟨front, bytes, back, rfl, hoff, hencodes⟩ := hat i item hi
    rw [← hoff]
    exact privItem_append hencodes
  · obtain ⟨front, bytes, back, rfl, hoff, hencodes⟩ := hat i item hi
    rw [← hoff]
    exact readData_append hencodes
  · obtain ⟨front, bytes, back, rfl, hoff, hencodes⟩ := hat i item hi
    have hle := le_privItemLength hencodes.1
    rw [← length_encodes hencodes] at hle
    rw [length_append, length_append]
    omega
  · obtain ⟨front, bytes, back, -, hoff, hencodes⟩ := hat i item hi
    have hmono := offsetOf_mono items (Nat.succ_le_of_lt hij)
    have hle := le_privItemLength hencodes.1
    rw [Nat.succ_eq_add_one, offsetOf_succ hi] at hmono
    omega

/-- A tag without private data, or with a block that holds it. -/
def Good (t : Tag) : Prop :=
  match t.xdata with
  | none => t.items = []
  | some block => Holds block t.items

theorem Good.right (h : Good t) : Right t := by
  obtain ⟨xdata, items⟩ := t
  cases xdata with
  | none =>
    obtain rfl : items = [] := h
    exact ⟨fun _ hb => absurd hb (some_ne_none _).symm, fun _ => rfl,
      fun key => ⟨none, rfl, rfl⟩⟩
  | some block =>
    have h : Holds block items := h
    refine ⟨fun _ hb => ?_, fun hn => absurd hn (some_ne_none _), fun key => ?_⟩
    · obtain rfl := some.inj hb
      exact h.stored
    · have hcount := h.itemCount
      obtain ⟨cs, slack, rfl, hcs, -⟩ := h
      obtain ⟨answer, hloop, hanswer⟩ :=
        findLoop_append (wordBytes items.length) slack key hcs
      refine ⟨answer, ?_, ?_⟩
      · rw [findPrivateData, hcount]
        exact hloop
      · dsimp only
        split at hanswer
        · exact hanswer
        · obtain ⟨off, hans, hread⟩ := hanswer
          exact ⟨_, off, rfl, hans, hread⟩

theorem Holds.length_eq (h : Holds block items) :
    ∃ size, getPrivDataLength block = some size ∧ 4 ≤ size ∧ ∃ cs slack,
      block = wordBytes items.length ++ cs.flatten ++ slack ∧ List.Forall₂ Encodes cs items ∧
        size = 4 + cs.flatten.length := by
  have hcount := h.itemCount
  obtain ⟨cs, slack, rfl, hcs, -⟩ := h
  refine ⟨4 + cs.flatten.length, ?_, Nat.le_add_right _ _, cs, slack, rfl, hcs, rfl⟩
  rw [getPrivDataLength, hcount]
  exact lengthLoop_append (wordBytes items.length) slack hcs

/-! ## Adding and copying -/

theorem length_xpmalloc {size : ℕ} {grant : Option Grant} (h : xpmalloc size grant = some block) :
    size ≤ block.length ∧ block.length < 2 ^ 31 := by
  obtain ⟨g, -, hg⟩ := bind_eq_some_iff.mp h
  obtain ⟨hlt, hb⟩ := ite_none_right_eq_some.mp hg
  obtain rfl := some.inj hb
  rw [length_map, length_range]
  exact ⟨Nat.le_add_right _ _, hlt⟩

theorem exists_split {l : List UInt8} {n : ℕ} (h : n ≤ l.length) :
    ∃ a b, l = a ++ b ∧ a.length = n :=
  ⟨l.take n, l.drop n, (take_append_drop n l).symm, length_take_of_le h⟩

/-- The bytes of a new block in front of the others. -/
theorem copy_front {old : List UInt8} (hold : block = old ++ back) (new : List UInt8)
    (hlen : old.length ≤ new.length) : ∃ rest, (readAt block 0 old.length).bind (writeAt new 0) =
      some (old ++ rest) ∧ (old ++ rest).length = new.length := by
  obtain ⟨a, b, rfl, ha⟩ := exists_split hlen
  refine ⟨b, ?_, by rw [length_append, length_append, ha]⟩
  rw [hold, show readAt (old ++ back) 0 old.length = some old from readAt_append [] old back rfl rfl,
    bind_some]
  exact writeAt_append [] a old b rfl ha

/-- The block of the tag, with room for the item and the new count. -/
theorem makeRoom_spec {oldSize : ℕ} (h : Good t)
    (hold : t.xdata = none ∧ oldSize = 4 ∨
      ∃ old, t.xdata = some old ∧ getPrivDataLength old = some oldSize) (newData : Option Block)
    (extra : ℕ)
    (hnew : ∀ new, newData = some new → oldSize + extra ≤ new.length ∧ new.length < 2 ^ 31)
    (hroom : newData = none → oldSize + extra ≤ psizeof t.xdata) (hextra : 0 < extra) :
    ∃ cs slack, makeRoom t.xdata newData oldSize =
        some (wordBytes (t.items.length + 1) ++ cs.flatten ++ slack) ∧
      List.Forall₂ Encodes cs t.items ∧ oldSize = 4 + cs.flatten.length ∧ extra ≤ slack.length ∧
      4 + cs.flatten.length + slack.length < 2 ^ 31 := by
  obtain ⟨xdata, items⟩ := t
  rcases hold with ⟨hxdata, rfl⟩ | ⟨old, hxdata, hsize⟩
  · dsimp only at hxdata
    subst hxdata
    obtain rfl : items = [] := h
    cases hnewData : newData with
    | none =>
      have := hroom hnewData
      change 4 + extra ≤ 0 at this
      omega
    | some new =>
      obtain ⟨hle, hlt⟩ := hnew new hnewData
      obtain ⟨a, b, rfl, ha⟩ := exists_split (show 4 ≤ new.length by omega)
      rw [length_append, ha] at hle hlt
      refine ⟨[], b, ?_, .nil, rfl, by omega, by rw [flatten_nil, length_nil]; omega⟩
      exact setItemCount_append ha
  · dsimp only at hxdata
    subst hxdata
    have hholds : Holds old items := h
    have hcount := hholds.count_lt
    obtain ⟨size, hsize', -, cs, slack, hblock, hcs, hlen⟩ := hholds.length_eq
    obtain rfl := some.inj (hsize.symm.trans hsize')
    have hmod : (items.length + 1) % 2 ^ 32 = items.length + 1 := by
      refine Nat.mod_eq_of_lt ?_
      have hle := length_le_flatten hcs
      rw [hblock, length_append, length_append] at hcount
      omega
    -- the count of a block that starts with the old one
    have hbump : ∀ rest, (do
        let count ← itemCount (wordBytes items.length ++ cs.flatten ++ rest)
        setItemCount (wordBytes items.length ++ cs.flatten ++ rest) ((count + 1) % 2 ^ 32)) =
        some (wordBytes (items.length + 1) ++ cs.flatten ++ rest) := by
      intro rest
      rw [append_assoc, itemCount_wordBytes hcount.1]
      simp only [bind_eq_bind, bind_some]
      rw [hmod, setItemCount_append (length_wordBytes _), append_assoc]
    cases hnewData : newData with
    | none =>
      have hfits := hroom hnewData
      change oldSize + extra ≤ old.length at hfits
      refine ⟨cs, slack, ?_, hcs, hlen, ?_, ?_⟩
      · rw [makeRoom, hblock]
        exact hbump slack
      · rw [hblock, length_append, length_append, length_wordBytes] at hfits
        omega
      · rw [hblock, length_append, length_append, length_wordBytes] at hcount
        omega
    | some new =>
      obtain ⟨hle, hlt⟩ := hnew new hnewData
      have hfront : (wordBytes items.length ++ cs.flatten).length = oldSize := by
        rw [length_append, length_wordBytes, hlen]
      obtain ⟨rest, hcopy, hrest⟩ := copy_front hblock new (by omega)
      rw [hfront] at hcopy
      rw [length_append, hfront] at hrest
      refine ⟨cs, rest, ?_, hcs, hlen, by omega, by omega⟩
      rw [makeRoom]
      simp only [bind_eq_bind] at hcopy ⊢
      rw [hcopy]
      exact hbump rest

/-- The item that is written into the room. -/
theorem populate_spec (front : List UInt8) {slack : List UInt8} (key : UInt8) {length : UInt32}
    (data : Option (ℕ → UInt8)) (hlt : length.toNat < 2 ^ 16)
    (hroom : privItemLength length.toNat ≤ slack.length) :
    ∃ bytes slack' item, (do
        let block ← populateItem (front ++ slack) front.length key length
        copyData block (front.length + 4) length data) = some (front ++ bytes ++ slack') ∧
      Encodes bytes item ∧ bytes.length + slack'.length = slack.length ∧ item.key = key ∧
      item.data = match data with
        | some data => (List.range length.toNat).map data
        | none => (readAt (front ++ bytes ++ slack') (front.length + 4) length.toNat).getD [] := by
  have hitem := le_privItemLength hlt
  obtain ⟨head, slack, rfl, hhead⟩ := exists_split (show 3 ≤ slack.length by omega)
  rw [length_append, hhead] at hroom
  obtain ⟨pad, slack, rfl, hpad⟩ := exists_split (show 1 ≤ slack.length by omega)
  rw [length_append, hpad] at hroom
  obtain ⟨mid, slack, rfl, hmid⟩ := exists_split (show length.toNat ≤ slack.length by omega)
  rw [length_append, hmid] at hroom
  obtain ⟨tail, slack, rfl, htail⟩ :=
    exists_split (show privItemLength length.toNat - (4 + length.toNat) ≤ slack.length by omega)
  obtain ⟨pad, rfl⟩ := length_eq_one_iff.mp hpad
  set header := [key, UInt8.ofNat length.toNat, UInt8.ofNat (length.toNat / 2 ^ 8)] with hheader
  have hpopulate : populateItem (front ++ (head ++ ([pad] ++ (mid ++ (tail ++ slack)))))
      front.length key length = some (front ++ header ++ [pad] ++ (mid ++ (tail ++ slack))) := by
    have hassoc : front ++ (head ++ ([pad] ++ (mid ++ (tail ++ slack)))) =
        front ++ head ++ ([pad] ++ (mid ++ (tail ++ slack))) := by
      simp only [append_assoc]
    rw [populateItem, hassoc, writeAt_append front head header _ rfl hhead]
    simp only [append_assoc]
  rw [hpopulate]
  simp only [bind_eq_bind, bind_some]
  have hfront : (front ++ header ++ [pad]).length = front.length + 4 := by
    simp only [length_append, hheader, length_cons, length_nil]
  have hencodes : ∀ bytes : List UInt8, bytes.length = length.toNat →
      Encodes (header ++ [pad] ++ bytes ++ tail) ⟨key, bytes⟩ := by
    intro bytes hbytes
    refine ⟨by dsimp only; omega, ?_, pad, tail, by dsimp only; rw [hbytes]⟩
    dsimp only
    rw [hbytes]
    simp only [length_append, hheader, length_cons, length_nil, htail, hbytes]
    omega
  have hflat : ∀ bytes, front ++ header ++ [pad] ++ (bytes ++ (tail ++ slack)) =
      front ++ (header ++ [pad] ++ bytes ++ tail) ++ slack := fun bytes => by
    simp only [append_assoc]
  have hlength : ∀ bytes : List UInt8, bytes.length = length.toNat →
      (header ++ [pad] ++ bytes ++ tail).length + slack.length =
        (head ++ ([pad] ++ (mid ++ (tail ++ slack)))).length := by
    intro bytes hbytes
    simp only [length_append, hheader, length_cons, length_nil, hhead, hmid, hbytes]
    omega
  cases data with
  | none =>
    refine ⟨header ++ [pad] ++ mid ++ tail, slack, ⟨key, mid⟩, ?_, hencodes mid hmid,
      hlength mid hmid, rfl, ?_⟩
    · rw [← hflat]
      rfl
    · dsimp only
      rw [← hflat, ← hfront, ← hmid, ← append_assoc,
        readAt_append (front ++ header ++ [pad]) mid (tail ++ slack) rfl rfl, getD_some]
  | some data =>
    have hdata : ((List.range length.toNat).map data).length = length.toNat := by
      rw [length_map, length_range]
    refine ⟨header ++ [pad] ++ (List.range length.toNat).map data ++ tail, slack,
      ⟨key, (List.range length.toNat).map data⟩, ?_, hencodes _ hdata, hlength _ hdata, rfl, rfl⟩
    have hwrite := writeAt_append (front ++ header ++ [pad]) mid ((List.range length.toNat).map data)
      (tail ++ slack) rfl (hmid.trans hdata.symm)
    rw [← hflat, copyData, ← hfront, ← append_assoc _ mid, hwrite, append_assoc _ _ (_ ++ _)]

theorem forall₂_concat (h : List.Forall₂ Encodes cs items) (hb : Encodes bytes item) :
    List.Forall₂ Encodes (cs ++ [bytes]) (items ++ [item]) :=
  rel_append h (.cons hb .nil)

theorem add_spec (h : Good t) (key : UInt8) {length : UInt32} (data : Option (ℕ → UInt8))
    (grant : Option Grant) (hlt : length.toNat < 2 ^ 16) :
    ∃ place xdata, addPrivateData t.xdata key length data grant = some (place, xdata) ∧
      (place = none → xdata = t.xdata) ∧
      Good ⟨xdata, itemsAfter t.items key length data (place, xdata)⟩ := by
  have hextra := le_privItemLength hlt
  have hextra' := privItemLength_eq hlt
  obtain ⟨oldSize, hold, hsize, holdlt⟩ : ∃ oldSize, oldSizeOf t.xdata = some oldSize ∧
      (t.xdata = none ∧ oldSize = 4 ∨
        ∃ old, t.xdata = some old ∧ getPrivDataLength old = some oldSize) ∧ oldSize < 2 ^ 31 := by
    obtain ⟨xdata, items⟩ := t
    cases xdata with
    | none => exact ⟨4, rfl, .inl ⟨rfl, rfl⟩, by decide⟩
    | some block =>
      have hholds : Holds block items := h
      obtain ⟨size, hsize, -, cs, slack, hblock, -, hlen⟩ := hholds.length_eq
      have hlt := hholds.count_lt.2
      rw [hblock, length_append, length_append, length_wordBytes] at hlt
      exact ⟨size, hsize, .inr ⟨block, rfl, hsize⟩, by omega⟩
  have hmod : (oldSize + privItemLength length.toNat) % 2 ^ 32 =
      oldSize + privItemLength length.toNat := Nat.mod_eq_of_lt (by omega)
  unfold addPrivateData
  rw [hold]
  simp only [bind_eq_bind, bind_some]
  rw [hmod]
  set newData := if oldSize + privItemLength length.toNat > psizeof t.xdata then
    xpmalloc (oldSize + privItemLength length.toNat) grant else none with hnewData
  by_cases hfail : oldSize + privItemLength length.toNat > psizeof t.xdata ∧ newData = none
  · rw [if_pos hfail]
    exact ⟨none, t.xdata, rfl, fun _ => rfl, h⟩
  rw [if_neg hfail]
  obtain ⟨cs, slack, hmake, hcs, hlen, hslack, htotal⟩ := makeRoom_spec h hsize
    newData (privItemLength length.toNat)
    (fun new hnew => by
      rw [hnewData] at hnew
      exact length_xpmalloc (ite_none_right_eq_some.mp hnew).2)
    (fun hnone => Nat.le_of_not_lt fun hgt => hfail ⟨hgt, hnone⟩) (by omega)
  set front := wordBytes (t.items.length + 1) ++ cs.flatten with hfront
  have hoff : front.length = oldSize := by
    rw [hfront, length_append, length_wordBytes, hlen]
  obtain ⟨bytes, slack', item, hpopulate, hencodes, hlength, hkey, hdata⟩ :=
    populate_spec front key data hlt hslack
  rw [hoff] at hpopulate hdata
  rw [hmake]
  simp only [bind_eq_bind, bind_some] at hpopulate ⊢
  obtain ⟨block, hp, hc⟩ := bind_eq_some_iff.mp hpopulate
  rw [hp, bind_some, hc, bind_some]
  refine ⟨_, _, rfl, fun hn => absurd hn (some_ne_none _), ?_⟩
  have hitems : itemsAfter t.items key length data (some (oldSize + 4),
      some (front ++ bytes ++ slack')) = t.items ++ [item] := by
    obtain ⟨itemKey, itemData⟩ := item
    dsimp only at hkey hdata
    rw [hkey, hdata]
    rfl
  rw [hitems]
  refine ⟨cs ++ [bytes], slack', ?_, forall₂_concat hcs hencodes, ?_⟩
  · rw [flatten_append, flatten_singleton, length_append, length_singleton,
      hfront, append_assoc _ _ bytes]
  · rw [length_append, length_append, hoff]
    omega

theorem copy_spec (h : Good t) (grant : Option Grant) :
    ∃ xdata, copyPrivateData t.xdata grant = some xdata ∧
      (xdata = none → t.xdata = none ∨ ∃ block size, t.xdata = some block ∧
        getPrivDataLength block = some size ∧ xpmalloc size grant = none) ∧
      Good ⟨xdata, if xdata.isSome then t.items else []⟩ := by
  obtain ⟨xdata, items⟩ := t
  cases xdata with
  | none => exact ⟨none, rfl, fun _ => .inl rfl, rfl⟩
  | some block =>
    have hholds : Holds block items := h
    obtain ⟨size, hsize, -, cs, slack, hblock, hcs, hlen⟩ := hholds.length_eq
    rw [copyPrivateData, hsize]
    simp only [bind_eq_bind, bind_some]
    cases hnew : xpmalloc size grant with
    | none => exact ⟨none, rfl, fun _ => .inr ⟨block, size, rfl, hsize, hnew⟩, rfl⟩
    | some new =>
      obtain ⟨hle, hlt⟩ := length_xpmalloc hnew
      have hfront : (wordBytes items.length ++ cs.flatten).length = size := by
        rw [length_append, length_wordBytes, hlen]
      obtain ⟨rest, hcopy, hrest⟩ := copy_front hblock new (by omega)
      rw [hfront] at hcopy
      dsimp only
      rw [hcopy]
      refine ⟨_, rfl, fun hn => absurd hn (some_ne_none _), cs, rest, rfl, hcs, ?_⟩
      rw [hrest]
      exact hlt

end Encoding

/-! ## Result -/

theorem good_step {s s' : List Tag} {call : MetadataCall} (h : ∀ t ∈ s, Good t)
    (hp : Permits s call) (hs : metadataStep s call = some s') : ∀ t ∈ s', Good t := by
  cases call with
  | add tag key length data grant =>
    rw [metadataStep] at hs
    cases ht : s[tag]? with
    | none =>
      rw [ht] at hs
      exact some.inj hs ▸ h
    | some t =>
      rw [ht] at hs
      obtain ⟨⟨place, xdata⟩, hadd, rfl⟩ := map_eq_some_iff.mp hs
      have hgood := h t (mem_of_getElem? ht)
      intro t' ht'
      rcases mem_or_eq_of_mem_set ht' with hmem | rfl
      · exact h t' hmem
      · rcases hp t ht with hlt | hnone
        · obtain ⟨place', xdata', hadd', -, hafter⟩ := add_spec hgood key data grant hlt
          obtain ⟨rfl, rfl⟩ := Prod.mk.inj (some.inj (hadd.symm.trans hadd'))
          exact hafter
        · obtain ⟨rfl, rfl⟩ := Prod.mk.inj (some.inj (hadd.symm.trans hnone))
          exact hgood
  | copy tag newTag grant =>
    rw [metadataStep] at hs
    cases ht : s[tag]? with
    | none =>
      rw [ht] at hs
      exact some.inj hs ▸ h
    | some t =>
      rw [ht] at hs
      cases newTag with
      | false => exact some.inj hs ▸ h
      | true =>
        obtain ⟨xdata, hcopy, rfl⟩ := map_eq_some_iff.mp hs
        obtain ⟨xdata', hcopy', -, hgood⟩ := copy_spec (h t (mem_of_getElem? ht)) grant
        obtain rfl := some.inj (hcopy.symm.trans hcopy')
        intro t' ht'
        rcases mem_append.mp ht' with hmem | hmem
        · exact h t' hmem
        · rw [mem_singleton.mp hmem]
          exact hgood

theorem answers_of_permits {s : List Tag} {call : MetadataCall} (h : ∀ t ∈ s, Good t)
    (hp : Permits s call) : Answers s call := by
  cases call with
  | add tag key length data grant =>
    intro t ht
    rcases hp t ht with hlt | hnone
    · obtain ⟨place, xdata, hadd, hsame, -⟩ :=
        add_spec (h t (mem_of_getElem? ht)) key data grant hlt
      exact ⟨place, xdata, hadd, hsame⟩
    · exact ⟨none, t.xdata, hnone, fun _ => rfl⟩
  | copy tag newTag grant =>
    intro t ht
    obtain ⟨xdata, hcopy, hlost, -⟩ := copy_spec (h t (mem_of_getElem? ht)) grant
    exact ⟨xdata, hcopy, hlost⟩

/-- A tag without private data. -/
def newTag : Tag := ⟨none, []⟩

/-- **The private data.** While the lengths of what is added fit their 16 bits, every tag has the
items that were added to it and finds the first one of a key, a failed add changes nothing, and a
copy has the items of its original unless there was no memory for them. -/
theorem right_of_permits {calls : List MetadataCall}
    (h : Meets metadataStep Permits [newTag] calls) :
    Throughout metadataStep (fun s => ∀ t ∈ s, Right t) [newTag] calls ∧
      Meets metadataStep Answers [newTag] calls := by
  have hinit : ∀ t ∈ [newTag], Good t := fun t ht => by
    rw [List.mem_singleton.mp ht]
    rfl
  constructor
  · intro front s hfront hs t ht
    exact (invariant_of_meets (fun _ _ _ => good_step) hinit (h.of_prefix hfront) hs t ht).right
  · have hstep : ∀ s call, (∀ t ∈ s, Good t) → Permits s call →
        Answers s call ∧ ∀ s', metadataStep s call = some s' → ∀ t ∈ s', Good t :=
      fun s call hs hp => ⟨answers_of_permits hs hp, fun _ => good_step hs hp⟩
    exact meets_of_meets hstep hinit h

/-- Two items in a block with some bytes to spare, one without memory, and copies with and without
memory for the data. -/
def sampleCalls : List MetadataCall :=
  [.add 0 1 3 (some fun i => UInt8.ofNat (10 + i)) (some ⟨12, fun _ => 0xAA⟩),
    .add 0 2 5 (some fun i => UInt8.ofNat (20 + i)) none, .add 0 1 1 none none, .copy 0 true none,
    .copy 0 true (some ⟨0, fun _ => 0⟩), .add 2 1 4 none (some ⟨0, fun _ => 0x55⟩)]

theorem right_of_permits_sampleCalls : Meets metadataStep Permits [newTag] sampleCalls ∧
    Throughout metadataStep (fun s => ∀ t ∈ s, Right t) [newTag] sampleCalls ∧
      Meets metadataStep Answers [newTag] sampleCalls :=
  have h : Meets metadataStep Permits [newTag] sampleCalls := by decide +kernel
  ⟨h, right_of_permits h⟩

/-- Without memory for the data, a copy does not find the item of its original. -/
theorem not_found_inCopy : ∃ original copy, run metadataStep [newTag]
      [.add 0 1 4 (some fun _ => 7) (some ⟨0, fun _ => 0⟩), .copy 0 true none] =
        some [original, copy] ∧
    findPrivateData original.xdata 1 = some (some (4, 8)) ∧
    findPrivateData copy.xdata 1 = some none :=
  ⟨_, _, rfl, rfl, rfl⟩

end Mh40.BuffMetadata
