import Mh40.UserAccounts.Refinement

/-!
# Account keys of handsets

`domains/bt/user_accounts/user_accounts.c`: a handset is associated with a key by a number that is
a property of its device.

* `associateAccountKeyWithHandset` stores the number of the first slot that begins with the key,
  `getAccountKeyWithHandset` reads the slot of that number if the entry of the index at the place
  of that number is in use.
* `held`: the key last put in each slot since the keys were deleted. `held_begins_slot`: it is
  there. `associated`: the key a handset is associated with, for as long as it is held.
* `associated_right_iff`: the handsets are right through a run exactly when its additions put no
  key in a slot that matters to a handset, and its associations find entries in use for the keys
  that are held and for no others.
* The device itself and the devices of the handsets are always found.
-/

namespace Mh40.UserAccounts

open Lib Option Function

/-- A key to associate a handset with, no longer than a slot. -/
structure HandsetKey where
  accountKey : ℕ → Byte
  accountKeyLen : ℕ
  length_le : accountKeyLen ≤ maxUserAccountKeyLen

def HandsetKey.bytes (k : HandsetKey) : List Byte := readBytes k.accountKey 0 k.accountKeyLen

/-- The loop over the slots: the first one that begins with the key. -/
def firstSlot (info : KeyInfo) (accountKey : ℕ → Byte) (accountKeyLen : ℕ) : Option ℕ :=
  (List.range maxNumAccountKeys).find? fun count => slotBegins info count accountKey accountKeyLen

section Source

variable {Handset : Type} [DecidableEq Handset]

/-- `UserAccounts_AssociateAccountKeyWithHandset`: the properties
`device_property_handset_account_key_index`, and the status. -/
def associateAccountKeyWithHandset (properties : Option KeyInfo)
    (handsetAccountKeyIndex : Handset → Byte) (accountKey : ℕ → Byte) (accountKeyLen : ℕ)
    (handset : Handset) : (Handset → Byte) × Bool :=
  match properties with
  | some info =>
    match firstSlot info accountKey accountKeyLen with
    | some count => (Function.update handsetAccountKeyIndex handset (.ofNat 8 count), true)
    | none => (handsetAccountKeyIndex, false)
  | none => (handsetAccountKeyIndex, false)

/-- `UserAccounts_GetAccountKeyWithHandset`. -/
def getAccountKeyWithHandset (properties : Option KeyInfo) (handsetAccountKeyIndex : Handset → Byte)
    (accountKeyLen : ℕ) (handset : Handset) : Option (List Byte) :=
  let accKeyIndex := (handsetAccountKeyIndex handset).toNat
  if accKeyIndex < maxNumAccountKeys then
    match properties with
    | some info =>
      if 0 < (info.accountKeyIndex accKeyIndex).numHandsetsLinked.toNat then
        some (readBytes info.accountKeys (accKeyIndex * maxUserAccountKeyLen) accountKeyLen)
      else none
    | none => none
  else none

end Source

/-! ## What the handsets should be associated with -/

/-- The slot that the key is put in, if it is put in one. -/
def putSlot (info : KeyInfo) (r : Request) : Option ℕ :=
  match findDuplicate info r.accountKey r.accountKeyLen maxNumAccountKeys 0 with
  | (_, some _) => none
  | (numKeys, none) =>
    if numKeys < maxNumAccountKeys then
      if (info.accountKeyIndex numKeys).numHandsetsLinked = 0 then some numKeys else none
    else some ((info.accountKeyIndex (maxNumAccountKeys - 1)).accountKeyStartLoc.toNat /
      maxUserAccountKeyLen)

/-- A slot holds the key. -/
def Stored (held : ℕ → Option (List Byte)) (key : List Byte) : Prop :=
  ∃ slot < maxNumAccountKeys, held slot = some key

instance decidableStored (held : ℕ → Option (List Byte)) (key : List Byte) :
    Decidable (Stored held key) := by
  unfold Stored
  infer_instance

/-- The properties of the devices, the key last put in each slot since the keys were deleted, and
the key each handset is associated with: the last one, until it is evicted or deleted. -/
structure Links (Handset : Type) where
  properties : Option KeyInfo
  handsetAccountKeyIndex : Handset → Byte
  held : ℕ → Option (List Byte)
  associated : Handset → Option (List Byte)

inductive LinkOp (Handset : Type)
  | add (request : Request)
  | associate (key : HandsetKey) (handset : Handset)
  | deleteAll

namespace Links

variable {Handset : Type}

def init : Links Handset :=
  ⟨none, fun _ => .ofNat 8 invalidUserAccountKeyIndex, fun _ => none, fun _ => none⟩

/-- The entries and the slots, all clear where there are none. -/
def info (s : Links Handset) : KeyInfo := s.properties.getD .cleared

/-- What the slots hold once the key is added. -/
def heldAfter (s : Links Handset) (r : Request) : ℕ → Option (List Byte) :=
  match putSlot s.info r with
  | some slot => Function.update s.held slot (some r.bytes)
  | none => s.held

variable [DecidableEq Handset]

def step (s : Links Handset) : LinkOp Handset → Option (Links Handset)
  | .add r =>
    let held := s.heldAfter r
    some { s with
      properties := (addAccountKey s.properties r.accountKey r.accountKeyLen r.accountKeyType).1
      held := held
      associated := fun handset => (s.associated handset).filter fun key => Stored held key }
  | .associate k handset =>
    let (index, status) := associateAccountKeyWithHandset s.properties s.handsetAccountKeyIndex
      k.accountKey k.accountKeyLen handset
    some { s with
      handsetAccountKeyIndex := index
      associated :=
        if status then
          Function.update s.associated handset
            (if Stored s.held k.bytes then some k.bytes else none)
        else s.associated }
  | .deleteAll =>
    some { s with
      properties := (deleteAllAccountKeys s.properties).1
      held := fun _ => none
      associated := fun _ => none }

end Links

variable {Handset : Type}

/-- A handset gets the key it is associated with, and none if it is associated with none. -/
def Links.Right (s : Links Handset) : Prop :=
  ∀ handset, match s.associated handset with
    | some key =>
        getAccountKeyWithHandset s.properties s.handsetAccountKeyIndex key.length handset = some key
    | none => ∀ len,
        getAccountKeyWithHandset s.properties s.handsetAccountKeyIndex len handset = none

/-- The entry at the place is in use. -/
def InUse (info : KeyInfo) (i : ℕ) : Prop := 0 < (info.accountKeyIndex i).numHandsetsLinked.toNat

/-- A handset with the number, and with the key if it has one, bears that the added key is put in
the slot: without a key it does not name the slot; its key is still held, and if it names the slot
then its key begins what is put there. -/
def Bears (held : ℕ → Option (List Byte)) (r : Request) (slot number : ℕ) :
    Option (List Byte) → Prop
  | some key => Stored held key ∧ (number = slot → readBytes r.accountKey 0 key.length = key)
  | none => number ≠ slot

/-- What the code does rightly.

* Every handset bears that the added key is put in its slot.
* A key that is there already is not linked for the 256th time while a handset names the first slot.
* The entry at the place of the first slot that begins with the key to associate is in use exactly
  if the key is held. -/
def Links.Permits (s : Links Handset) : LinkOp Handset → Prop
  | .add r =>
    (∀ slot ∈ putSlot s.info r, ∀ handset, Bears (s.heldAfter r) r slot
      (s.handsetAccountKeyIndex handset).toNat (s.associated handset)) ∧
    ∀ count ∈ (findDuplicate s.info r.accountKey r.accountKeyLen maxNumAccountKeys 0).2,
      (s.info.accountKeyIndex count).numHandsetsLinked = 255 →
        ∀ handset, s.handsetAccountKeyIndex handset ≠ 0
  | .associate k _ =>
    ∀ info ∈ s.properties, ∀ slot ∈ firstSlot info k.accountKey k.accountKeyLen,
      InUse info slot ↔ Stored s.held k.bytes
  | .deleteAll => True

/-! ## A key is added -/

section Put

variable {info : KeyInfo} {r : Request}

theorem inUse_of_isValid {i : ℕ} (h : (info.accountKeyIndex i).isValid = true) : InUse info i := by
  unfold KeyIndex.isValid at h
  rw [Bool.and_eq_true_iff, Bool.and_eq_true_iff, decide_eq_true_iff] at h
  exact h.1.1

/-- The entries that the search for a duplicate has passed are in use. -/
theorem inUse_of_findDuplicate (info : KeyInfo) (mem : ℕ → Byte) (len : ℕ) :
    ∀ fuel count, count + fuel = maxNumAccountKeys →
    (∀ i < count, InUse info i) →
    match findDuplicate info mem len fuel count with
    | (_, some slot) => slot < maxNumAccountKeys ∧ ∀ i ≤ slot, InUse info i
    | (numKeys, none) => numKeys ≤ maxNumAccountKeys ∧ ∀ i < numKeys, InUse info i
  | 0, count, hfuel, hprev => ⟨by omega, hprev⟩
  | fuel + 1, count, hfuel, hprev => by
    rw [findDuplicate]
    by_cases hvalid : (info.accountKeyIndex count).isValid = true
    · have hle : ∀ i ≤ count, InUse info i := by
        intro i hi
        rcases Nat.lt_or_eq_of_le hi with hlt | rfl
        · exact hprev i hlt
        · exact inUse_of_isValid hvalid
      rw [if_pos hvalid]
      by_cases hbegins : slotBegins info count mem len = true
      · rw [if_pos hbegins]
        exact ⟨by omega, hle⟩
      · rw [if_neg hbegins]
        exact inUse_of_findDuplicate info mem len fuel (count + 1) (by omega)
          fun i hi => hle i (Nat.le_of_lt_succ hi)
    · rw [if_neg hvalid]
      exact ⟨by omega, hprev⟩

/-- Every entry names a slot. -/
def NamesSlots (info : KeyInfo) : Prop :=
  ∀ i < maxNumAccountKeys, ∃ slot < maxNumAccountKeys,
    (info.accountKeyIndex i).accountKeyStartLoc.toNat = slot * maxUserAccountKeyLen

theorem namesSlots_cleared : NamesSlots .cleared := fun _ _ => ⟨0, by decide, rfl⟩

/-- The key is there already: the entry at the place of its slot moves to the front. -/
structure Again (info info' : KeyInfo) (count : ℕ) : Prop where
  keys : info'.accountKeys = info.accountKeys
  inUse : ∀ i, i ≠ 0 → (InUse info' i ↔ InUse info i)
  front : InUse info 0
  front' : InUse info' 0 ↔ (info.accountKeyIndex count).numHandsetsLinked ≠ 255
  names : NamesSlots info → NamesSlots info'

/-- The key is put in the slot, with what is behind it up to `n` bytes. Without the slot's number in
use before, that is the key alone. -/
structure Put (info info' : KeyInfo) (r : Request) (slot n : ℕ) : Prop where
  slot_lt : slot < maxNumAccountKeys
  le_n : r.accountKeyLen ≤ n
  n_le : n ≤ maxUserAccountKeyLen
  keys : info'.accountKeys =
    writeBytes info.accountKeys (slot * maxUserAccountKeyLen) r.accountKey n
  inUse : ∀ i < maxNumAccountKeys, InUse info' i ↔ InUse info i ∨ i = slot
  whole : InUse info slot → n = maxUserAccountKeyLen
  names : NamesSlots info'

theorem again_addDuplicate {count : ℕ} (hlt : count < maxNumAccountKeys)
    (h : ∀ i ≤ count, InUse info i) : Again info (addDuplicate info count).1 count where
  keys := Ordered.accountKeys_addDuplicate info count
  inUse := fun i hi => by
    unfold InUse
    rw [Ordered.entry_addDuplicate, if_neg hi]
    by_cases hle : i ≤ count
    · rw [if_pos hle]
      exact iff_of_true (h (i - 1) (by omega)) (h i hle)
    · rw [if_neg hle]
  front := h 0 (Nat.zero_le count)
  front' := by
    unfold InUse
    rw [Ordered.entry_addDuplicate, if_pos rfl]
    generalize (info.accountKeyIndex count).numHandsetsLinked = links
    dsimp only
    bv_omega
  names := fun hnames i hi => by
    rw [Ordered.entry_addDuplicate]
    by_cases hzero : i = 0
    · rw [if_pos hzero]
      exact hnames count hlt
    · rw [if_neg hzero]
      by_cases hle : i ≤ count
      · rw [if_pos hle]
        exact hnames (i - 1) (by omega)
      · rw [if_neg hle]
        exact hnames i hi

theorem put_of_room {numKeys : ℕ} (hlt : numKeys < maxNumAccountKeys)
    (h : ∀ i < numKeys, InUse info i)
    (hlinks : (info.accountKeyIndex numKeys).numHandsetsLinked = 0) (hnames : NamesSlots info) :
    Put info (addNew info numKeys r.accountKey r.accountKeyLen r.accountKeyType).1 r numKeys
      r.accountKeyLen := by
  have hfree : ¬ InUse info numKeys := by
    unfold InUse
    rw [hlinks]
    exact Nat.lt_irrefl 0
  have hentry (i : ℕ) : (addNew info numKeys r.accountKey r.accountKeyLen
      r.accountKeyType).1.accountKeyIndex i =
        if i = 0 then ⟨1, .ofNat 8 r.accountKeyType, .ofNat 8 r.accountKeyLen,
          .ofNat 8 (numKeys * maxUserAccountKeyLen)⟩
        else if i ≤ numKeys then info.accountKeyIndex (i - 1) else info.accountKeyIndex i := by
    unfold addNew
    rw [if_pos hlt, if_pos hlinks]
    dsimp only
    rw [setEntry_shiftEntries]
    by_cases hzero : i = 0
    · rw [if_pos hzero, if_pos hzero]
    · rw [if_neg hzero, if_neg hzero]
      unfold setEntry
      by_cases hle : i ≤ numKeys
      · rw [if_pos hle, if_pos hle, if_neg (by omega)]
      · rw [if_neg hle, if_neg hle, if_neg (by omega)]
  refine ⟨hlt, Nat.le_refl _, r.length_le, ?_, fun i hi => ?_, fun huse => (hfree huse).elim,
    fun i hi => ?_⟩
  · unfold addNew
    rw [if_pos hlt, if_pos hlinks]
  · unfold InUse
    rw [hentry]
    by_cases hzero : i = 0
    · rw [if_pos hzero]
      refine iff_of_true Nat.one_pos ?_
      by_cases hnum : i = numKeys
      · exact .inr hnum
      · exact .inl (h i (by omega))
    · rw [if_neg hzero]
      by_cases hle : i ≤ numKeys
      · rw [if_pos hle]
        refine iff_of_true (h (i - 1) (by omega)) ?_
        rcases Nat.lt_or_eq_of_le hle with hlt' | heq
        · exact .inl (h i hlt')
        · exact .inr heq
      · rw [if_neg hle]
        exact (or_iff_left (by omega)).symm
  · rw [hentry]
    by_cases hzero : i = 0
    · rw [if_pos hzero]
      exact ⟨numKeys, hlt, Ordered.toNat_startLoc hlt⟩
    · rw [if_neg hzero]
      by_cases hle : i ≤ numKeys
      · rw [if_pos hle]
        exact hnames (i - 1) (by omega)
      · rw [if_neg hle]
        exact hnames i hi

theorem put_of_full {slot : ℕ} (h : ∀ i < maxNumAccountKeys, InUse info i)
    (hslot : slot < maxNumAccountKeys)
    (hstart : (info.accountKeyIndex (maxNumAccountKeys - 1)).accountKeyStartLoc.toNat =
      slot * maxUserAccountKeyLen) (hnames : NamesSlots info) :
    Put info (addNew info maxNumAccountKeys r.accountKey r.accountKeyLen r.accountKeyType).1 r slot
      maxUserAccountKeyLen := by
  have hentry (i : ℕ) : (addNew info maxNumAccountKeys r.accountKey r.accountKeyLen
      r.accountKeyType).1.accountKeyIndex i =
        if i = 0 then info.accountKeyIndex (maxNumAccountKeys - 1)
        else if i ≤ maxNumAccountKeys - 1 then info.accountKeyIndex (i - 1)
        else info.accountKeyIndex i := by
    unfold addNew
    rw [if_neg (Nat.lt_irrefl _), if_pos rfl]
    exact setEntry_shiftEntries _ _ _ _
  have hlast : maxNumAccountKeys - 1 < maxNumAccountKeys := by decide
  refine ⟨hslot, r.length_le, Nat.le_refl _, ?_, fun i hi => ?_, fun _ => rfl, fun i hi => ?_⟩
  · unfold addNew
    rw [if_neg (Nat.lt_irrefl _), if_pos rfl, ← hstart]
  · unfold InUse
    rw [hentry]
    refine iff_of_true ?_ (.inl (h i hi))
    by_cases hzero : i = 0
    · rw [if_pos hzero]
      exact h _ hlast
    · rw [if_neg hzero, if_pos (Nat.le_sub_one_of_lt hi)]
      exact h (i - 1) (by omega)
  · rw [hentry]
    by_cases hzero : i = 0
    · rw [if_pos hzero]
      exact hnames _ hlast
    · rw [if_neg hzero, if_pos (Nat.le_sub_one_of_lt hi)]
      exact hnames (i - 1) (by omega)

/-- What becomes of a key that is added. -/
theorem outcome_cases (hnames : NamesSlots info) (r : Request) :
    (∃ count, (findDuplicate info r.accountKey r.accountKeyLen maxNumAccountKeys 0).2 = some count ∧
      putSlot info r = none ∧ Again info (outcome info r).1 count) ∨
    (∃ slot n, (findDuplicate info r.accountKey r.accountKeyLen maxNumAccountKeys 0).2 = none ∧
      putSlot info r = some slot ∧ Put info (outcome info r).1 r slot n) ∨
    ((findDuplicate info r.accountKey r.accountKeyLen maxNumAccountKeys 0).2 = none ∧
      putSlot info r = none ∧ (outcome info r).1 = info) := by
  have hpassed := inUse_of_findDuplicate info r.accountKey r.accountKeyLen maxNumAccountKeys 0
    (Nat.zero_add _) fun i hi => by cases hi
  unfold putSlot outcome
  generalize findDuplicate info r.accountKey r.accountKeyLen maxNumAccountKeys 0 = found
    at hpassed ⊢
  rcases found with ⟨numKeys, _ | count⟩
  · dsimp only at hpassed ⊢
    obtain ⟨hle, huse⟩ := hpassed
    rcases Nat.lt_or_eq_of_le hle with hlt | rfl
    · rw [if_pos hlt]
      by_cases hlinks : (info.accountKeyIndex numKeys).numHandsetsLinked = 0
      · rw [if_pos hlinks]
        exact .inr (.inl ⟨numKeys, _, rfl, rfl, put_of_room hlt huse hlinks hnames⟩)
      · rw [if_neg hlinks]
        refine .inr (.inr ⟨rfl, rfl, ?_⟩)
        unfold addNew
        rw [if_pos hlt, if_neg hlinks]
    · rw [if_neg (Nat.lt_irrefl _)]
      obtain ⟨slot, hslot, hstart⟩ := hnames (maxNumAccountKeys - 1) (by decide)
      refine .inr (.inl ⟨slot, _, rfl, ?_, put_of_full huse hslot hstart hnames⟩)
      rw [hstart, Nat.mul_div_cancel _ (by decide)]
  · exact .inl ⟨count, rfl, rfl, again_addDuplicate hpassed.1 hpassed.2⟩

/-- Bytes of another slot. -/
theorem Put.readBytes_of_ne {info' : KeyInfo} {slot n i len : ℕ} (h : Put info info' r slot n)
    (hne : i ≠ slot) (hlen : len ≤ maxUserAccountKeyLen) :
    readBytes info'.accountKeys (i * maxUserAccountKeyLen) len =
      readBytes info.accountKeys (i * maxUserAccountKeyLen) len := by
  have hn := h.n_le
  rw [h.keys]
  refine readBytes_writeBytes_of_disjoint ?_
  unfold maxUserAccountKeyLen at *
  omega

/-- Bytes of the key itself. -/
theorem Put.readBytes_self {info' : KeyInfo} {slot n len : ℕ} (h : Put info info' r slot n)
    (hlen : len ≤ n) :
    readBytes info'.accountKeys (slot * maxUserAccountKeyLen) len =
      readBytes r.accountKey 0 len := by
  apply List.ext_getElem?
  intro i
  rw [getElem?_readBytes, getElem?_readBytes, h.keys]
  by_cases hi : i < len
  · rw [if_pos hi, if_pos hi, writeBytes, if_pos (by omega), Nat.zero_add, Nat.add_sub_cancel_left]
  · rw [if_neg hi, if_neg hi]

end Put

/-! ## One handset -/

/-- What a handset with the number gets is right. -/
def RightAt (info : KeyInfo) (number : ℕ) : Option (List Byte) → Prop
  | some key => (number < maxNumAccountKeys ∧ InUse info number) ∧
      readBytes info.accountKeys (number * maxUserAccountKeyLen) key.length = key
  | none => ¬ (number < maxNumAccountKeys ∧ InUse info number)

section Handset

variable {info info' : KeyInfo} {number slot n count : ℕ} {r : Request}
  {associated : Option (List Byte)}

theorem rightAt_again (h : Again info info' count) (hright : RightAt info number associated) :
    RightAt info' number associated ↔
      ((info.accountKeyIndex count).numHandsetsLinked = 255 → number ≠ 0) := by
  by_cases hzero : number = 0
  · subst hzero
    cases associated with
    | none => exact (hright ⟨by decide, h.front⟩).elim
    | some key =>
      unfold RightAt at hright ⊢
      dsimp only at hright ⊢
      rw [h.keys, h.front', and_iff_left hright.2, and_iff_right hright.1.1]
      exact ⟨fun hne heq => absurd heq hne, fun himp heq => himp heq rfl⟩
  · refine iff_of_true ?_ fun _ => hzero
    cases associated with
    | none =>
      unfold RightAt at hright ⊢
      rwa [h.inUse number hzero]
    | some key =>
      unfold RightAt at hright ⊢
      rwa [h.inUse number hzero, h.keys]

theorem filter_stored (held : ℕ → Option (List Byte)) (key : List Byte) :
    Option.filter (fun key => decide (Stored held key)) (some key) =
      if Stored held key then some key else none := by
  rw [filter_some]
  exact if_congr decide_eq_true_iff rfl rfl

theorem rightAt_put (h : Put info info' r slot n) (held : ℕ → Option (List Byte))
    (hlen : ∀ key ∈ associated, key.length ≤ maxUserAccountKeyLen)
    (hright : RightAt info number associated) :
    RightAt info' number (associated.filter fun key => Stored held key) ↔
      Bears held r slot number associated := by
  cases associated with
  | none =>
    unfold RightAt at hright ⊢
    unfold Bears
    dsimp only [Option.filter] at hright ⊢
    by_cases hlt : number < maxNumAccountKeys
    · rw [and_iff_right hlt] at hright
      rw [and_iff_right hlt, h.inUse number hlt, or_iff_right hright]
    · refine iff_of_true (fun huse => hlt huse.1) ?_
      rintro rfl
      exact hlt h.slot_lt
  | some key =>
    obtain ⟨⟨hlt, huse⟩, hread⟩ := hright
    have huse' : InUse info' number := (h.inUse number hlt).mpr (.inl huse)
    unfold Bears
    dsimp only
    by_cases hstored : Stored held key
    · rw [filter_stored, if_pos hstored, and_iff_right hstored]
      unfold RightAt
      dsimp only
      rw [and_iff_right ⟨hlt, huse'⟩]
      by_cases hslot : number = slot
      · subst hslot
        have hn : key.length ≤ n := (h.whole huse).symm ▸ hlen key rfl
        rw [h.readBytes_self hn]
        exact ⟨fun heq _ => heq, fun himp => himp rfl⟩
      · rw [h.readBytes_of_ne hslot (hlen key rfl), hread]
        exact iff_of_true rfl fun heq => absurd heq hslot
    · rw [filter_stored, if_neg hstored]
      exact iff_of_false (fun hnone => hnone ⟨hlt, huse'⟩) fun hboth => hstored hboth.1

end Handset

/-! ## Steps -/

namespace Links

variable {s s' : Links Handset} {r : Request}

theorem getAccountKeyWithHandset_eq (s : Links Handset) (len : ℕ) (handset : Handset) :
    getAccountKeyWithHandset s.properties s.handsetAccountKeyIndex len handset =
      let number := (s.handsetAccountKeyIndex handset).toNat
      if number < maxNumAccountKeys then
        if 0 < (s.info.accountKeyIndex number).numHandsetsLinked.toNat then
          some (readBytes s.info.accountKeys (number * maxUserAccountKeyLen) len)
        else none
      else none := by
  unfold getAccountKeyWithHandset info
  cases s.properties with
  | some info => rfl
  | none => rfl

theorem right_iff (s : Links Handset) : s.Right ↔
    ∀ handset, RightAt s.info (s.handsetAccountKeyIndex handset).toNat (s.associated handset) := by
  refine forall_congr' fun handset => ?_
  simp only [getAccountKeyWithHandset_eq]
  unfold RightAt InUse
  cases s.associated handset with
  | some key =>
    dsimp only
    split_ifs with hlt huse
    · rw [some.injEq, and_iff_right ⟨hlt, huse⟩]
    · exact iff_of_false (by simp) fun h => huse h.1.2
    · exact iff_of_false (by simp) fun h => hlt h.1.1
  | none =>
    dsimp only
    split_ifs with hlt huse
    · exact iff_of_false (fun h => by cases h 0) fun h => h ⟨hlt, huse⟩
    · exact iff_of_true (fun _ => rfl) fun h => huse h.2
    · exact iff_of_true (fun _ => rfl) fun h => hlt h.1

/-- What every run keeps. -/
structure Inv (s : Links Handset) : Prop where
  names : NamesSlots s.info
  /-- A slot begins with the key it holds. -/
  held : ∀ slot < maxNumAccountKeys, ∀ key ∈ s.held slot, key.length ≤ maxUserAccountKeyLen ∧
    readBytes s.info.accountKeys (slot * maxUserAccountKeyLen) key.length = key
  stored : ∀ handset, ∀ key ∈ s.associated handset, Stored s.held key

theorem inv_init : (init : Links Handset).Inv where
  names := namesSlots_cleared
  held := fun slot _ key h => by cases h
  stored := fun handset key h => by cases h

theorem right_init : (init : Links Handset).Right := fun _ _ => rfl

theorem heldAfter_of_none (h : putSlot s.info r = none) : s.heldAfter r = s.held := by
  unfold heldAfter
  rw [h]

theorem heldAfter_of_some {slot : ℕ} (h : putSlot s.info r = some slot) :
    s.heldAfter r = update s.held slot (some r.bytes) := by
  unfold heldAfter
  rw [h]

theorem Inv.length_le (h : s.Inv) {key : List Byte} (hstored : Stored s.held key) :
    key.length ≤ maxUserAccountKeyLen := by
  obtain ⟨slot, hslot, hkey⟩ := hstored
  exact (h.held slot hslot key hkey).1

theorem firstSlot_eq_some {info : KeyInfo} {mem : ℕ → Byte} {len slot : ℕ}
    (h : firstSlot info mem len = some slot) :
    slot < maxNumAccountKeys ∧
      readBytes info.accountKeys (slot * maxUserAccountKeyLen) len = readBytes mem 0 len :=
  ⟨List.mem_range.mp (List.mem_of_find?_eq_some h), by simpa [slotBegins] using List.find?_some h⟩

variable [DecidableEq Handset]

/-- What an association does. -/
theorem step_associate_cases {k : HandsetKey} {handset : Handset}
    (h : s.step (.associate k handset) = some s') :
    (∃ info slot, s.properties = some info ∧
      firstSlot info k.accountKey k.accountKeyLen = some slot ∧
      s' = { s with
        handsetAccountKeyIndex := update s.handsetAccountKeyIndex handset (.ofNat 8 slot)
        associated := update s.associated handset
          (if Stored s.held k.bytes then some k.bytes else none) }) ∨
    ((∀ info ∈ s.properties, firstSlot info k.accountKey k.accountKeyLen = none) ∧ s' = s) := by
  unfold step associateAccountKeyWithHandset at h
  cases hprop : s.properties with
  | none =>
    rw [hprop] at h
    refine .inr ⟨fun info hinfo => (by cases hinfo), ?_⟩
    rw [← some.inj h, ← hprop]
    rfl
  | some info =>
    rw [hprop] at h
    dsimp only at h
    cases hslot : firstSlot info k.accountKey k.accountKeyLen with
    | none =>
      rw [hslot] at h
      refine .inr ⟨fun info' hinfo => by rwa [← some.inj hinfo], ?_⟩
      rw [← some.inj h, ← hprop]
      rfl
    | some slot =>
      rw [hslot] at h
      refine .inl ⟨info, slot, rfl, hslot, ?_⟩
      rw [← some.inj h, ← hprop]
      rfl

/-- What an addition does. -/
theorem step_add_spec (h : s.step (.add r) = some s') :
    s'.info = (outcome s.info r).1 ∧ s'.handsetAccountKeyIndex = s.handsetAccountKeyIndex ∧
      s'.held = s.heldAfter r ∧
      s'.associated = fun handset =>
        (s.associated handset).filter fun key => Stored (s.heldAfter r) key := by
  have hadd := addAccountKey_eq ⟨s.properties, [], none⟩ r
  obtain rfl := some.inj h
  refine ⟨?_, rfl, rfl, rfl⟩
  unfold info
  dsimp only
  rw [hadd]
  rfl

/-- What the deletion does. -/
theorem step_deleteAll_spec (h : s.step .deleteAll = some s') :
    s'.info = .cleared ∧ (∀ slot, s'.held slot = none) ∧
      ∀ handset, s'.associated handset = none := by
  obtain rfl := some.inj h
  refine ⟨?_, fun _ => rfl, fun _ => rfl⟩
  unfold info deleteAllAccountKeys
  cases s.properties <;> rfl

theorem inv_step (hinv : s.Inv) {op : LinkOp Handset} (hstep : s.step op = some s') : s'.Inv := by
  cases op with
  | deleteAll =>
    obtain ⟨hinfo, hheld, hassociated⟩ := step_deleteAll_spec hstep
    refine ⟨hinfo ▸ namesSlots_cleared, fun slot _ key hkey => ?_, fun handset key hkey => ?_⟩
    · rw [hheld] at hkey
      cases hkey
    · rw [hassociated] at hkey
      cases hkey
  | associate k handset =>
    rcases step_associate_cases hstep with ⟨info, slot, hprop, hslot, rfl⟩ | ⟨-, rfl⟩
    · refine ⟨hinv.names, hinv.held, fun other key hkey => ?_⟩
      dsimp only at hkey
      by_cases heq : other = handset
      · subst heq
        rw [update_self] at hkey
        split_ifs at hkey with hstored
        · exact some.inj hkey ▸ hstored
        · cases hkey
      · rw [update_of_ne heq] at hkey
        exact hinv.stored other key hkey
    · exact hinv
  | add r =>
    obtain ⟨hinfo, -, hheld, hassociated⟩ := step_add_spec hstep
    have hstored : ∀ handset, ∀ key ∈ s'.associated handset, Stored s'.held key := by
      intro handset key hkey
      rw [hassociated] at hkey
      rw [hheld]
      exact of_decide_eq_true (mem_filter_iff.mp hkey).2
    rcases outcome_cases hinv.names r with
      ⟨_, -, hnone, hagain⟩ | ⟨slot, n, -, hslot, hput⟩ | ⟨-, hnone, hsame⟩
    · refine ⟨hinfo ▸ hagain.names hinv.names, fun i hi key hkey => ?_, hstored⟩
      rw [hheld, heldAfter_of_none hnone] at hkey
      rw [hinfo, hagain.keys]
      exact hinv.held i hi key hkey
    · refine ⟨hinfo ▸ hput.names, fun i hi key hkey => ?_, hstored⟩
      rw [hheld, heldAfter_of_some hslot] at hkey
      rw [hinfo]
      by_cases heq : i = slot
      · subst heq
        rw [update_self] at hkey
        obtain rfl := some.inj hkey
        rw [r.length_bytes]
        exact ⟨r.length_le, hput.readBytes_self hput.le_n⟩
      · rw [update_of_ne heq] at hkey
        obtain ⟨hlen, hread⟩ := hinv.held i hi key hkey
        exact ⟨hlen, (hput.readBytes_of_ne heq hlen).trans hread⟩
    · refine ⟨(hinfo.trans hsame) ▸ hinv.names, fun i hi key hkey => ?_, hstored⟩
      rw [hheld, heldAfter_of_none hnone] at hkey
      rw [hinfo, hsame]
      exact hinv.held i hi key hkey

theorem associate_iff (k : HandsetKey) {info : KeyInfo} {slot : ℕ} (held : ℕ → Option (List Byte))
    (hslot : firstSlot info k.accountKey k.accountKeyLen = some slot) :
    RightAt info (BitVec.ofNat 8 slot).toNat (if Stored held k.bytes then some k.bytes else none) ↔
      (InUse info slot ↔ Stored held k.bytes) := by
  obtain ⟨hlt, hbegins⟩ := firstSlot_eq_some hslot
  have hnum : (BitVec.ofNat 8 slot).toNat = slot := by
    unfold maxNumAccountKeys at hlt
    rw [BitVec.toNat_ofNat, Nat.mod_eq_of_lt (by omega)]
  have hread : readBytes info.accountKeys (slot * maxUserAccountKeyLen) k.bytes.length =
      k.bytes := by
    rw [HandsetKey.bytes, length_readBytes]
    exact hbegins
  rw [hnum]
  by_cases hstored : Stored held k.bytes
  · rw [if_pos hstored, iff_true_right hstored]
    exact ⟨fun h => h.1.2, fun huse => ⟨⟨hlt, huse⟩, hread⟩⟩
  · rw [if_neg hstored, iff_false_right hstored]
    exact ⟨fun h huse => h ⟨hlt, huse⟩, fun h huse => h huse.2⟩

/-- **One operation.** From a state with all handsets right, an operation keeps them right exactly
when it is permitted. -/
theorem permits_iff_right (hinv : s.Inv) (hright : s.Right) {op : LinkOp Handset}
    (hstep : s.step op = some s') : s.Permits op ↔ s'.Right := by
  rw [right_iff] at hright ⊢
  cases op with
  | deleteAll =>
    obtain ⟨hinfo, -, hassociated⟩ := step_deleteAll_spec hstep
    refine iff_of_true trivial fun handset => ?_
    rw [hinfo, hassociated]
    exact fun huse => Nat.lt_irrefl 0 huse.2
  | associate k handset =>
    unfold Permits
    dsimp only
    rcases step_associate_cases hstep with ⟨info, slot, hprop, hslot, rfl⟩ | ⟨hnone, rfl⟩
    · have hinfo : s.info = info := by rw [Links.info, hprop]; rfl
      have hthis := associate_iff k s.held hslot
      change _ ↔ ∀ other, RightAt s.info
        (BitVec.toNat (update s.handsetAccountKeyIndex handset (.ofNat 8 slot) other))
        (update s.associated handset
          (if Stored s.held k.bytes then some k.bytes else none) other)
      constructor
      · intro h other
        by_cases heq : other = handset
        · subst heq
          rw [update_self, update_self, hinfo]
          exact hthis.mpr (h info hprop slot hslot)
        · rw [update_of_ne heq, update_of_ne heq]
          exact hright other
      · intro h info' hinfo' slot' hslot'
        obtain rfl : info = info' := some.inj (hprop.symm.trans hinfo')
        obtain rfl : slot = slot' := some.inj (hslot.symm.trans hslot')
        have hhandset := h handset
        rw [update_self, update_self, hinfo] at hhandset
        exact hthis.mp hhandset
    · refine iff_of_true (fun info hinfo slot hslot => ?_) hright
      rw [hnone info hinfo] at hslot
      cases hslot
  | add r =>
    obtain ⟨hinfo, hindex, -, hassociated⟩ := step_add_spec hstep
    have hkept (hnone : putSlot s.info r = none) (handset : Handset) :
        s'.associated handset = s.associated handset := by
      rw [hassociated, heldAfter_of_none hnone]
      cases hkey : s.associated handset with
      | none =>
        dsimp only
        rw [hkey]
        rfl
      | some key =>
        dsimp only
        rw [hkey, filter_stored, if_pos (hinv.stored handset key hkey)]
    unfold Permits
    dsimp only
    rcases outcome_cases hinv.names r with
      ⟨count, hfind, hnone, hagain⟩ | ⟨slot, n, hfind, hslot, hput⟩ | ⟨hfind, hnone, hsame⟩
    · rw [hnone, hfind]
      have hone (handset : Handset) := rightAt_again hagain (hright handset)
      constructor
      · rintro ⟨-, h⟩ handset
        rw [hinfo, hindex, hkept hnone]
        refine (hone handset).mpr fun hlinks hzero => h count rfl hlinks handset ?_
        exact BitVec.eq_of_toNat_eq hzero
      · refine fun h => ⟨fun slot hslot => (by cases hslot), fun i hi hlinks handset hzero => ?_⟩
        obtain rfl := some.inj hi
        have hhandset := h handset
        rw [hinfo, hindex, hkept hnone] at hhandset
        exact (hone handset).mp hhandset hlinks (congrArg BitVec.toNat hzero)
    · rw [hslot, hfind]
      have hone (handset : Handset) := rightAt_put hput (s.heldAfter r)
        (fun key hkey => hinv.length_le (hinv.stored handset key hkey)) (hright handset)
      constructor
      · rintro ⟨h, -⟩ handset
        rw [hinfo, hindex, hassociated]
        exact (hone handset).mpr (h slot rfl handset)
      · refine fun h => ⟨fun i hi handset => ?_, fun i hi => by cases hi⟩
        obtain rfl := some.inj hi
        have hhandset := h handset
        rw [hinfo, hindex, hassociated] at hhandset
        exact (hone handset).mp hhandset
    · rw [hnone, hfind]
      refine iff_of_true ⟨fun slot hslot => (by cases hslot), fun i hi => (by cases hi)⟩
        fun handset => ?_
      rw [hinfo, hindex, hkept hnone, hsame]
      exact hright handset

theorem exists_run (s : Links Handset) (ops : List (LinkOp Handset)) :
    ∃ s', run step s ops = some s' := by
  induction ops generalizing s with
  | nil => exact ⟨s, rfl⟩
  | cons op ops ih =>
    cases op with
    | add r | associate k handset | deleteAll => exact ih _

/-- **The account keys of handsets.** After every operation of a run each handset gets the key it is
associated with, and none once that key is gone, exactly when every operation is permitted. -/
theorem associated_right_iff (ops : List (LinkOp Handset)) :
    Throughout step Right init ops ↔ Meets step Permits init ops := by
  obtain ⟨s', hrun⟩ := exists_run init ops
  exact throughout_iff_meets (fun _ _ _ hinv hstep => inv_step hinv hstep)
    (fun _ _ _ hinv hright hstep => permits_iff_right hinv hright hstep) inv_init right_init hrun

end Links

def sampleKey (b : Byte) : HandsetKey where
  accountKey := (sampleRequest b).accountKey
  accountKeyLen := 16
  length_le := Nat.le_refl 16

/-- A handset is associated with a key, all keys are deleted, and the next key goes into the slot
that the handset still names. -/
theorem not_associated_right :
    (run Links.step Links.init [.add (sampleRequest 1), .associate (sampleKey 1) (0 : ℕ),
      .deleteAll, .add (sampleRequest 2)]).map (fun s => (s.associated 0,
        getAccountKeyWithHandset s.properties s.handsetAccountKeyIndex 16 0)) =
        some (none, some (sampleKey 2).bytes) ∧
      ¬ Throughout Links.step Links.Right Links.init [.add (sampleRequest 1),
        .associate (sampleKey 1) (0 : ℕ), .deleteAll, .add (sampleRequest 2)] := by
  have heval : (run Links.step Links.init [.add (sampleRequest 1), .associate (sampleKey 1) (0 : ℕ),
      .deleteAll, .add (sampleRequest 2)]).map (fun s => (s.associated 0,
        getAccountKeyWithHandset s.properties s.handsetAccountKeyIndex 16 0)) =
        some (none, some (sampleKey 2).bytes) := by
    decide +kernel
  refine ⟨heval, fun h => ?_⟩
  obtain ⟨s, hrun, hs⟩ := Option.map_eq_some_iff.mp heval
  obtain ⟨hnone, hget⟩ := Prod.mk.inj hs
  have hright := h _ s List.prefix_rfl hrun 0
  rw [hnone] at hright
  rw [hright 16] at hget
  cases hget

end Mh40.UserAccounts
