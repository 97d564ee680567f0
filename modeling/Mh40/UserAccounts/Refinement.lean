import Mh40.UserAccounts.AccountKeys
import Mh40.Lib.Run
import Mathlib.Tactic.IntervalCases

/-!
# The account keys and the list of accounts

* `Represents`: the properties of the device hold the accounts.
* `Ordered`: keys of one type, each in the slot of its turn. `Ordered.represents` is why such
  properties hold their accounts.
* `shaped_step`, `fits_of_refines`: from such properties, a step keeps to the list of accounts
  exactly when it `Fits`.
* `refines_iff`: so does a run.
-/

namespace Mh40.UserAccounts

open Lib List
open Option hiding or_self

/-- `UserAccounts_AddAccountKey` is called with a valid key. -/
structure Request where
  accountKey : ℕ → Byte
  accountKeyLen : ℕ
  accountKeyType : ℕ
  valid : isValidKey accountKey accountKeyLen accountKeyType = true
  type_lt : accountKeyType < 2 ^ 16

/-- The key itself. -/
def Request.bytes (r : Request) : List Byte := readBytes r.accountKey 0 r.accountKeyLen

inductive Op
  | add (request : Request)
  | deleteAll

/-- The properties of the device, the accounts they should hold, and the index that was returned
for the key just added. -/
structure State where
  properties : Option KeyInfo
  accounts : List Account
  added : Option ℕ

def State.init : State := ⟨none, [], none⟩

/-- The entries and the slots, all clear where there are none. -/
def State.info (s : State) : KeyInfo := s.properties.getD .cleared

def step (s : State) : Op → Option State
  | .add r =>
    let (properties, added) :=
      addAccountKey s.properties r.accountKey r.accountKeyLen r.accountKeyType
    some ⟨properties, addAccount s.accounts r.bytes r.accountKeyType, some added⟩
  | .deleteAll => some ⟨(deleteAllAccountKeys s.properties).1, [], none⟩

/-- The properties hold the accounts, from the most recently used one on. -/
structure Represents (s : State) : Prop where
  length_le : s.accounts.length ≤ maxNumAccountKeys
  /-- The entries in use are a prefix. -/
  in_use : ∀ i < maxNumAccountKeys,
    0 < (s.info.accountKeyIndex i).numHandsetsLinked.toNat ↔ i < s.accounts.length
  slot : ∀ i < s.accounts.length, ∃ slot < maxNumAccountKeys,
    (s.info.accountKeyIndex i).accountKeyStartLoc.toNat = slot * maxUserAccountKeyLen
  distinct : ∀ i < s.accounts.length, ∀ j < s.accounts.length,
    (s.info.accountKeyIndex i).accountKeyStartLoc = (s.info.accountKeyIndex j).accountKeyStartLoc →
      i = j
  /-- An entry belongs to the key in its slot. -/
  entry : ∀ i x, s.accounts[i]? = some x →
    (s.info.accountKeyIndex i).numHandsetsLinked.toNat = x.links ∧
    (s.info.accountKeyIndex i).accountKeyType.toNat ∈ x.types ∧
    (s.info.accountKeyIndex i).accountKeyLen.toNat = x.key.length ∧
    readBytes s.info.accountKeys (s.info.accountKeyIndex i).accountKeyStartLoc.toNat x.key.length =
      x.key
  /-- No key is there twice. -/
  nodup : (s.accounts.map Account.key).Nodup
  /-- The keys that were added with a type are returned for it. -/
  get_keys : ∀ type, (getAccountKeys s.properties type).Perm
    ((s.accounts.filter fun x => decide (type ∈ x.types)).map fun x => padded x.key)

/-- The properties hold the accounts, and the returned index is that of the slot of the key just
added, which is the first one of the list. -/
structure Refines (s : State) : Prop where
  represents : Represents s
  added : ∀ slot ∈ s.added,
    (s.info.accountKeyIndex 0).accountKeyStartLoc.toNat = slot * maxUserAccountKeyLen

/-- What the code does rightly: the first key of a list; a key of the one type when the list has
room and no slot in use begins with its bytes; the only key of a list again. -/
def Fits (s : State) : Op → Prop
  | .deleteAll => True
  | .add r =>
    if s.accounts = [] then r.accountKeyType < 2 ^ 8
    else
      (∀ x ∈ s.accounts, ∀ type ∈ x.types, type = userAccountTypeFastPair) ∧
        r.accountKeyType = userAccountTypeFastPair ∧
        ((s.accounts.length < maxNumAccountKeys ∧ ∀ slot < s.accounts.length,
            slotBegins s.info slot r.accountKey r.accountKeyLen = false) ∨
          ∃ x, s.accounts = [x] ∧ x.key = r.bytes ∧ x.links < 255)

/-! ## Bytes and entries -/

section Bytes

variable {mem src : ℕ → Byte} {start len n at' : ℕ}

@[simp]
theorem length_readBytes : (readBytes mem start len).length = len := by
  rw [readBytes, length_map, length_range]

theorem getElem?_readBytes (i : ℕ) :
    (readBytes mem start len)[i]? = if i < len then some (mem (start + i)) else none := by
  unfold readBytes
  rw [getElem?_map]
  by_cases h : i < len
  · rw [if_pos h, getElem?_range h]
    rfl
  · rw [if_neg h, getElem?_eq_none (by rw [length_range]; omega)]
    rfl

theorem take_readBytes (h : n ≤ len) : (readBytes mem start len).take n = readBytes mem start n := by
  apply ext_getElem?
  intro i
  rw [getElem?_take, getElem?_readBytes, getElem?_readBytes]
  split_ifs <;> first | rfl | omega

/-- Bytes that the write does not reach. -/
theorem readBytes_writeBytes_of_disjoint (h : start + len ≤ at' ∨ at' + n ≤ start) :
    readBytes (writeBytes mem at' src n) start len = readBytes mem start len := by
  apply ext_getElem?
  intro i
  rw [getElem?_readBytes, getElem?_readBytes]
  by_cases hi : i < len
  · rw [if_pos hi, if_pos hi, writeBytes, if_neg (by omega)]
  · rw [if_neg hi, if_neg hi]

theorem take_padded (key : List Byte) : (padded key).take key.length = key :=
  take_left

/-- A key that is written where there are zeros. -/
theorem readBytes_writeBytes_padded (hlen : len ≤ maxUserAccountKeyLen)
    (hzero : ∀ i < maxUserAccountKeyLen, mem (start + i) = 0) :
    readBytes (writeBytes mem start src len) start maxUserAccountKeyLen =
      padded (readBytes src 0 len) := by
  apply ext_getElem?
  intro i
  rw [getElem?_readBytes, padded, length_readBytes]
  by_cases hi : i < len
  · rw [if_pos (by omega), getElem?_append_left (by rwa [length_readBytes]),
      getElem?_readBytes, if_pos hi, writeBytes, if_pos (by omega), Nat.zero_add,
      Nat.add_sub_cancel_left]
  · rw [getElem?_append_right (by rw [length_readBytes]; omega), length_readBytes,
      getElem?_replicate]
    by_cases h16 : i < maxUserAccountKeyLen
    · rw [if_pos h16, if_pos (by omega), writeBytes, if_neg (by omega), hzero i h16]
    · rw [if_neg h16, if_neg (by omega)]

end Bytes

theorem shiftEntries_apply (index : ℕ → KeyIndex) (count i : ℕ) :
    shiftEntries index count i = if 0 < i ∧ i ≤ count then index (i - 1) else index i := by
  induction count generalizing index with
  | zero => rw [if_neg (by omega)]; rfl
  | succ count ih =>
    rw [shiftEntries, ih]
    unfold setEntry
    by_cases hi : 0 < i ∧ i ≤ count
    · have hne : i - 1 ≠ count + 1 := by omega
      rw [if_pos hi, if_neg hne, if_pos ⟨hi.1, hi.2.trans (Nat.le_succ count)⟩]
    · rw [if_neg hi]
      by_cases heq : i = count + 1
      · rw [if_pos heq, if_pos (by omega), heq, Nat.add_sub_cancel]
      · rw [if_neg heq, if_neg (by omega)]

/-- The entries after one of them has been moved to the front of those before `count`. -/
theorem setEntry_shiftEntries (index : ℕ → KeyIndex) (entry : KeyIndex) (count i : ℕ) :
    setEntry (shiftEntries index count) 0 entry i =
      if i = 0 then entry else if i ≤ count then index (i - 1) else index i := by
  unfold setEntry
  by_cases hi : i = 0
  · rw [if_pos hi, if_pos hi]
  · rw [if_neg hi, if_neg hi, shiftEntries_apply]
    by_cases hc : i ≤ count
    · rw [if_pos (by omega), if_pos hc]
    · rw [if_neg (by omega), if_neg hc]

/-! ## Keys of one type, in the order of their turns -/

/-- Keys of one type: the newest one first in the index, the oldest one, the owner's, in the first
slot. -/
structure Ordered (info : KeyInfo) (accounts : List Account) (type : ℕ) : Prop where
  length_le : accounts.length ≤ maxNumAccountKeys
  entry : ∀ i x, accounts[i]? = some x →
    (info.accountKeyIndex i).numHandsetsLinked.toNat = x.links ∧
    (info.accountKeyIndex i).accountKeyType.toNat = type ∧
    (info.accountKeyIndex i).accountKeyLen.toNat = x.key.length ∧
    (info.accountKeyIndex i).accountKeyStartLoc.toNat =
      (accounts.length - 1 - i) * maxUserAccountKeyLen ∧
    readBytes info.accountKeys ((accounts.length - 1 - i) * maxUserAccountKeyLen)
      maxUserAccountKeyLen = padded x.key
  unused : ∀ i, accounts.length ≤ i → i < maxNumAccountKeys →
    (info.accountKeyIndex i).numHandsetsLinked = 0
  free : ∀ i, accounts.length * maxUserAccountKeyLen ≤ i →
    i < maxNumAccountKeys * maxUserAccountKeyLen → info.accountKeys i = 0
  account : ∀ x ∈ accounts, 0 < x.links ∧ 0 < x.key.length ∧ x.key.length ≤ maxUserAccountKeyLen ∧
    ∀ t, t ∈ x.types ↔ t = type
  fast_pair : 2 ≤ accounts.length → type = userAccountTypeFastPair
  owner : ∀ i x, accounts[i]? = some x → (x.owner = true ↔ i + 1 = accounts.length)
  nodup : (accounts.map Account.key).Nodup

theorem ordered_cleared (type : ℕ) : Ordered .cleared [] type where
  length_le := Nat.zero_le _
  entry := fun i x hx => by cases hx
  unused := fun _ _ _ => rfl
  free := fun _ _ _ => rfl
  account := fun x hx => by cases hx
  fast_pair := fun h => by cases h
  owner := fun i x hx => by cases hx
  nodup := nodup_nil

namespace Ordered

variable {info : KeyInfo} {accounts : List Account} {type : ℕ} {s : State} {r : Request} {i : ℕ}

section

variable (h : Ordered info accounts type)
include h

theorem in_use_iff (hi : i < maxNumAccountKeys) :
    0 < (info.accountKeyIndex i).numHandsetsLinked.toNat ↔ i < accounts.length := by
  constructor
  · intro hpos
    by_contra hle
    rw [h.unused i (Nat.not_lt.mp hle) hi] at hpos
    cases hpos
  · intro hlt
    rw [(h.entry i _ (getElem?_eq_getElem hlt)).1]
    exact (h.account _ (getElem_mem hlt)).1

/-- The entries of the type are those in use. -/
theorem filter_entries (t : ℕ) :
    ((List.range maxNumAccountKeys).filter fun count =>
      decide (0 < (info.accountKeyIndex count).numHandsetsLinked.toNat) &&
        decide ((info.accountKeyIndex count).accountKeyType.toNat = t)) =
      if t = type then List.range accounts.length else [] := by
  have hrange : (List.range maxNumAccountKeys).filter (fun count => decide (count < accounts.length)) =
      List.range accounts.length := by
    have hle := h.length_le
    generalize accounts.length = n at hle ⊢
    unfold maxNumAccountKeys at hle ⊢
    interval_cases n <;> rfl
  by_cases ht : t = type
  · rw [if_pos ht, ← hrange]
    apply filter_congr
    intro i hi
    have hi := mem_range.mp hi
    by_cases hlt : i < accounts.length
    · have htype := (h.entry i _ (getElem?_eq_getElem hlt)).2.1
      rw [decide_eq_true ((h.in_use_iff hi).mpr hlt), htype, decide_eq_true ht.symm,
        decide_eq_true hlt]
      rfl
    · rw [decide_eq_false (mt (h.in_use_iff hi).mp hlt), decide_eq_false hlt]
      rfl
  · rw [if_neg ht, filter_eq_nil_iff]
    intro i hi hboth
    obtain ⟨hpos, htype⟩ := Bool.and_eq_true_iff.mp hboth
    have hlt := (h.in_use_iff (mem_range.mp hi)).mp (of_decide_eq_true hpos)
    exact ht ((of_decide_eq_true htype).symm.trans
      (h.entry i _ (getElem?_eq_getElem hlt)).2.1)

/-- The slots in use, from the first one on. -/
theorem map_slots :
    (List.range accounts.length).map (fun count =>
      readBytes info.accountKeys (count * maxUserAccountKeyLen) maxUserAccountKeyLen) =
      (accounts.map fun x => padded x.key).reverse := by
  apply ext_getElem?
  intro i
  rw [getElem?_map]
  by_cases hi : i < accounts.length
  · have hslot : accounts.length - 1 - (accounts.length - 1 - i) = i := by omega
    have hlt : accounts.length - 1 - i < accounts.length := by omega
    have hx := (h.entry _ _ (getElem?_eq_getElem hlt)).2.2.2.2
    rw [getElem?_range hi, getElem?_reverse (by rwa [length_map]), length_map,
      getElem?_map, getElem?_eq_getElem hlt]
    rw [hslot] at hx
    exact congrArg some hx
  · rw [getElem?_eq_none (by rw [length_range]; omega),
      getElem?_eq_none (by rw [length_reverse, length_map]; omega)]
    rfl

theorem getAccountKeys_eq (t : ℕ) :
    getAccountKeys (some info) t =
      if t = type then (accounts.map fun x => padded x.key).reverse else [] := by
  unfold getAccountKeys
  dsimp only
  rw [h.filter_entries]
  by_cases ht : t = type
  · rw [if_pos ht, if_pos ht, h.map_slots]
  · rw [if_neg ht, if_neg ht]
    rfl

end

/-- Keys of one type in the order of their turns are what they should be. -/
theorem represents (h : Ordered s.info s.accounts type) (hnone : s.properties = none → s.accounts = []) :
    Represents s where
  length_le := h.length_le
  in_use := fun i hi => h.in_use_iff hi
  slot := fun i hi => by
    have hle := h.length_le
    exact ⟨s.accounts.length - 1 - i, by omega,
      (h.entry i _ (getElem?_eq_getElem hi)).2.2.2.1⟩
  distinct := fun i hi j hj heq => by
    have hi' := (h.entry i _ (getElem?_eq_getElem hi)).2.2.2.1
    have hj' := (h.entry j _ (getElem?_eq_getElem hj)).2.2.2.1
    rw [heq, hj'] at hi'
    unfold maxUserAccountKeyLen at hi'
    omega
  entry := fun i x hx => by
    obtain ⟨hlinks, htype, hlen, hstart, hslot⟩ := h.entry i x hx
    obtain ⟨-, -, hkey, htypes⟩ := h.account x (mem_of_getElem? hx)
    refine ⟨hlinks, (htypes _).mpr htype, hlen, ?_⟩
    rw [hstart, ← take_readBytes hkey, hslot, take_padded]
  nodup := h.nodup
  get_keys := fun t => by
    cases hp : s.properties with
    | none =>
      rw [hnone hp]
      exact List.Perm.refl _
    | some info =>
      have hinfo : s.info = info := by rw [State.info, hp]; rfl
      rw [hinfo] at h
      rw [h.getAccountKeys_eq]
      by_cases ht : t = type
      · have hall : s.accounts.filter (fun x => decide (t ∈ x.types)) = s.accounts :=
          filter_eq_self.mpr fun x hx => decide_eq_true (((h.account x hx).2.2.2 t).mpr ht)
        rw [if_pos ht, hall]
        exact reverse_perm _
      · have hnil : s.accounts.filter (fun x => decide (t ∈ x.types)) = [] :=
          filter_eq_nil_iff.mpr fun x hx hmem =>
            ht (((h.account x hx).2.2.2 t).mp (of_decide_eq_true hmem))
        rw [if_neg ht, hnil]
        exact List.Perm.refl _

theorem isValid_iff (h : Ordered info accounts type) (hi : i < maxNumAccountKeys) :
    (info.accountKeyIndex i).isValid = true ↔
      i < accounts.length ∧ type = userAccountTypeFastPair := by
  unfold KeyIndex.isValid
  rw [Bool.and_eq_true_iff, Bool.and_eq_true_iff, decide_eq_true_iff, decide_eq_true_iff,
    decide_eq_true_iff, h.in_use_iff hi, and_assoc]
  refine and_congr_right fun hlt => ?_
  rw [(h.entry i _ (getElem?_eq_getElem hlt)).2.1]
  unfold userAccountTypeInvalid userAccountTypeMax userAccountTypeFastPair
  omega

/-- What the search compares for the key of an account. -/
theorem slotBegins_iff (h : Ordered info accounts type) {x : Account} (hx : accounts[i]? = some x)
    {mem : ℕ → Byte} {len : ℕ} (hlen : len ≤ maxUserAccountKeyLen) :
    slotBegins info (accounts.length - 1 - i) mem len = true ↔
      (padded x.key).take len = readBytes mem 0 len := by
  obtain ⟨-, -, -, -, hslot⟩ := h.entry i x hx
  unfold slotBegins
  rw [beq_iff_eq, ← hslot, take_readBytes hlen]

theorem of_nil (h : Ordered info [] type) (type' : ℕ) : Ordered info [] type' where
  length_le := h.length_le
  entry := fun i x hx => by cases hx
  unused := h.unused
  free := h.free
  account := fun x hx => by cases hx
  fast_pair := fun h => by cases h
  owner := fun i x hx => by cases hx
  nodup := nodup_nil

end Ordered

/-! ## The search for a duplicate -/

section Search

variable {info : KeyInfo} {mem : ℕ → Byte} {len n : ℕ}

/-- The first slot in use that begins with the key, or the number of slots in use. -/
inductive Found (info : KeyInfo) (mem : ℕ → Byte) (len n count : ℕ) : ℕ × Option ℕ → Prop
  | duplicate (slot : ℕ) (hle : count ≤ slot) (hlt : slot < n)
      (hbegins : slotBegins info slot mem len = true)
      (hfirst : ∀ j, count ≤ j → j < slot → slotBegins info j mem len = false) :
      Found info mem len n count (slot, some slot)
  | new (hnone : ∀ j, count ≤ j → j < n → slotBegins info j mem len = false) :
      Found info mem len n count (n, none)

theorem findDuplicate_found (hle : n ≤ maxNumAccountKeys)
    (hvalid : ∀ i < maxNumAccountKeys, (info.accountKeyIndex i).isValid = true ↔ i < n) :
    ∀ fuel count, count + fuel = maxNumAccountKeys → count ≤ n →
      Found info mem len n count (findDuplicate info mem len fuel count)
  | 0, count, hfuel, hcount => by
    obtain rfl : count = n := by omega
    exact .new fun j hj hlt => absurd hj (Nat.not_le.mpr hlt)
  | fuel + 1, count, hfuel, hcount => by
    rw [findDuplicate]
    have hcount5 : count < maxNumAccountKeys := by omega
    by_cases hlt : count < n
    · rw [if_pos ((hvalid count hcount5).mpr hlt)]
      by_cases hbegins : slotBegins info count mem len = true
      · rw [if_pos hbegins]
        exact .duplicate count (Nat.le_refl _) hlt hbegins fun j hj hlt' => by omega
      · rw [if_neg hbegins]
        have hfalse := Bool.eq_false_iff.mpr hbegins
        have hstep : ∀ j, count ≤ j → j = count ∨ count + 1 ≤ j := fun j hj => by omega
        have ih := findDuplicate_found hle hvalid fuel (count + 1) (by omega) hlt
        generalize findDuplicate info mem len fuel (count + 1) = found at ih ⊢
        cases ih with
        | duplicate slot hle' hlt' hbegins' hfirst =>
          refine .duplicate slot (by omega) hlt' hbegins' fun j hj hlt'' => ?_
          rcases hstep j hj with rfl | hj'
          · exact hfalse
          · exact hfirst j hj' hlt''
        | new hnone =>
          refine .new fun j hj hlt'' => ?_
          rcases hstep j hj with rfl | hj'
          · exact hfalse
          · exact hnone j hj' hlt''
    · obtain rfl : count = n := by omega
      rw [if_neg (mt (hvalid count hcount5).mp hlt)]
      exact .new fun j hj hlt' => absurd hj (Nat.not_le.mpr hlt')

end Search

/-! ## A key is added -/

/-- What is stored and returned when there are properties. -/
def outcome (info : KeyInfo) (r : Request) : KeyInfo × ℕ :=
  match findDuplicate info r.accountKey r.accountKeyLen maxNumAccountKeys 0 with
  | (_, some count) => addDuplicate info count
  | (numKeys, none) => addNew info numKeys r.accountKey r.accountKeyLen r.accountKeyType

variable {s s' : State} {r : Request} {accounts : List Account} {info : KeyInfo} {key : List Byte}

namespace Request

theorem length_bytes (r : Request) : r.bytes.length = r.accountKeyLen := length_readBytes

theorem length_pos (r : Request) : 0 < r.accountKeyLen := by
  have hvalid := r.valid
  unfold isValidKey at hvalid
  simp only [Bool.and_eq_true_iff, decide_eq_true_iff] at hvalid
  exact Nat.pos_of_ne_zero hvalid.1.1

theorem length_le (r : Request) : r.accountKeyLen ≤ maxUserAccountKeyLen := by
  have hvalid := r.valid
  unfold isValidKey at hvalid
  simp only [Bool.and_eq_true_iff, decide_eq_true_iff] at hvalid
  exact hvalid.1.2

end Request

/-- Clear properties are as good as none. -/
theorem addAccountKey_eq (s : State) (r : Request) :
    addAccountKey s.properties r.accountKey r.accountKeyLen r.accountKeyType =
      (some (outcome s.info r).1, (outcome s.info r).2) := by
  unfold addAccountKey
  rw [if_pos r.valid]
  cases hp : s.properties with
  | some info =>
    have hinfo : s.info = info := by rw [State.info, hp]; rfl
    dsimp only
    rw [hinfo]
    unfold outcome
    rcases findDuplicate info r.accountKey r.accountKeyLen maxNumAccountKeys 0 with ⟨_, _ | _⟩ <;> rfl
  | none =>
    have hinfo : s.info = .cleared := by rw [State.info, hp]; rfl
    have hfind : findDuplicate .cleared r.accountKey r.accountKeyLen maxNumAccountKeys 0 =
        (0, none) := rfl
    have hindex (entry : KeyIndex) : setEntry KeyInfo.cleared.accountKeyIndex 0 entry =
        setEntry (setEntry KeyInfo.cleared.accountKeyIndex 0 entry) 0 entry := by
      funext i
      unfold setEntry
      split_ifs <;> rfl
    rw [hinfo, outcome, hfind]
    dsimp only
    rw [hindex]
    rfl

theorem exists_run (s : State) (ops : List Op) : ∃ s', run step s ops = some s' := by
  induction ops generalizing s with
  | nil => exact ⟨s, rfl⟩
  | cons op ops ih =>
    cases op with
    | add r => exact ih _
    | deleteAll => exact ih _

theorem step_add (s : State) (r : Request) :
    step s (.add r) = some ⟨some (outcome s.info r).1, addAccount s.accounts r.bytes r.accountKeyType,
      some (outcome s.info r).2⟩ := by
  unfold step
  dsimp only
  rw [addAccountKey_eq]

/-- The request, when its key is a new one. -/
abbrev newKey (info : KeyInfo) (accounts : List Account) (r : Request) : KeyInfo × ℕ :=
  addNew info accounts.length r.accountKey r.accountKeyLen r.accountKeyType

/-- The state after it. -/
abbrev afterNew (info : KeyInfo) (accounts : List Account) (r : Request) : State :=
  ⟨some (newKey info accounts r).1, addAccount accounts r.bytes r.accountKeyType,
    some (newKey info accounts r).2⟩

namespace Ordered

variable {info : KeyInfo} {accounts : List Account} {type : ℕ}

/-- The outcome of the search. -/
theorem found (h : Ordered info accounts userAccountTypeFastPair) (mem : ℕ → Byte) (len : ℕ) :
    Found info mem len accounts.length 0 (findDuplicate info mem len maxNumAccountKeys 0) :=
  findDuplicate_found h.length_le
    (fun i hi => by rw [h.isValid_iff hi, and_iff_left rfl]) _ 0 (Nat.zero_add _) (Nat.zero_le _)

section

variable (h : Ordered info accounts type)
include h

/-- With keys of another type in it the list takes no key. -/
theorem outcome_of_ne (hne : accounts ≠ []) (htype : type ≠ userAccountTypeFastPair) (r : Request) :
    outcome info r = (info, invalidUserAccountKeyIndex) := by
  have hpos : 0 < accounts.length := length_pos_iff.mpr hne
  have hinvalid : (info.accountKeyIndex 0).isValid = false :=
    Bool.eq_false_iff.mpr (mt (h.isValid_iff (by decide)).mp fun hv => htype hv.2)
  have hfind : findDuplicate info r.accountKey r.accountKeyLen maxNumAccountKeys 0 = (0, none) := by
    unfold maxNumAccountKeys
    rw [findDuplicate, if_neg (Bool.eq_false_iff.mp hinvalid)]
  have hused : (info.accountKeyIndex 0).numHandsetsLinked ≠ 0 := by
    intro hzero
    have hin := (h.in_use_iff (by decide : 0 < maxNumAccountKeys)).mpr hpos
    rw [hzero] at hin
    cases hin
  unfold outcome
  rw [hfind]
  dsimp only
  unfold addNew
  rw [if_pos (by decide), if_neg hused]

/-- A new key in a list that has room. -/
theorem addNew_lt (hlt : accounts.length < maxNumAccountKeys) (r : Request) :
    newKey info accounts r =
      (⟨setEntry (shiftEntries (setEntry info.accountKeyIndex accounts.length
          ⟨1, .ofNat 8 r.accountKeyType, .ofNat 8 r.accountKeyLen,
            .ofNat 8 (accounts.length * maxUserAccountKeyLen)⟩) accounts.length) 0
          ⟨1, .ofNat 8 r.accountKeyType, .ofNat 8 r.accountKeyLen,
            .ofNat 8 (accounts.length * maxUserAccountKeyLen)⟩,
        writeBytes info.accountKeys (accounts.length * maxUserAccountKeyLen) r.accountKey
          r.accountKeyLen⟩, accounts.length) := by
  unfold newKey addNew
  rw [if_pos hlt, if_pos (h.unused _ (Nat.le_refl _) hlt)]

/-- The entries after a new key. -/
theorem entry_addNew (hlt : accounts.length < maxNumAccountKeys) (r : Request) (i : ℕ) :
    (newKey info accounts r).1.accountKeyIndex i =
      if i = 0 then ⟨1, .ofNat 8 r.accountKeyType, .ofNat 8 r.accountKeyLen,
        .ofNat 8 (accounts.length * maxUserAccountKeyLen)⟩
      else if i ≤ accounts.length then info.accountKeyIndex (i - 1) else info.accountKeyIndex i := by
  rw [h.addNew_lt hlt]
  dsimp only
  rw [setEntry_shiftEntries]
  unfold setEntry
  by_cases hi : i = 0
  · rw [if_pos hi, if_pos hi]
  · rw [if_neg hi, if_neg hi]
    by_cases hle : i ≤ accounts.length
    · rw [if_pos hle, if_pos hle, if_neg (by omega)]
    · rw [if_neg hle, if_neg hle, if_neg (by omega)]

end

theorem toNat_startLoc {n : ℕ} (h : n < maxNumAccountKeys) :
    (BitVec.ofNat 8 (n * maxUserAccountKeyLen)).toNat = n * maxUserAccountKeyLen := by
  unfold maxNumAccountKeys at h
  rw [BitVec.toNat_ofNat, maxUserAccountKeyLen, Nat.mod_eq_of_lt (by omega)]

/-- The slots after a new key. -/
theorem slot_addNew (h : Ordered info accounts type) (hlt : accounts.length < maxNumAccountKeys)
    (r : Request) :
    readBytes (newKey info accounts r).1.accountKeys (accounts.length * maxUserAccountKeyLen)
      maxUserAccountKeyLen = padded r.bytes := by
  rw [h.addNew_lt hlt]
  refine readBytes_writeBytes_padded r.length_le fun i hi => h.free _ (Nat.le_add_right _ _) ?_
  unfold maxNumAccountKeys maxUserAccountKeyLen at *
  omega

/-- **A new key.** In its turn, a key of the type joins the others. -/
theorem cons_addNew (h : Ordered info accounts type) (hlt : accounts.length < maxNumAccountKeys)
    {r : Request} (htype : r.accountKeyType < 2 ^ 8)
    (hsame : accounts ≠ [] → type = r.accountKeyType ∧ type = userAccountTypeFastPair)
    (hnew : ∀ x ∈ accounts, x.key ≠ r.bytes) :
    Ordered (newKey info accounts r).1
      (⟨r.bytes, [r.accountKeyType], 1, accounts.isEmpty⟩ :: accounts) r.accountKeyType where
  length_le := hlt
  entry := fun i x hx => by
    rw [h.entry_addNew hlt, length_cons, Nat.add_sub_cancel]
    cases i with
    | zero =>
      obtain rfl := some.inj hx
      have hlen := r.length_le
      unfold maxUserAccountKeyLen at hlen
      rw [if_pos rfl, Nat.sub_zero]
      refine ⟨rfl, Nat.mod_eq_of_lt htype, ?_, toNat_startLoc hlt, h.slot_addNew hlt r⟩
      rw [r.length_bytes]
      exact Nat.mod_eq_of_lt (by omega)
    | succ i =>
      rw [getElem?_cons_succ] at hx
      have hlti : i < accounts.length := (List.getElem?_eq_some_iff.mp hx).1
      obtain ⟨hlinks, ht, hl, hstart, hslot⟩ := h.entry i x hx
      have hne : accounts ≠ [] := ne_nil_of_length_pos (by omega)
      have hsub : accounts.length - (i + 1) = accounts.length - 1 - i := by omega
      rw [if_neg (Nat.succ_ne_zero i), if_pos (Nat.succ_le_of_lt hlti), Nat.add_sub_cancel, hsub]
      refine ⟨hlinks, ht.trans (hsame hne).1, hl, hstart, ?_⟩
      rw [h.addNew_lt hlt, readBytes_writeBytes_of_disjoint (.inl ?_), hslot]
      rw [← Nat.succ_mul]
      exact Nat.mul_le_mul_right _ (by omega)
  unused := fun i hle hi => by
    rw [length_cons] at hle
    rw [h.entry_addNew hlt, if_neg (by omega), if_neg (by omega)]
    exact h.unused i (by omega) hi
  free := fun i hle hi => by
    have hlen := r.length_le
    rw [length_cons, Nat.succ_mul] at hle
    rw [h.addNew_lt hlt]
    dsimp only [writeBytes]
    rw [if_neg (by omega)]
    exact h.free i (by omega) hi
  account := fun x hx => by
    rcases mem_cons.mp hx with rfl | hx
    · refine ⟨Nat.one_pos, ?_, ?_, fun t => mem_singleton⟩
      · rw [r.length_bytes]
        exact r.length_pos
      · rw [r.length_bytes]
        exact r.length_le
    · obtain ⟨hlinks, hpos, hle, htypes⟩ := h.account x hx
      refine ⟨hlinks, hpos, hle, fun t => ?_⟩
      rw [htypes, (hsame (ne_nil_of_mem hx)).1]
  fast_pair := fun h2 => by
    have hne : accounts ≠ [] := by
      rintro rfl
      rw [length_cons] at h2
      cases Nat.le_of_succ_le_succ h2
    obtain ⟨ht, hfast⟩ := hsame hne
    exact ht.symm.trans hfast
  owner := fun i x hx => by
    rw [length_cons]
    cases i with
    | zero =>
      obtain rfl := some.inj hx
      dsimp only
      rw [List.isEmpty_iff, ← length_eq_zero_iff]
      omega
    | succ i =>
      rw [getElem?_cons_succ] at hx
      rw [h.owner i x hx]
      omega
  nodup := by
    rw [map_cons, nodup_cons]
    refine ⟨fun hmem => ?_, h.nodup⟩
    obtain ⟨x, hx, hkey⟩ := List.mem_map.mp hmem
    exact hnew x hx hkey

/-- The entries after a duplicate. -/
theorem entry_addDuplicate (info : KeyInfo) (count i : ℕ) :
    (addDuplicate info count).1.accountKeyIndex i =
      if i = 0 then { info.accountKeyIndex count with
        numHandsetsLinked := (info.accountKeyIndex count).numHandsetsLinked + 1 }
      else if i ≤ count then info.accountKeyIndex (i - 1) else info.accountKeyIndex i := by
  unfold addDuplicate
  dsimp only
  by_cases hc : count = 0
  · rw [if_neg (not_not.mpr hc), hc]
    dsimp only [setEntry]
    by_cases hi : i = 0
    · rw [if_pos hi, if_pos hi]
    · rw [if_neg hi, if_neg hi, if_neg (by omega)]
  · rw [if_pos hc]
    dsimp only
    rw [setEntry_shiftEntries]
    unfold setEntry
    by_cases hi : i = 0
    · rw [if_pos hi, if_pos hi]
    · rw [if_neg hi, if_neg hi]
      by_cases hle : i ≤ count
      · rw [if_pos hle, if_pos hle, if_neg (by omega)]
      · rw [if_neg hle, if_neg hle, if_neg (by omega)]

theorem accountKeys_addDuplicate (info : KeyInfo) (count : ℕ) :
    (addDuplicate info count).1.accountKeys = info.accountKeys := by
  unfold addDuplicate
  dsimp only
  split_ifs <;> rfl

theorem addDuplicate_snd (info : KeyInfo) (count : ℕ) : (addDuplicate info count).2 = 0 := by
  unfold addDuplicate
  dsimp only
  split_ifs with h
  · rfl
  · exact not_not.mp h

/-- **The only key again.** -/
theorem singleton_addDuplicate {x : Account} (h : Ordered info [x] type) (hlinks : x.links < 255) :
    Ordered (addDuplicate info 0).1 [{ x with types := type :: x.types, links := x.links + 1 }]
      type where
  length_le := h.length_le
  entry := fun i y hy => by
    cases i with
    | zero =>
      obtain rfl := some.inj hy
      obtain ⟨hl, htype, hlen, hstart, hslot⟩ := h.entry 0 x rfl
      rw [entry_addDuplicate, if_pos rfl, accountKeys_addDuplicate]
      refine ⟨?_, htype, hlen, hstart, hslot⟩
      rw [BitVec.toNat_add, hl]
      change (x.links + 1) % 2 ^ 8 = x.links + 1
      exact Nat.mod_eq_of_lt (by omega)
    | succ i => cases hy
  unused := fun i hle hi => by
    rw [length_singleton] at hle
    rw [entry_addDuplicate, if_neg (by omega), if_neg (by omega)]
    exact h.unused i hle hi
  free := fun i hle hi => by
    rw [accountKeys_addDuplicate]
    exact h.free i hle hi
  account := fun y hy => by
    obtain rfl := mem_singleton.mp hy
    obtain ⟨-, hpos, hle, htypes⟩ := h.account x mem_cons_self
    refine ⟨Nat.succ_pos _, hpos, hle, fun t => ?_⟩
    rw [mem_cons, htypes, or_self]
  fast_pair := h.fast_pair
  owner := fun i y hy => by
    cases i with
    | zero =>
      obtain rfl := some.inj hy
      exact h.owner 0 x rfl
    | succ i => cases hy
  nodup := pairwise_singleton _ _

/-- No slot in use begins with the key, so no account has it. -/
theorem key_ne_of_new (h : Ordered info accounts type) {r : Request}
    (hnone : ∀ slot < accounts.length, slotBegins info slot r.accountKey r.accountKeyLen = false) :
    ∀ x ∈ accounts, (padded x.key).take r.accountKeyLen ≠ r.bytes ∧ x.key ≠ r.bytes := by
  intro x hx
  obtain ⟨i, hi⟩ := mem_iff_getElem?.mp hx
  have hpos : 0 < accounts.length := length_pos_of_mem hx
  have htake : (padded x.key).take r.accountKeyLen ≠ r.bytes := fun heq => by
    have hbegins := (h.slotBegins_iff hi r.length_le).mpr heq
    rw [hnone _ (by omega)] at hbegins
    cases hbegins
  refine ⟨htake, fun heq => htake ?_⟩
  rw [← r.length_bytes, ← heq, take_padded]

end Ordered

theorem addAccount_of_new (type : ℕ) (h : ∀ x ∈ accounts, x.key ≠ key) :
    addAccount accounts key type =
      if accounts.length < maxNumAccountKeys then ⟨key, [type], 1, accounts.isEmpty⟩ :: accounts
      else ⟨key, [type], 1, false⟩ :: evict accounts := by
  have hfind : accounts.find? (fun x => x.key = key) = none :=
    find?_eq_none.mpr fun x hx => by rw [decide_eq_true_iff]; exact h x hx
  unfold addAccount
  rw [hfind]

theorem addAccount_singleton {x : Account} (type : ℕ) (h : x.key = key) :
    addAccount [x] key type = [{ x with types := type :: x.types, links := x.links + 1 }] := by
  unfold addAccount
  simp [h]

/-- The key just added is the first one. -/
theorem exists_addAccount (accounts : List Account) (key : List Byte) (type : ℕ) :
    ∃ x rest, addAccount accounts key type = x :: rest ∧ x.key = key ∧ type ∈ x.types := by
  unfold addAccount
  cases hfind : accounts.find? (fun x => x.key = key) with
  | some x =>
    have hkey : x.key = key := by simpa using find?_some hfind
    exact ⟨_, _, rfl, hkey, mem_cons_self⟩
  | none =>
    dsimp only
    split_ifs
    · exact ⟨_, _, rfl, rfl, mem_cons_self⟩
    · exact ⟨_, _, rfl, rfl, mem_cons_self⟩

/-! ## Steps -/

/-- What a run that is all right keeps. -/
structure Shaped (s : State) : Prop where
  ordered : ∃ type, Ordered s.info s.accounts type
  none : s.properties = none → s.accounts = []
  added : ∀ slot ∈ s.added,
    (s.info.accountKeyIndex 0).accountKeyStartLoc.toNat = slot * maxUserAccountKeyLen

theorem Shaped.refines (h : Shaped s) : Refines s := by
  obtain ⟨type, hordered⟩ := h.ordered
  exact ⟨hordered.represents h.none, h.added⟩

theorem shaped_init : Shaped .init where
  ordered := ⟨0, ordered_cleared 0⟩
  none := fun _ => rfl
  added := fun slot h => by cases h

/-- A new key that is put in its turn. -/
theorem shaped_addNew {type : ℕ} (h : Ordered info accounts type)
    (hlt : accounts.length < maxNumAccountKeys) {r : Request} (htype : r.accountKeyType < 2 ^ 8)
    (hsame : accounts ≠ [] → type = r.accountKeyType ∧ type = userAccountTypeFastPair)
    (hnew : ∀ x ∈ accounts, x.key ≠ r.bytes) :
    Shaped (afterNew info accounts r) := by
  have hordered := h.cons_addNew hlt htype hsame hnew
  refine ⟨⟨r.accountKeyType, ?_⟩, nofun, fun slot hslot => ?_⟩
  · change Ordered _ (addAccount accounts r.bytes r.accountKeyType) _
    rw [addAccount_of_new _ hnew, if_pos hlt]
    exact hordered
  · obtain rfl := some.inj hslot
    have hstart := (hordered.entry 0 _ rfl).2.2.2.1
    rw [length_cons, Nat.add_sub_cancel, Nat.sub_zero] at hstart
    change ((newKey info accounts r).1.accountKeyIndex 0).accountKeyStartLoc.toNat = _
    rw [h.addNew_lt hlt] at hstart ⊢
    exact hstart

theorem shaped_step (h : Shaped s) {op : Op} (hfits : Fits s op) (hstep : step s op = some s') :
    Shaped s' := by
  obtain ⟨type, hordered⟩ := h.ordered
  cases op with
  | deleteAll =>
    obtain rfl := some.inj hstep
    refine ⟨⟨type, ?_⟩, fun _ => rfl, fun slot hslot => by cases hslot⟩
    cases s.properties with
    | none | some info => exact ordered_cleared type
  | add r =>
    rw [step_add] at hstep
    obtain rfl := some.inj hstep
    unfold Fits at hfits
    dsimp only at hfits
    by_cases hnil : s.accounts = []
    · rw [if_pos hnil] at hfits
      rw [hnil] at hordered ⊢
      have hfound := (hordered.of_nil userAccountTypeFastPair).found r.accountKey r.accountKeyLen
      have hout : outcome s.info r = addNew s.info 0 r.accountKey r.accountKeyLen r.accountKeyType := by
        unfold outcome
        generalize findDuplicate s.info r.accountKey r.accountKeyLen maxNumAccountKeys 0 = found
          at hfound ⊢
        cases hfound with
        | duplicate slot _ hlt => cases hlt
        | new => rfl
      rw [hout]
      exact shaped_addNew hordered (by decide) hfits (fun hne => absurd rfl hne)
        (fun x hx => by cases hx)
    · rw [if_neg hnil] at hfits
      obtain ⟨htypes, hr, hcase⟩ := hfits
      have htype : type = userAccountTypeFastPair := by
        obtain ⟨x, hx⟩ := exists_mem_of_ne_nil _ hnil
        exact htypes x hx type (((hordered.account x hx).2.2.2 type).mpr rfl)
      subst htype
      have hfound := hordered.found r.accountKey r.accountKeyLen
      rcases hcase with ⟨hlt, hnone⟩ | ⟨x, hx, hkey, hlinks⟩
      · have hout : outcome s.info r = addNew s.info s.accounts.length r.accountKey r.accountKeyLen
            r.accountKeyType := by
          unfold outcome
          generalize findDuplicate s.info r.accountKey r.accountKeyLen maxNumAccountKeys 0 = found
            at hfound ⊢
          cases hfound with
          | duplicate slot _ hlt' hbegins =>
            rw [hnone slot hlt'] at hbegins
            cases hbegins
          | new => rfl
        rw [hout]
        exact shaped_addNew hordered hlt (by rw [hr]; decide) (fun _ => ⟨hr.symm, rfl⟩)
          (fun x hx => (hordered.key_ne_of_new hnone x hx).2)
      · rw [hx] at hordered hfound ⊢
        have hbegins : slotBegins s.info 0 r.accountKey r.accountKeyLen = true := by
          refine (hordered.slotBegins_iff (i := 0) (x := x) rfl r.length_le).mpr ?_
          have hlen : r.accountKeyLen = x.key.length := by rw [hkey, r.length_bytes]
          change (padded x.key).take r.accountKeyLen = r.bytes
          rw [hlen, take_padded, hkey]
        have hout : outcome s.info r = addDuplicate s.info 0 := by
          unfold outcome
          generalize findDuplicate s.info r.accountKey r.accountKeyLen maxNumAccountKeys 0 = found
            at hfound ⊢
          cases hfound with
          | duplicate slot _ hlt =>
            obtain rfl := Nat.lt_one_iff.mp hlt
            rfl
          | new hnone =>
            rw [hnone 0 (Nat.zero_le _) Nat.one_pos] at hbegins
            cases hbegins
        rw [hout, addAccount_singleton _ hkey, hr]
        refine ⟨⟨_, hordered.singleton_addDuplicate hlinks⟩, nofun, fun slot hslot => ?_⟩
        obtain rfl := some.inj hslot
        have hstart := (hordered.entry 0 x rfl).2.2.2.1
        change ((addDuplicate s.info 0).1.accountKeyIndex 0).accountKeyStartLoc.toNat = _
        rw [Ordered.entry_addDuplicate, if_pos rfl, Ordered.addDuplicate_snd]
        exact hstart

/-- A type that keys are returned for is that of an entry in use. -/
theorem exists_entry_of_getAccountKeys {t : ℕ} (h : key ∈ getAccountKeys (some info) t) :
    ∃ i < maxNumAccountKeys,
      0 < (info.accountKeyIndex i).numHandsetsLinked.toNat ∧
      (info.accountKeyIndex i).accountKeyType.toNat = t := by
  obtain ⟨i, hi, -⟩ := List.mem_map.mp h
  obtain ⟨hi, hboth⟩ := mem_filter.mp hi
  obtain ⟨hpos, htype⟩ := Bool.and_eq_true_iff.mp hboth
  exact ⟨i, mem_range.mp hi, of_decide_eq_true hpos, of_decide_eq_true htype⟩

section

variable (h : Ordered info accounts userAccountTypeFastPair)
include h

/-- A duplicate is found, and that is right: it is the only key. -/
theorem fits_of_duplicate {r : Request} {slot : ℕ} (hlt : slot < accounts.length)
    (hfirst : ∀ j < slot, slotBegins info j r.accountKey r.accountKeyLen = false)
    (href : Refines ⟨some (addDuplicate info slot).1,
      addAccount accounts r.bytes r.accountKeyType, some (addDuplicate info slot).2⟩) :
    r.accountKeyType = userAccountTypeFastPair ∧
      ∃ x, accounts = [x] ∧ x.key = r.bytes ∧ x.links < 255 := by
  obtain ⟨hrep, hadded⟩ := href
  obtain ⟨y, rest, hadd, hykey, hytype⟩ := exists_addAccount accounts r.bytes r.accountKeyType
  obtain ⟨hlinks, htype, hlen, hstart, hslot⟩ := h.entry slot _ (getElem?_eq_getElem hlt)
  generalize hx : accounts[slot] = x at hlinks hlen hslot
  have hmem : x ∈ accounts := hx ▸ getElem_mem hlt
  have hle := h.length_le
  -- the entry in front is that of the duplicate
  have hentry := hrep.entry 0 y (by rw [hadd]; rfl)
  change ((addDuplicate info slot).1.accountKeyIndex 0).numHandsetsLinked.toNat = _ ∧ _ ∧
    ((addDuplicate info slot).1.accountKeyIndex 0).accountKeyLen.toNat = _ ∧
    readBytes (addDuplicate info slot).1.accountKeys
      ((addDuplicate info slot).1.accountKeyIndex 0).accountKeyStartLoc.toNat _ = _ at hentry
  rw [Ordered.entry_addDuplicate, if_pos rfl, Ordered.accountKeys_addDuplicate] at hentry
  dsimp only at hentry
  obtain ⟨hlinks', -, hlen', hread⟩ := hentry
  have hkeylen : x.key.length = y.key.length := hlen.symm.trans hlen'
  have hkey : x.key = r.bytes := by
    rw [hstart, ← take_readBytes (hkeylen ▸ (h.account x hmem).2.2.1), hslot, ← hkeylen,
      take_padded, hykey] at hread
    exact hread
  -- and its slot is the first one
  have hzero := hadded 0 (by rw [Ordered.addDuplicate_snd]; rfl)
  change ((addDuplicate info slot).1.accountKeyIndex 0).accountKeyStartLoc.toNat = _ at hzero
  rw [Ordered.entry_addDuplicate, if_pos rfl] at hzero
  dsimp only at hzero
  rw [hstart, Nat.zero_mul, maxUserAccountKeyLen] at hzero
  have hlast : accounts.length - 1 - slot = 0 := by omega
  have hbegins : slotBegins info 0 r.accountKey r.accountKeyLen = true := by
    rw [← hlast, h.slotBegins_iff (hx ▸ getElem?_eq_getElem hlt) r.length_le]
    change (padded x.key).take r.accountKeyLen = r.bytes
    rw [← r.length_bytes, ← hkey, take_padded]
  have hslot0 : slot = 0 := by
    by_contra hne
    rw [hfirst 0 (Nat.pos_of_ne_zero hne)] at hbegins
    cases hbegins
  subst hslot0
  obtain ⟨x', rfl⟩ := length_eq_one_iff.mp (by omega : accounts.length = 1)
  obtain rfl : x' = x := hx
  -- no entry has another type
  have hfast : r.accountKeyType = userAccountTypeFastPair := by
    have hkeys : padded y.key ∈ getAccountKeys (some (addDuplicate info 0).1) r.accountKeyType := by
      refine (hrep.get_keys r.accountKeyType).mem_iff.mpr (List.mem_map.mpr ⟨y, ?_, rfl⟩)
      rw [hadd]
      exact mem_filter.mpr ⟨mem_cons_self, decide_eq_true hytype⟩
    obtain ⟨i, hi, hpos, ht⟩ := exists_entry_of_getAccountKeys hkeys
    rw [Ordered.entry_addDuplicate] at hpos ht
    by_cases hi0 : i = 0
    · rw [if_pos hi0] at ht
      exact ht.symm.trans htype
    · rw [if_neg hi0, if_neg (by omega)] at hpos
      rw [h.unused i (Nat.pos_of_ne_zero hi0) hi] at hpos
      cases hpos
  refine ⟨hfast, x', rfl, hkey, ?_⟩
  rw [addAccount_singleton _ hkey] at hadd
  obtain ⟨rfl, -⟩ := cons.inj hadd
  rw [BitVec.toNat_add, hlinks] at hlinks'
  change (x'.links + 1) % 2 ^ 8 = x'.links + 1 at hlinks'
  omega

/-- A new key is put in its turn, and that is right: it has the type of the others. -/
theorem type_of_addNew (hne : accounts ≠ []) (hlt : accounts.length < maxNumAccountKeys)
    {r : Request}
    (hnone : ∀ slot < accounts.length, slotBegins info slot r.accountKey r.accountKeyLen = false)
    (hrep : Represents (afterNew info accounts r)) :
    r.accountKeyType = userAccountTypeFastPair := by
  have hpos : 0 < accounts.length := length_pos_iff.mpr hne
  have hnew := h.key_ne_of_new hnone
  by_contra htype
  -- the last entry moved to the place whose slot the new key has taken
  have hkeys : padded r.bytes ∈ getAccountKeys (some (newKey info accounts r).1)
      userAccountTypeFastPair := by
    have hlast : accounts.length - 1 < accounts.length := by omega
    have hin : accounts.length - 1 < maxNumAccountKeys := by omega
    refine List.mem_map.mpr ⟨accounts.length, mem_filter.mpr ⟨mem_range.mpr hlt, ?_⟩,
      h.slot_addNew hlt r⟩
    rw [h.entry_addNew hlt, if_neg (by omega), if_pos (Nat.le_refl _),
      decide_eq_true ((h.in_use_iff hin).mpr hlast),
      decide_eq_true (h.entry _ _ (getElem?_eq_getElem hlast)).2.1]
    rfl
  obtain ⟨x, hx, hpadded⟩ := List.mem_map.mp ((hrep.get_keys _).mem_iff.mp hkeys)
  obtain ⟨hx, hmem⟩ := mem_filter.mp hx
  change x ∈ addAccount accounts r.bytes r.accountKeyType at hx
  rw [addAccount_of_new _ fun x hx => (hnew x hx).2, if_pos hlt] at hx
  rcases mem_cons.mp hx with rfl | hx
  · exact htype (mem_singleton.mp (of_decide_eq_true hmem)).symm
  · apply (hnew x hx).1
    rw [hpadded, ← r.length_bytes, take_padded]

/-- With a full list the owner's key goes. -/
theorem not_represents_addNew (hfull : accounts.length = maxNumAccountKeys) {r : Request}
    (hnone : ∀ slot < accounts.length, slotBegins info slot r.accountKey r.accountKeyLen = false) :
    ¬ Represents (afterNew info accounts r) := by
  intro hrep
  have hadd := addAccount_of_new r.accountKeyType fun x hx => (h.key_ne_of_new hnone x hx).2
  rw [if_neg (by omega)] at hadd
  match accounts, hfull with
  | [x0, x1, x2, x3, x4], _ =>
    have howner (i : ℕ) (x : Account) (hx : [x0, x1, x2, x3, x4][i]? = some x) :
        x.owner = decide (i + 1 = 5) := by
      rw [Bool.eq_iff_iff, h.owner i x hx, decide_eq_true_iff]
      rfl
    have hevict : evict [x0, x1, x2, x3, x4] = [x0, x1, x2, x4] := by
      have h3 : x3.owner = false := howner 3 x3 rfl
      have h4 : x4.owner = true := howner 4 x4 rfl
      unfold evict
      simp [h3, h4]
    obtain ⟨-, -, hlen, hstart, hslot⟩ := h.entry 3 x3 rfl
    obtain ⟨-, -, -, hstart4, -⟩ := h.entry 4 x4 rfl
    have hkey3 := (h.account x3 (by simp)).2.2.1
    -- the last account has the entry of the last but one
    have hentry := hrep.entry 4 x4 (by
      change (addAccount _ _ _)[4]? = _
      rw [hadd, hevict]
      rfl)
    obtain ⟨-, -, hlen', hread⟩ := hentry
    change (info.accountKeyIndex 3).accountKeyLen.toNat = _ at hlen'
    change readBytes (writeBytes info.accountKeys (info.accountKeyIndex 4).accountKeyStartLoc.toNat
      r.accountKey maxUserAccountKeyLen) (info.accountKeyIndex 3).accountKeyStartLoc.toNat _ = _
      at hread
    have hkeylen : x3.key.length = x4.key.length := hlen.symm.trans hlen'
    rw [hstart4, hstart, readBytes_writeBytes_of_disjoint (.inr (Nat.le_refl 16)), ← hkeylen,
      ← take_readBytes hkey3, hslot, take_padded] at hread
    have hnodup := h.nodup
    simp only [map_cons, nodup_cons, mem_cons] at hnodup
    exact hnodup.2.2.2.1 (.inl hread)

end

theorem fits_of_refines (h : Shaped s) {op : Op} (hstep : step s op = some s') (href : Refines s') :
    Fits s op := by
  obtain ⟨type, hordered⟩ := h.ordered
  cases op with
  | deleteAll => trivial
  | add r =>
    rw [step_add] at hstep
    obtain rfl := some.inj hstep
    unfold Fits
    dsimp only
    by_cases hnil : s.accounts = []
    · rw [if_pos hnil]
      rw [hnil] at href
      have htype := (href.represents.entry 0 ⟨r.bytes, [r.accountKeyType], 1, true⟩ rfl).2.1
      rw [← mem_singleton.mp htype]
      exact BitVec.isLt _
    · rw [if_neg hnil]
      have htype : type = userAccountTypeFastPair := by
        by_contra hne
        have hadded := href.added invalidUserAccountKeyIndex (by
          rw [hordered.outcome_of_ne hnil hne]
          rfl)
        have hlt := (((outcome s.info r).1.accountKeyIndex 0).accountKeyStartLoc).isLt
        change ((outcome s.info r).1.accountKeyIndex 0).accountKeyStartLoc.toNat = _ at hadded
        rw [hadded] at hlt
        exact absurd hlt (by decide)
      subst htype
      refine ⟨fun x hx t ht => ((hordered.account x hx).2.2.2 t).mp ht, ?_⟩
      have hfound := hordered.found r.accountKey r.accountKeyLen
      unfold outcome at href
      generalize findDuplicate s.info r.accountKey r.accountKeyLen maxNumAccountKeys 0 = found
        at hfound href
      cases hfound with
      | duplicate slot _ hlt _ hfirst =>
        obtain ⟨hfast, hsingle⟩ := fits_of_duplicate hordered hlt
          (fun j hj => hfirst j (Nat.zero_le j) hj) href
        exact ⟨hfast, .inr hsingle⟩
      | new hnone =>
        have hnone : ∀ slot < s.accounts.length,
            slotBegins s.info slot r.accountKey r.accountKeyLen = false :=
          fun slot hlt => hnone slot (Nat.zero_le slot) hlt
        by_cases hlt : s.accounts.length < maxNumAccountKeys
        · exact ⟨type_of_addNew hordered hnil hlt hnone href.represents, .inl ⟨hlt, hnone⟩⟩
        · have hfull : s.accounts.length = maxNumAccountKeys :=
            le_antisymm hordered.length_le (Nat.not_lt.mp hlt)
          exact (not_represents_addNew hordered hfull hnone href.represents).elim

/-! ## Runs -/

/-- **The account keys.** The properties of the device hold the accounts after every operation of a
run exactly when every operation of it fits. -/
theorem refines_iff (ops : List Op) :
    Throughout step Refines .init ops ↔ Meets step Fits .init ops := by
  obtain ⟨s', hrun⟩ := exists_run .init ops
  exact throughout_iff_meets_of_good (fun _ => Shaped.refines)
    (fun _ _ _ hs hfits hstep => shaped_step hs hfits hstep)
    (fun _ _ _ hs hstep href => fits_of_refines hs hstep href) shaped_init hrun

/-- A key of 16 equal bytes behind the byte that fast pair keys begin with. -/
def sampleRequest (b : Byte) : Request where
  accountKey := fun i => if i = 0 then 0x04 else b
  accountKeyLen := 16
  accountKeyType := userAccountTypeFastPair
  valid := by simp [isValidKey, maxUserAccountKeyLen]
  type_lt := by decide

/-- The first key is added again after another one: the other one, which stays in front, gets the
link, and the slot returned is not its own. -/
theorem not_refines_again :
    ((run step .init [.add (sampleRequest 1), .add (sampleRequest 2), .add (sampleRequest 1)]).map
        fun s => (s.added, s.info.accountKeyIndex 0)) = some (some 0, ⟨2, 1, 16, 16⟩) ∧
      ¬ Throughout step Refines .init
        [.add (sampleRequest 1), .add (sampleRequest 2), .add (sampleRequest 1)] := by
  have heval : ((run step .init
      [.add (sampleRequest 1), .add (sampleRequest 2), .add (sampleRequest 1)]).map
        fun s => (s.added, s.info.accountKeyIndex 0)) = some (some 0, ⟨2, 1, 16, 16⟩) := by
    decide +kernel
  refine ⟨heval, fun h => ?_⟩
  obtain ⟨s, hrun, hs⟩ := Option.map_eq_some_iff.mp heval
  obtain ⟨hadded, hentry⟩ := Prod.mk.inj hs
  have hstart := (h _ s List.prefix_rfl hrun).added 0 hadded
  rw [hentry] at hstart
  cases hstart

end Mh40.UserAccounts
