import Mathlib.Data.List.Basic

/-!
# User account keys

`domains/bt/user_accounts/user_accounts.c`: the keys of user accounts, kept in two properties of
the device itself, an array of slots and an index of entries.

* `KeyInfo` holds the first `maxNumAccountKeys` entries of the index and the bytes of the slots.
  `none` in place of one is a device without the properties.
* A key is given by the memory it is read from and its length: the code also reads behind it.
* The device itself is always found. Storing the properties and the log texts are left out.
-/

namespace Mh40.UserAccounts

abbrev Byte := BitVec 8

/-- `MAX_NUM_ACCOUNT_KEYS`. -/
def maxNumAccountKeys : ℕ := 5

/-- `MAX_USER_ACCOUNT_KEY_LEN`. -/
def maxUserAccountKeyLen : ℕ := 16

/-- `INVALID_USER_ACCOUNT_KEY_INDEX`. -/
def invalidUserAccountKeyIndex : ℕ := 0xFF

/-- `OWNER_USER_ACCOUNT_KEY_INDEX`. -/
def ownerUserAccountKeyIndex : ℕ := 0

/-- `user_account_type_invalid`. -/
def userAccountTypeInvalid : ℕ := 0

/-- `user_account_type_fast_pair`. -/
def userAccountTypeFastPair : ℕ := 1

/-- `user_account_type_max`. -/
def userAccountTypeMax : ℕ := 2

/-- `user_account_key_index_t`. -/
structure KeyIndex where
  numHandsetsLinked : Byte
  accountKeyType : Byte
  accountKeyLen : Byte
  accountKeyStartLoc : Byte
deriving DecidableEq, Repr

/-- `user_account_key_info_t`. -/
structure KeyInfo where
  accountKeyIndex : ℕ → KeyIndex
  accountKeys : ℕ → Byte

/-- The buffer after `memset`. -/
def KeyInfo.cleared : KeyInfo := ⟨fun _ => ⟨0, 0, 0, 0⟩, fun _ => 0⟩

/-- The `len` bytes from `start` on. -/
def readBytes (mem : ℕ → Byte) (start len : ℕ) : List Byte :=
  (List.range len).map fun i => mem (start + i)

/-- `memcpy` of the first `len` bytes of `src`. -/
def writeBytes (mem : ℕ → Byte) (start : ℕ) (src : ℕ → Byte) (len : ℕ) : ℕ → Byte :=
  fun i => if start ≤ i ∧ i < start + len then src (i - start) else mem i

/-- The entry is changed. -/
def setEntry (index : ℕ → KeyIndex) (i : ℕ) (entry : KeyIndex) : ℕ → KeyIndex :=
  fun j => if j = i then entry else index j

/-- The loops that copy the entries before `count` one place up, from the last one down. -/
def shiftEntries (index : ℕ → KeyIndex) : ℕ → ℕ → KeyIndex
  | 0 => index
  | count + 1 => shiftEntries (setEntry index (count + 1) (index count)) count

/-- The entry is in use and has one of the types of the enumeration. -/
def KeyIndex.isValid (entry : KeyIndex) : Bool :=
  decide (0 < entry.numHandsetsLinked.toNat) &&
    decide (userAccountTypeInvalid < entry.accountKeyType.toNat) &&
    decide (entry.accountKeyType.toNat < userAccountTypeMax)

/-- `memcmp` of the key and the start of a slot. -/
def slotBegins (info : KeyInfo) (slot : ℕ) (accountKey : ℕ → Byte) (accountKeyLen : ℕ) : Bool :=
  readBytes info.accountKeys (slot * maxUserAccountKeyLen) accountKeyLen ==
    readBytes accountKey 0 accountKeyLen

/-- The search for a duplicate: `num_keys` and `duplicate_account_key_index`. -/
def findDuplicate (info : KeyInfo) (accountKey : ℕ → Byte) (accountKeyLen : ℕ) :
    ℕ → ℕ → ℕ × Option ℕ
  | 0, count => (count, none)
  | fuel + 1, count =>
    if (info.accountKeyIndex count).isValid then
      if slotBegins info count accountKey accountKeyLen then (count, some count)
      else findDuplicate info accountKey accountKeyLen fuel (count + 1)
    else (count, none)

/-- A duplicate is found at `count`. -/
def addDuplicate (info : KeyInfo) (count : ℕ) : KeyInfo × ℕ :=
  let entry := info.accountKeyIndex count
  let temp := { entry with numHandsetsLinked := entry.numHandsetsLinked + 1 }
  let index := setEntry info.accountKeyIndex count temp
  if count ≠ 0 then ({ info with accountKeyIndex := setEntry (shiftEntries index count) 0 temp }, 0)
  else ({ info with accountKeyIndex := index }, count)

/-- No duplicate is found, and `numKeys` keys. -/
def addNew (info : KeyInfo) (numKeys : ℕ) (accountKey : ℕ → Byte)
    (accountKeyLen accountKeyType : ℕ) : KeyInfo × ℕ :=
  if numKeys < maxNumAccountKeys then
    if (info.accountKeyIndex numKeys).numHandsetsLinked = 0 then
      let entry := ⟨1, .ofNat 8 accountKeyType, .ofNat 8 accountKeyLen,
        .ofNat 8 (numKeys * maxUserAccountKeyLen)⟩
      let index := setEntry info.accountKeyIndex numKeys entry
      (⟨setEntry (shiftEntries index numKeys) 0 entry,
        writeBytes info.accountKeys (numKeys * maxUserAccountKeyLen) accountKey accountKeyLen⟩,
        numKeys)
    else (info, invalidUserAccountKeyIndex)
  else if numKeys = maxNumAccountKeys then
    let temp := info.accountKeyIndex (maxNumAccountKeys - 1)
    (⟨setEntry (shiftEntries info.accountKeyIndex (numKeys - 1)) 0 temp,
      writeBytes info.accountKeys temp.accountKeyStartLoc.toNat accountKey maxUserAccountKeyLen⟩,
      0)
  else (info, invalidUserAccountKeyIndex)

/-- The checks on a key, which is never a null pointer here. -/
def isValidKey (accountKey : ℕ → Byte) (accountKeyLen accountKeyType : ℕ) : Bool :=
  decide (accountKeyLen ≠ 0) && decide (accountKeyLen ≤ maxUserAccountKeyLen) &&
    !(decide (accountKeyType = userAccountTypeFastPair) && decide (accountKey 0 ≠ 0x04))

/-- `UserAccounts_AddAccountKey`. -/
def addAccountKey (properties : Option KeyInfo) (accountKey : ℕ → Byte)
    (accountKeyLen accountKeyType : ℕ) : Option KeyInfo × ℕ :=
  if isValidKey accountKey accountKeyLen accountKeyType then
    match properties with
    | some info =>
      let (info, added) :=
        match findDuplicate info accountKey accountKeyLen maxNumAccountKeys 0 with
        | (_, some count) => addDuplicate info count
        | (numKeys, none) => addNew info numKeys accountKey accountKeyLen accountKeyType
      (some info, added)
    | none =>
      let entry := ⟨1, .ofNat 8 accountKeyType, .ofNat 8 accountKeyLen, 0⟩
      (some ⟨setEntry KeyInfo.cleared.accountKeyIndex 0 entry,
        writeBytes KeyInfo.cleared.accountKeys 0 accountKey accountKeyLen⟩,
        ownerUserAccountKeyIndex)
  else (properties, invalidUserAccountKeyIndex)

/-- `UserAccounts_GetAccountKeys`. -/
def getAccountKeys (properties : Option KeyInfo) (accountKeyType : ℕ) : List (List Byte) :=
  match properties with
  | some info =>
    ((List.range maxNumAccountKeys).filter fun count =>
      decide (0 < (info.accountKeyIndex count).numHandsetsLinked.toNat) &&
        decide ((info.accountKeyIndex count).accountKeyType.toNat = accountKeyType)).map fun count =>
      readBytes info.accountKeys (count * maxUserAccountKeyLen) maxUserAccountKeyLen
  | none => []

/-- `UserAccounts_DeleteAllAccountKeys`. -/
def deleteAllAccountKeys (properties : Option KeyInfo) : Option KeyInfo × Bool :=
  match properties with
  | some _ => (some .cleared, true)
  | none => (none, false)

/-! ## The list of accounts -/

/-- A key as its user knows it: with the types it was added with and the number of times. -/
structure Account where
  key : List Byte
  types : List ℕ
  links : ℕ
  owner : Bool
deriving DecidableEq, Repr

/-- The least recently used account other than the owner's goes. -/
def evict (accounts : List Account) : List Account :=
  (accounts.reverse.eraseP fun x => !x.owner).reverse

/-- A key is added: the accounts from the most recently used one on. -/
def addAccount (accounts : List Account) (key : List Byte) (type : ℕ) : List Account :=
  match accounts.find? fun x => x.key = key with
  | some x => { x with types := type :: x.types, links := x.links + 1 } ::
      accounts.eraseP fun x => x.key = key
  | none =>
    if accounts.length < maxNumAccountKeys then ⟨key, [type], 1, accounts.isEmpty⟩ :: accounts
    else ⟨key, [type], 1, false⟩ :: evict accounts

/-- A key in a slot of its own. -/
def padded (key : List Byte) : List Byte :=
  key ++ List.replicate (maxUserAccountKeyLen - key.length) 0

end Mh40.UserAccounts
