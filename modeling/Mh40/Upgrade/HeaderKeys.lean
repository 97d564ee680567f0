import Mh40.Upgrade.PartitionData

/-!
# Header keys

What `UpgradeSaveHeaderInPSKeys` leaves in the PS keys. The data falls into pieces that go to one
key each. A piece is stored unless the words that the key already holds reach to its end; the
words that it holds are at least those up to the start of the piece. So a piece is left out where
an earlier upgrade header has been, and when it is the single byte that completes a word.

* `position`: the place of the next byte, counted over all keys.
* `LeftOut`: whether the piece of some data that goes to a key is left out.
* `Saves`: what a call of `UpgradeSaveHeaderInPSKeys` does; `saves_saveHeaderInPSKeys`.
-/

namespace Mh40.Upgrade

open List Function

variable {ctx ctx' : PartitionData} {stored : List Cell} {offset : ℕ} {piece data : List UInt8}

/-! ## One key -/

/-- The byte at an index of a key. -/
def cellAt (stored : List Cell) (i : ℕ) : Cell := stored[i]?.join

/-- A key holds whole words, as many as `PSKEY_MAX_STORAGE_LENGTH` at most. -/
structure WholeWords (stored : List Cell) : Prop where
  even : stored.length % 2 = 0
  le : stored.length ≤ pskeyMaxStorageLengthInBytes

/-- The key after a piece. -/
def storeCells (stored : List Cell) (offset : ℕ) (piece : List UInt8) : List Cell :=
  if offset + piece.length > 2 * (stored.length / 2) then
    let cache := stored ++ List.replicate (pskeyMaxStorageLengthInBytes - stored.length) none
    (cache.take offset ++ piece.map some ++ cache.drop (offset + piece.length)).take
      (2 * ((offset + piece.length + 1) / 2))
  else stored

theorem storePiece_psKeys (ctx : PartitionData) (piece : List UInt8) :
    (storePiece ctx piece).flash.psKeys = Function.update ctx.flash.psKeys ctx.dfuHeaderPskey
      (storeCells (ctx.flash.psKeys ctx.dfuHeaderPskey) ctx.dfuHeaderPskeyOffset piece) := by
  by_cases h : ctx.dfuHeaderPskeyOffset + piece.length >
      2 * pskeyLength ctx.flash ctx.dfuHeaderPskey
  · have h' : ctx.dfuHeaderPskeyOffset + piece.length >
        2 * ((ctx.flash.psKeys ctx.dfuHeaderPskey).length / 2) := h
    rw [storePiece, if_pos h, storeCells, if_pos h']
    rfl
  · have h' : ¬ ctx.dfuHeaderPskeyOffset + piece.length >
        2 * ((ctx.flash.psKeys ctx.dfuHeaderPskey).length / 2) := h
    rw [storePiece, if_neg h, storeCells, if_neg h', update_eq_self]

theorem storeCells_of_le (hs : WholeWords stored) (h : offset + piece.length ≤ stored.length) :
    storeCells stored offset piece = stored := by
  have := hs.even
  rw [storeCells, if_neg (by omega)]

/-- A stored piece: what was in front of it stays, and a last byte of its last word is not set. -/
theorem storeCells_of_lt (hs : WholeWords stored) (ho : offset ≤ stored.length)
    (hle : offset + piece.length ≤ pskeyMaxStorageLengthInBytes)
    (h : stored.length < offset + piece.length) :
    storeCells stored offset piece = stored.take offset ++ piece.map some ++
      List.replicate ((offset + piece.length) % 2) none := by
  obtain ⟨heven, hmax⟩ := hs
  unfold pskeyMaxStorageLengthInBytes at *
  rw [storeCells, if_pos (by omega)]
  have htake : (stored ++ List.replicate (64 - stored.length) none).take offset =
      stored.take offset := take_append_of_le_length ho
  have hdrop : (stored ++ List.replicate (64 - stored.length) (none : Cell)).drop
      (offset + piece.length) = List.replicate (64 - (offset + piece.length)) none := by
    rw [drop_append, drop_eq_nil_of_le (by omega), nil_append,
      drop_replicate]
    congr 1
    omega
  simp only [pskeyMaxStorageLengthInBytes, htake, hdrop]
  have hfront : (stored.take offset ++ piece.map some).length = offset + piece.length := by
    simp
    omega
  rw [take_append, hfront, take_of_length_le (by omega), take_replicate]
  congr 2
  omega

variable (piece) in
theorem length_storeCells (hs : WholeWords stored) (ho : offset ≤ stored.length)
    (hle : offset + piece.length ≤ pskeyMaxStorageLengthInBytes) :
    (storeCells stored offset piece).length =
      if offset + piece.length ≤ stored.length then stored.length
      else 2 * ((offset + piece.length + 1) / 2) := by
  split_ifs with h
  · rw [storeCells_of_le hs h]
  · rw [storeCells_of_lt hs ho hle (by omega)]
    simp
    omega

variable (piece) in
theorem cellAt_storeCells (hs : WholeWords stored) (ho : offset ≤ stored.length)
    (hle : offset + piece.length ≤ pskeyMaxStorageLengthInBytes) (i : ℕ) :
    cellAt (storeCells stored offset piece) i =
      if offset ≤ i ∧ i < offset + piece.length ∧ ¬ offset + piece.length ≤ stored.length then
        piece[i - offset]?
      else cellAt stored i := by
  by_cases h : offset + piece.length ≤ stored.length
  · rw [storeCells_of_le hs h, if_neg (by simp [h])]
  · rw [storeCells_of_lt hs ho hle (by omega)]
    have hfront : (stored.take offset).length = offset := by simp [ho]
    simp only [cellAt]
    by_cases h1 : i < offset
    · rw [if_neg (by omega), append_assoc, getElem?_append_left (by omega),
        getElem?_take_of_lt h1]
    · by_cases h2 : i < offset + piece.length
      · rw [if_pos (by omega), append_assoc, getElem?_append_right (by omega), hfront,
          getElem?_append_left (by simp; omega), getElem?_map]
        cases hp : piece[i - offset]? <;> rfl
      · rw [if_neg (by omega), getElem?_append_right (by simp; omega),
          getElem?_eq_none (l := stored) (by omega), getElem?_replicate]
        split_ifs <;> rfl

variable (piece) in
theorem WholeWords.storeCells (hs : WholeWords stored) (ho : offset ≤ stored.length)
    (hle : offset + piece.length ≤ pskeyMaxStorageLengthInBytes) :
    WholeWords (storeCells stored offset piece) := by
  obtain ⟨heven, hmax⟩ := hs
  have hl := length_storeCells piece ⟨heven, hmax⟩ ho hle
  unfold pskeyMaxStorageLengthInBytes at *
  split_ifs at hl <;> constructor <;> (try unfold pskeyMaxStorageLengthInBytes) <;> omega

/-! ## All keys -/

/-- The keys that the headers are stored in. -/
def IsHeaderKey (key : ℕ) : Prop := dfuHeaderPskeyStart ≤ key ∧ key ≤ dfuHeaderPskeyEnd

instance (key : ℕ) : Decidable (IsHeaderKey key) := inferInstanceAs (Decidable (_ ∧ _))

/-- The context with another list of operations and other PS keys. -/
abbrev withKeys (ctx : PartitionData) (ops : List FlashOp) (psKeys : ℕ → List Cell) :
    PartitionData :=
  { ctx with ops, flash.psKeys := psKeys }

/-- A piece changes nothing but the current key. -/
theorem storePiece_eq (ctx : PartitionData) (piece : List UInt8) :
    ∃ ops cells, storePiece ctx piece =
      withKeys ctx ops (Function.update ctx.flash.psKeys ctx.dfuHeaderPskey cells) := by
  simp only [storePiece]
  split
  · exact ⟨_, _, rfl⟩
  · exact ⟨ctx.ops, ctx.flash.psKeys ctx.dfuHeaderPskey, by
      rw [update_eq_self]⟩

/-- The place of the next byte, counted over all keys. -/
def position (ctx : PartitionData) : ℕ := 64 * ctx.dfuHeaderPskey + ctx.dfuHeaderPskeyOffset

/-- The place behind the last key for headers. -/
def endPosition : ℕ := 64 * (dfuHeaderPskeyEnd + 1)

/-- The next byte goes to the end of what a key holds, or to a place inside of it. -/
structure KeysOk (ctx : PartitionData) : Prop where
  pskey_le : ctx.dfuHeaderPskey ≤ dfuHeaderPskeyEnd
  offset_lt : ctx.dfuHeaderPskeyOffset < 64
  wholeWords : ∀ key, IsHeaderKey key → WholeWords (ctx.flash.psKeys key)
  offset_le : IsHeaderKey ctx.dfuHeaderPskey →
    ctx.dfuHeaderPskeyOffset ≤ (ctx.flash.psKeys ctx.dfuHeaderPskey).length

/-- The context with other PS keys and another place for the next byte. -/
abbrev withHeader (ctx : PartitionData) (ops : List FlashOp) (psKeys : ℕ → List Cell)
    (dfuHeaderPskey dfuHeaderPskeyOffset : ℕ) : PartitionData :=
  { withKeys ctx ops psKeys with dfuHeaderPskey, dfuHeaderPskeyOffset }

/-- How much of a key is in front of the place `p`. -/
def filled (key p : ℕ) : ℕ := min (p - 64 * key) 64

/-- Whether the part of `n` bytes from the place `p` on that goes to a key of `len` bytes is left
out: the words of the key reach to its end, or those up to its start do. -/
def LeftOut (len key p n : ℕ) : Prop :=
  filled key (p + n) ≤ max len (2 * ((filled key p + 1) / 2))

/-- The data is in the header keys, but for the bytes that are lost. -/
structure Saves (ctx : PartitionData) (data : List UInt8) (lost : ℕ → ℕ → Prop)
    (ctx' : PartitionData) : Prop where
  frame : ∃ ops keys pskey offset, ctx' = withHeader ctx ops keys pskey offset
  position_eq : position ctx' = min (position ctx + data.length) endPosition
  offset_lt : ctx'.dfuHeaderPskeyOffset < 64
  wholeWords : ∀ key, IsHeaderKey key → WholeWords (ctx'.flash.psKeys key)
  length : ∀ key, IsHeaderKey key → (ctx'.flash.psKeys key).length =
    if position ctx < 64 * (key + 1) then
      max (ctx.flash.psKeys key).length
        (2 * ((filled key (position ctx + data.length) + 1) / 2))
    else (ctx.flash.psKeys key).length
  kept : ∀ key i, IsHeaderKey key → i < 64 → position ctx ≤ 64 * key + i →
    64 * key + i < position ctx + data.length → ¬ lost key i →
      cellAt (ctx'.flash.psKeys key) i = data[64 * key + i - position ctx]?
  others : ∀ key i, IsHeaderKey key → i < 64 →
    (64 * key + i < position ctx ∨ position ctx + data.length ≤ 64 * key + i ∨ lost key i) →
      cellAt (ctx'.flash.psKeys key) i = cellAt (ctx.flash.psKeys key) i

/-- After some data that does not reach the end, the next byte has its place. -/
theorem Saves.keysOk {lost : ℕ → ℕ → Prop} (h : Saves ctx data lost ctx')
    (hend : position ctx + data.length < endPosition) : KeysOk ctx' := by
  have hp := h.position_eq
  have ho := h.offset_lt
  unfold position endPosition dfuHeaderPskeyEnd at *
  refine ⟨by unfold dfuHeaderPskeyEnd; omega, ho, h.wholeWords, fun hkey => ?_⟩
  rw [h.length _ hkey]
  unfold filled position
  rw [if_pos (by omega)]
  omega

/-- Some data and what follows it. -/
theorem Saves.append {lost lost' : ℕ → ℕ → Prop} {ctx'' : PartitionData} {more : List UInt8}
    (h : Saves ctx data lost ctx') (hend : position ctx + data.length < endPosition)
    (h' : Saves ctx' more lost' ctx'') :
    Saves ctx (data ++ more)
      (fun key i => if 64 * key + i < position ctx + data.length then lost key i
        else lost' key i) ctx'' := by
  obtain ⟨ops, keys, pskey, off, rfl⟩ := h.frame
  obtain ⟨ops', keys', pskey', off', rfl⟩ := h'.frame
  have hp := h.position_eq
  rw [Nat.min_eq_left (by omega)] at hp
  refine ⟨⟨ops', keys', pskey', off', rfl⟩, ?_, h'.offset_lt, h'.wholeWords, ?_, ?_, ?_⟩
  · rw [h'.position_eq, hp, length_append, Nat.add_assoc]
  · intro key hkey
    rw [h'.length key hkey, h.length key hkey, hp, length_append]
    unfold filled
    split_ifs <;> omega
  · intro key i hkey hi h1 h2 hlost
    rw [length_append] at h2
    by_cases h3 : 64 * key + i < position ctx + data.length
    · rw [if_pos h3] at hlost
      rw [h'.others key i hkey hi (.inl (by omega)), h.kept key i hkey hi h1 h3 hlost,
        getElem?_append_left (by omega)]
    · rw [if_neg h3] at hlost
      rw [h'.kept key i hkey hi (by omega) (by omega) hlost,
        getElem?_append_right (by omega), hp]
      congr 1
      omega
  · intro key i hkey hi h1
    rw [length_append] at h1
    by_cases h3 : 64 * key + i < position ctx + data.length
    · rw [if_pos h3] at h1
      rw [h'.others key i hkey hi (.inl (by omega))]
      rcases h1 with h1 | h1 | h1
      · exact h.others key i hkey hi (.inl h1)
      · omega
      · exact h.others key i hkey hi (.inr (.inr h1))
    · rw [if_neg h3] at h1
      have h4 := h.others key i hkey hi (.inr (.inl (by omega)))
      rcases h1 with h1 | h1 | h1
      · omega
      · rw [h'.others key i hkey hi (.inr (.inl (by omega))), h4]
      · rw [h'.others key i hkey hi (.inr (.inr h1)), h4]

theorem Saves.congr {lost lost' : ℕ → ℕ → Prop} (h : Saves ctx data lost ctx')
    (hlost : ∀ key i, IsHeaderKey key → i < 64 → position ctx ≤ 64 * key + i →
      64 * key + i < position ctx + data.length → (lost key i ↔ lost' key i)) :
    Saves ctx data lost' ctx' := by
  refine ⟨h.frame, h.position_eq, h.offset_lt, h.wholeWords, h.length, ?_, ?_⟩
  · intro key i hkey hi h1 h2 hl
    exact h.kept key i hkey hi h1 h2 (mt (hlost key i hkey hi h1 h2).mp hl)
  · intro key i hkey hi hl
    by_cases hin : position ctx ≤ 64 * key + i ∧ 64 * key + i < position ctx + data.length
    · have := hlost key i hkey hi hin.1 hin.2
      exact h.others key i hkey hi (by tauto)
    · exact h.others key i hkey hi (by omega)

/-! ## Rounds -/

theorem dataWriteSize_eq (hk : KeysOk ctx) (n : ℕ) :
    dataWriteSize ctx n = min n (64 - ctx.dfuHeaderPskeyOffset) := by
  have := hk.offset_lt
  unfold dataWriteSize pskeyMaxStorageLengthInBytes
  split_ifs <;> omega

variable (data) in
/-- A piece that fits into the current key. -/
theorem saves_piece (hk : KeysOk ctx)
    (hfit : ctx.dfuHeaderPskeyOffset + data.length ≤ 64) :
    Saves ctx data (fun key _ => LeftOut (ctx.flash.psKeys key).length key (position ctx)
      data.length) (nextKey (savePiece ctx data)).2 := by
  obtain ⟨hle, ho, hwords, hoff⟩ := hk
  have hkeys : (nextKey (savePiece ctx data)).2.flash.psKeys = Function.update ctx.flash.psKeys
      ctx.dfuHeaderPskey (storeCells (ctx.flash.psKeys ctx.dfuHeaderPskey)
        ctx.dfuHeaderPskeyOffset data) := by
    rw [← storePiece_psKeys]
    unfold nextKey savePiece
    dsimp only
    split_ifs <;> rfl
  have hother : ∀ key, key ≠ ctx.dfuHeaderPskey →
      (nextKey (savePiece ctx data)).2.flash.psKeys key = ctx.flash.psKeys key :=
    fun key hne => by rw [hkeys, update_of_ne hne]
  have hcurrent : (nextKey (savePiece ctx data)).2.flash.psKeys ctx.dfuHeaderPskey =
      storeCells (ctx.flash.psKeys ctx.dfuHeaderPskey) ctx.dfuHeaderPskeyOffset data := by
    rw [hkeys, update_self]
  have hstored := fun hkey => WholeWords.storeCells data (hwords _ hkey) (hoff hkey)
    (by unfold pskeyMaxStorageLengthInBytes; omega)
  have hlength := fun hkey => length_storeCells data (hwords _ hkey) (hoff hkey)
    (by unfold pskeyMaxStorageLengthInBytes; omega)
  have hcells := fun hkey => cellAt_storeCells data (hwords _ hkey) (hoff hkey)
    (by unfold pskeyMaxStorageLengthInBytes; omega)
  constructor
  · obtain ⟨ops, cells, hs⟩ := storePiece_eq ctx data
    unfold nextKey savePiece
    rw [hs]
    dsimp only
    split_ifs <;> exact ⟨ops, _, _, _, rfl⟩
  · obtain ⟨ops, cells, hs⟩ := storePiece_eq ctx data
    unfold nextKey savePiece position endPosition
    rw [hs]
    unfold dfuHeaderPskeyEnd at *
    unfold pskeyMaxStorageLengthInBytes
    dsimp only
    split_ifs <;> dsimp only <;> omega
  · obtain ⟨ops, cells, hs⟩ := storePiece_eq ctx data
    unfold nextKey savePiece
    rw [hs]
    unfold pskeyMaxStorageLengthInBytes
    dsimp only
    split_ifs <;> dsimp only <;> omega
  · intro key hkey
    by_cases he : key = ctx.dfuHeaderPskey
    · subst he
      rw [hcurrent]
      exact hstored hkey
    · rw [hother key he]
      exact hwords key hkey
  · intro key hkey
    unfold filled position
    by_cases he : key = ctx.dfuHeaderPskey
    · subst he
      have := (hwords _ hkey).even
      have := hoff hkey
      rw [hcurrent, hlength hkey]
      split_ifs <;> omega
    · rw [hother key he]
      split_ifs <;> omega
  · intro key i hkey hi h1 h2 hlost
    unfold position at h1 h2 ⊢
    obtain rfl : key = ctx.dfuHeaderPskey := by omega
    have := (hwords _ hkey).even
    have := hoff hkey
    unfold LeftOut filled position at hlost
    rw [hcurrent, hcells hkey, if_pos (by omega)]
    congr 1
    omega
  · intro key i hkey hi h
    by_cases he : key = ctx.dfuHeaderPskey
    · subst he
      have := (hwords _ hkey).even
      have := hoff hkey
      unfold LeftOut filled position at h
      rw [hcurrent, hcells hkey, if_neg (by omega)]
    · rw [hother key he]

variable (data) in
theorem nextKey_rc (hk : KeysOk ctx) (hfit : ctx.dfuHeaderPskeyOffset + data.length ≤ 64) :
    (nextKey (savePiece ctx data)).1 =
      if position ctx + data.length < endPosition then .success else .noMemory := by
  obtain ⟨ops, cells, hs⟩ := storePiece_eq ctx data
  have := hk.pskey_le
  have := hk.offset_lt
  unfold nextKey savePiece position endPosition
  rw [hs]
  unfold dfuHeaderPskeyEnd at *
  unfold pskeyMaxStorageLengthInBytes
  dsimp only
  split_ifs <;> first | rfl | omega

/-- What does not fit into the last key goes nowhere. -/
theorem Saves.full {lost : ℕ → ℕ → Prop} (more : List UInt8) (h : Saves ctx data lost ctx')
    (hend : endPosition ≤ position ctx + data.length) : Saves ctx (data ++ more) lost ctx' := by
  have hkey_le : ∀ key, IsHeaderKey key → 64 * key + 64 ≤ position ctx + data.length := by
    rintro key ⟨-, hkey⟩
    unfold endPosition at hend
    omega
  refine ⟨h.frame, ?_, h.offset_lt, h.wholeWords, ?_, ?_, ?_⟩
  · rw [h.position_eq, length_append]
    omega
  · intro key hkey
    have := hkey_le key hkey
    rw [h.length key hkey, length_append]
    unfold filled
    split_ifs <;> omega
  · intro key i hkey hi h1 _ hlost
    have := hkey_le key hkey
    rw [h.kept key i hkey hi h1 (by omega) hlost, getElem?_append_left (by omega)]
  · intro key i hkey hi h1
    have := hkey_le key hkey
    rw [length_append] at h1
    refine h.others key i hkey hi ?_
    rcases h1 with h1 | h1 | h1
    · exact .inl h1
    · omega
    · exact .inr (.inr h1)

variable (data) in
theorem saves_saveRounds (n : ℕ) (hk : KeysOk ctx) (hn : data.length < n) :
    Saves ctx data (fun key _ => LeftOut (ctx.flash.psKeys key).length key (position ctx)
      data.length) (saveRounds n ctx data).2 ∧
    (saveRounds n ctx data).1 =
      if position ctx + data.length < endPosition then .success else .noMemory := by
  induction n generalizing ctx data with
  | zero => omega
  | succ n ih =>
    have ho := hk.offset_lt
    have hpk := hk.pskey_le
    have hsize := dataWriteSize_eq hk data.length
    rw [saveRounds]
    dsimp only
    by_cases hfit : ctx.dfuHeaderPskeyOffset + data.length ≤ 64
    · -- the last piece
      rw [Nat.min_eq_left (by omega)] at hsize
      have hs := saves_piece data hk hfit
      have hrc := nextKey_rc data hk hfit
      rw [hsize, take_length, drop_length, ← hrc]
      simp only [andThen, if_true]
      split_ifs with h
      · exact ⟨hs, h.symm⟩
      · exact ⟨hs, rfl⟩
    · rw [Nat.min_eq_right (by omega)] at hsize
      rw [hsize]
      set first := data.take (64 - ctx.dfuHeaderPskeyOffset) with hfirst
      set rest := data.drop (64 - ctx.dfuHeaderPskeyOffset) with hrest
      have hlen : first.length = 64 - ctx.dfuHeaderPskeyOffset := by
        rw [hfirst, length_take]
        omega
      have hlen' : first.length + rest.length = data.length := by
        rw [hfirst, hrest, ← length_append, take_append_drop]
      have hs := saves_piece first hk (by omega)
      have hrc := nextKey_rc first hk (by omega)
      have hdata : first ++ rest = data := take_append_drop _ _
      have hp : position ctx + first.length = 64 * (ctx.dfuHeaderPskey + 1) := by
        unfold position
        omega
      have hlast : ∀ key, filled key (position ctx + first.length) =
          filled key (position ctx + data.length) ∨ ctx.dfuHeaderPskey < key := by
        intro key
        unfold filled
        omega
      by_cases hend : position ctx + first.length < endPosition
      · rw [if_pos hend] at hrc
        have hk' := hs.keysOk hend
        have hp' := hs.position_eq
        rw [Nat.min_eq_left hend.le] at hp'
        obtain ⟨hsr, hrcr⟩ := ih rest hk' (by omega)
        rw [andThen, if_pos hrc, if_neg (ne_nil_of_length_pos (by omega))]
        refine ⟨?_, ?_⟩
        · have happ := hs.append hend hsr
          rw [hdata] at happ
          refine happ.congr fun key i hkey hi h1 h2 => ?_
          unfold LeftOut
          split_ifs with h3
          · rw [(hlast key).resolve_right (by omega)]
          · rw [hs.length key hkey, hp', Nat.add_assoc, hlen']
            unfold filled position
            rw [if_pos (by omega)]
            omega
        · rw [hrcr, hp', Nat.add_assoc, hlen']
      · have hend' : position ctx + first.length = endPosition := by
          unfold endPosition at hend ⊢
          omega
        rw [if_neg hend] at hrc
        rw [andThen, if_neg (by simp [hrc]), hrc, if_neg (by omega)]
        refine ⟨?_, rfl⟩
        have hfull := hs.full rest hend'.ge
        rw [hdata] at hfull
        refine hfull.congr fun key i hkey hi h1 h2 => ?_
        have := hkey.2
        unfold LeftOut
        rw [(hlast key).resolve_right (by unfold endPosition at hend'; omega)]

/-- **What `UpgradeSaveHeaderInPSKeys` does.** -/
theorem saves_saveHeaderInPSKeys (hk : KeysOk ctx) (data : List UInt8) :
    Saves ctx data (fun key _ => LeftOut (ctx.flash.psKeys key).length key (position ctx)
      data.length) (saveHeaderInPSKeys ctx data).2 ∧
    (saveHeaderInPSKeys ctx data).1 =
      if position ctx + data.length < endPosition then .success else .noMemory :=
  saves_saveRounds data _ hk (Nat.lt_succ_self _)

/-! ## Frame -/

theorem saveRounds_eq (n : ℕ) (ctx : PartitionData) (data : List UInt8) :
    ∃ ops keys pskey offset, (saveRounds n ctx data).2 = withHeader ctx ops keys pskey offset := by
  induction n generalizing ctx data with
  | zero => exact ⟨_, _, _, _, rfl⟩
  | succ n ih =>
    have hnext : ∀ piece, ∃ ops keys pskey offset, (nextKey (savePiece ctx piece)).2 =
        withHeader ctx ops keys pskey offset := by
      intro piece
      obtain ⟨ops, cells, hs⟩ := storePiece_eq ctx piece
      unfold nextKey savePiece
      rw [hs]
      dsimp only
      split_ifs <;>
        exact ⟨ops, Function.update ctx.flash.psKeys ctx.dfuHeaderPskey cells, _, _, rfl⟩
    rw [saveRounds]
    dsimp only
    obtain ⟨ops, keys, pskey, offset, hn⟩ := hnext (data.take (dataWriteSize ctx data.length))
    rw [andThen, hn]
    split_ifs
    · exact ⟨_, _, _, _, rfl⟩
    · exact ih _ _
    · exact ⟨ops, keys, pskey, offset, hn⟩

/-- Headers touch the PS keys and the place of the next header. -/
theorem saveHeaderInPSKeys_eq (ctx : PartitionData) (data : List UInt8) :
    ∃ ops keys pskey offset,
      (saveHeaderInPSKeys ctx data).2 = withHeader ctx ops keys pskey offset :=
  saveRounds_eq _ ctx data

end Mh40.Upgrade
