import Mh40.Upgrade.HeaderKeys

/-!
# Chunks in the header keys

What a sequence of chunks leaves in the header keys when they are empty at first.

* `LostAt`: the bytes that are left out. A chunk whose first byte completes a word on its own
  loses that byte: the length of the key, which counts the words, already covers it.
* `readBack_saveChunks`: the keys then hold all bytes of the chunks but for those.
* `saveChunks_stored`: chunks that the keys already hold change nothing.
* `saved_iff`: when a sequence of chunks is stored as it should be. The other case in which it is
  not is a total that fills the last key: it is reported as `UPGRADE_HOST_ERROR_NO_MEMORY`.
-/

namespace Mh40.Upgrade

open List

variable {ctx ctx' : PartitionData} {chunk : List UInt8} {chunks : List (List UInt8)} {n p : ℕ}

/-! ## Calls -/

/-- The calls of `UpgradeSaveHeaderInPSKeys` for some chunks, up to the first error. -/
def saveChunks : PartitionData → List (List UInt8) → HostErrorCode × PartitionData
  | ctx, [] => (.success, ctx)
  | ctx, chunk :: chunks =>
    andThen (saveHeaderInPSKeys ctx chunk) fun ctx => saveChunks ctx chunks

/-- How many keys there are for headers. -/
def headerKeys : ℕ := dfuHeaderPskeyEnd + 1 - dfuHeaderPskeyStart

/-- How many bytes the header keys can take. -/
def headerCapacity : ℕ := pskeyMaxStorageLengthInBytes * headerKeys

/-- The bytes of the header keys, in order. -/
def readBack (flash : Flash) : List Cell :=
  (List.range' dfuHeaderPskeyStart headerKeys).flatMap flash.psKeys

/-- The next byte goes to the byte `n` of the header keys. -/
def seek (ctx : PartitionData) (n : ℕ) : PartitionData :=
  { ctx with
    dfuHeaderPskey := dfuHeaderPskeyStart + n / pskeyMaxStorageLengthInBytes
    dfuHeaderPskeyOffset := n % pskeyMaxStorageLengthInBytes }

/-- The header keys are empty, and the next byte goes to the first of them. -/
structure EmptyKeys (ctx : PartitionData) : Prop where
  pskey : ctx.dfuHeaderPskey = dfuHeaderPskeyStart
  offset : ctx.dfuHeaderPskeyOffset = 0
  empty : ∀ key, IsHeaderKey key → ctx.flash.psKeys key = []

/-! ## Bytes that are left out -/

/-- The first of `n` bytes from byte `p` on is the second byte of a word, and the only one that
goes to its key. -/
def Completes (p n : ℕ) : Prop := p % 2 = 1 ∧ 0 < n ∧ (n = 1 ∨ p % 64 = 63)

instance (p n : ℕ) : Decidable (Completes p n) := inferInstanceAs (Decidable (_ ∧ _ ∧ _))

/-- No chunk completes a word with a single byte. -/
def Whole : ℕ → List (List UInt8) → Prop
  | _, [] => True
  | p, chunk :: chunks => ¬ Completes p chunk.length ∧ Whole (p + chunk.length) chunks

instance Whole.decidable : ∀ (p : ℕ) (chunks : List (List UInt8)), Decidable (Whole p chunks)
  | _, [] => .isTrue trivial
  | p, chunk :: chunks =>
    have := Whole.decidable (p + chunk.length) chunks
    inferInstanceAs (Decidable (_ ∧ _))

/-- Whether the chunks from byte `p` on leave out the byte `i`. -/
def LostAt : ℕ → List (List UInt8) → ℕ → Prop
  | _, [], _ => False
  | p, chunk :: chunks, i =>
    Completes p chunk.length ∧ i = p ∨ LostAt (p + chunk.length) chunks i

theorem LostAt.mem_range {i : ℕ} (h : LostAt p chunks i) :
    p ≤ i ∧ i < p + chunks.flatten.length := by
  induction chunks generalizing p with
  | nil => exact h.elim
  | cons chunk chunks ih =>
    rw [flatten_cons, length_append]
    rcases h with ⟨⟨-, h, -⟩, rfl⟩ | h
    · omega
    · have := ih h
      omega

theorem whole_iff (p : ℕ) (chunks : List (List UInt8)) :
    Whole p chunks ↔ ∀ i, ¬ LostAt p chunks i := by
  induction chunks generalizing p with
  | nil => exact ⟨fun _ _ h => h, fun _ => trivial⟩
  | cons chunk chunks ih =>
    rw [Whole, ih]
    constructor
    · rintro ⟨h, hw⟩ i (⟨hc, -⟩ | hl)
      · exact h hc
      · exact hw i hl
    · exact fun h => ⟨fun hc => h p (.inl ⟨hc, rfl⟩), fun i hl => h i (.inr hl)⟩

/-! ## Storing -/

/-- The place of the first byte, counted over all keys. -/
def startPosition : ℕ := 64 * dfuHeaderPskeyStart

theorem place_mem {key i : ℕ} (hkey : IsHeaderKey key) (hi : i < 64) :
    startPosition ≤ 64 * key + i ∧ 64 * key + i < startPosition + headerCapacity := by
  obtain ⟨h1, h2⟩ := hkey
  rw [show startPosition + headerCapacity = endPosition from rfl, endPosition, startPosition]
  omega

theorem isHeaderKey_of_lt {i : ℕ} (hi : i < headerCapacity) :
    IsHeaderKey (dfuHeaderPskeyStart + i / 64) ∧
      64 * (dfuHeaderPskeyStart + i / 64) + i % 64 = startPosition + i := by
  have hcap : headerCapacity = 64 * (dfuHeaderPskeyEnd + 1 - dfuHeaderPskeyStart) := rfl
  unfold startPosition IsHeaderKey
  omega

/-- `p` bytes went to the header keys so far. -/
structure HoldsBytes (ctx : PartitionData) (p : ℕ) : Prop where
  keysOk : KeysOk ctx
  position_eq : position ctx = startPosition + p
  length : ∀ key, IsHeaderKey key →
    (ctx.flash.psKeys key).length = 2 * ((filled key (startPosition + p) + 1) / 2)

theorem EmptyKeys.holdsBytes (h : EmptyKeys ctx) : HoldsBytes ctx 0 := by
  obtain ⟨hkey, hoff, hempty⟩ := h
  refine ⟨⟨?_, ?_, ?_, ?_⟩, ?_, ?_⟩
  · rw [hkey]
    decide
  · rw [hoff]
    decide
  · intro key hk
    rw [hempty key hk]
    exact ⟨rfl, Nat.zero_le _⟩
  · exact fun _ => hoff.le.trans (Nat.zero_le _)
  · rw [position, hkey, hoff]
    rfl
  · rintro key ⟨hk, hk'⟩
    rw [hempty key ⟨hk, hk'⟩]
    unfold filled startPosition
    simp
    omega

/-- Of a chunk, only a first byte that completes a word on its own is left out. -/
theorem leftOut_iff {key i : ℕ} (hkey : IsHeaderKey key) (hi : i < 64)
    (h1 : startPosition + p ≤ 64 * key + i) (h2 : 64 * key + i < startPosition + p + n) :
    LeftOut (2 * ((filled key (startPosition + p) + 1) / 2)) key (startPosition + p) n ↔
      Completes p n ∧ 64 * key + i - startPosition = p := by
  have := hkey.1
  unfold LeftOut filled Completes startPosition at *
  unfold dfuHeaderPskeyStart at *
  omega

section

variable (h : HoldsBytes ctx p)
include h

/-- A call stores a chunk but for the bytes that are left out. -/
theorem HoldsBytes.saves (chunk : List UInt8) :
    Saves ctx chunk (fun key i => Completes p chunk.length ∧ 64 * key + i - startPosition = p)
      (saveHeaderInPSKeys ctx chunk).2 := by
  refine (saves_saveHeaderInPSKeys h.keysOk chunk).1.congr fun key i hkey hi h1 h2 => ?_
  rw [h.position_eq] at h1 h2 ⊢
  rw [h.length key hkey]
  exact leftOut_iff hkey hi h1 h2

theorem HoldsBytes.rc (chunk : List UInt8) :
    (saveHeaderInPSKeys ctx chunk).1 =
      if p + chunk.length < headerCapacity then .success else .noMemory := by
  rw [(saves_saveHeaderInPSKeys h.keysOk chunk).2, h.position_eq]
  have : startPosition + p + chunk.length < endPosition ↔ p + chunk.length < headerCapacity := by
    rw [show endPosition = startPosition + headerCapacity from rfl]
    omega
  simp only [this]

theorem HoldsBytes.next (hlt : p + chunk.length < headerCapacity) :
    HoldsBytes (saveHeaderInPSKeys ctx chunk).2 (p + chunk.length) := by
  have hs := h.saves chunk
  have hend : position ctx + chunk.length < endPosition := by
    rw [h.position_eq, show endPosition = startPosition + headerCapacity from rfl]
    omega
  refine ⟨hs.keysOk hend, ?_, fun key hkey => ?_⟩
  · rw [hs.position_eq, Nat.min_eq_left hend.le, h.position_eq, Nat.add_assoc]
  · rw [hs.length key hkey, h.length key hkey, h.position_eq]
    unfold filled
    split_ifs <;> omega

/-- **What a sequence of chunks leaves in the keys.** -/
theorem saves_saveChunks (chunks : List (List UInt8)) :
    Saves ctx chunks.flatten (fun key i => LostAt p chunks (64 * key + i - startPosition))
      (saveChunks ctx chunks).2 ∧
    (saveChunks ctx chunks).1 =
      if p + chunks.flatten.length < headerCapacity then .success else .noMemory := by
  have hcap : endPosition = startPosition + headerCapacity := rfl
  induction chunks generalizing ctx p with
  | nil =>
    have hlt : p < headerCapacity := by
      have h1 := h.keysOk.pskey_le
      have h2 := h.keysOk.offset_lt
      have h3 := h.position_eq
      unfold position at h3
      unfold endPosition at hcap
      omega
    refine ⟨⟨⟨_, _, _, _, rfl⟩, ?_, h.keysOk.offset_lt, h.keysOk.wholeWords, ?_, ?_, ?_⟩, ?_⟩
    · change position ctx = _
      rw [h.position_eq]
      simp
      omega
    · intro key hkey
      rw [saveChunks, h.length key hkey, h.position_eq]
      simp
    · intro key i _ _ h1 h2 _
      rw [flatten_nil, length_nil] at h2
      omega
    · exact fun _ _ _ _ _ => rfl
    · rw [saveChunks, if_pos (by simpa using hlt)]
  | cons chunk chunks ih =>
    have hs := h.saves chunk
    have hrc := h.rc chunk
    rw [saveChunks, flatten_cons, length_append]
    by_cases hlt : p + chunk.length < headerCapacity
    · rw [if_pos hlt] at hrc
      obtain ⟨ihs, ihrc⟩ := ih (h.next hlt)
      rw [andThen, if_pos hrc]
      refine ⟨(hs.append (by rw [h.position_eq]; omega) ihs).congr fun key i hkey hi _ _ => ?_, ?_⟩
      · rw [LostAt, h.position_eq]
        have hplace := (place_mem hkey hi).1
        have hmem := fun hl : LostAt (p + chunk.length) chunks (64 * key + i - startPosition) =>
          hl.mem_range.1
        split_ifs with h3
        · exact ⟨.inl, Or.rec id fun hl => absurd (hmem hl) (by omega)⟩
        · exact ⟨.inr, Or.rec (fun hl => absurd hl.2 (by have := hl.1.2.1; omega)) id⟩
      · rw [ihrc, Nat.add_assoc]
    · -- the chunk fills the last key, and the others are not passed
      rw [if_neg hlt] at hrc
      rw [andThen, if_neg (by simp [hrc]), hrc, if_neg (by omega)]
      refine ⟨(hs.full chunks.flatten (by rw [h.position_eq]; omega)).congr
        fun key i hkey hi _ _ => ⟨.inl, Or.rec id fun hl => absurd hl.mem_range.1 ?_⟩, rfl⟩
      have := place_mem hkey hi
      omega

end

/-! ## Reading back -/

theorem eq_map_cellAt (stored : List Cell) :
    stored = (List.range stored.length).map (cellAt stored) := by
  refine ext_getElem (by simp) fun i h1 h2 => ?_
  rw [getElem_map, getElem_range, cellAt, getElem?_eq_getElem h1]
  rfl

/-- Keys that are filled one after the other, read in order. -/
theorem readBack_eq {flash : Flash} {m : ℕ} (hlen : ∀ key, IsHeaderKey key →
    (flash.psKeys key).length = min (startPosition + m - 64 * key) 64) :
    readBack flash = (List.range (min m headerCapacity)).map fun i =>
      cellAt (flash.psKeys (dfuHeaderPskeyStart + i / 64)) (i % 64) := by
  have hprefix : ∀ j ≤ headerKeys,
      (List.range' dfuHeaderPskeyStart j).flatMap flash.psKeys =
        (List.range (min m (64 * j))).map fun i =>
          cellAt (flash.psKeys (dfuHeaderPskeyStart + i / 64)) (i % 64) := by
    intro j hj
    induction j with
    | zero => simp
    | succ j ih =>
      have hkey : IsHeaderKey (dfuHeaderPskeyStart + j) := by
        unfold headerKeys at hj
        unfold IsHeaderKey
        omega
      have hl := hlen _ hkey
      unfold startPosition at hl
      rw [range'_1_concat, flatMap_append, ih (by omega), flatMap_singleton,
        eq_map_cellAt (flash.psKeys (dfuHeaderPskeyStart + j)),
        show min m (64 * (j + 1)) = min m (64 * j) +
          (flash.psKeys (dfuHeaderPskeyStart + j)).length by omega,
        range_add, map_append, List.map_map]
      congr 1
      refine map_congr_left fun i hi => ?_
      rw [mem_range] at hi
      have h1 : (min m (64 * j) + i) / 64 = j := by omega
      have h2 : (min m (64 * j) + i) % 64 = i := by omega
      simp only [Function.comp_apply, h1, h2]
  exact hprefix headerKeys le_rfl

/-- Some data in whole words; the rest of its last word is not set. -/
theorem map_getElem?_eq (data : List UInt8) :
    (List.range (2 * ((data.length + 1) / 2))).map (data[·]?) =
      data.map some ++ List.replicate (data.length % 2) none := by
  refine ext_getElem (by simp; omega) fun i h1 h2 => ?_
  rw [getElem_map, getElem_range]
  by_cases hi : i < data.length
  · rw [getElem_append_left (by simpa using hi), getElem_map,
      getElem?_eq_getElem hi]
  · rw [getElem_append_right (by simpa using hi), getElem_replicate,
      getElem?_eq_none (by omega)]

/-- **The bytes in the keys are those of the chunks, but for the ones that are left out.** -/
theorem readBack_saveChunks (h : EmptyKeys ctx) (chunks : List (List UInt8))
    (hfit : chunks.flatten.length ≤ headerCapacity) :
    ∃ cell : ℕ → Cell,
      readBack (saveChunks ctx chunks).2.flash =
        (List.range (2 * ((chunks.flatten.length + 1) / 2))).map cell ∧
      (∀ i < headerCapacity, ¬ LostAt 0 chunks i → cell i = chunks.flatten[i]?) ∧
      ∀ i < headerCapacity, LostAt 0 chunks i → cell i = none := by
  have hb := h.holdsBytes
  have hs := (saves_saveChunks hb chunks).1
  have hcap : 2 * ((chunks.flatten.length + 1) / 2) ≤ headerCapacity := by
    have : headerCapacity % 2 = 0 := rfl
    omega
  refine ⟨_, (readBack_eq (m := 2 * ((chunks.flatten.length + 1) / 2)) ?_).trans
    (by rw [Nat.min_eq_left hcap]), ?_, ?_⟩
  · intro key hkey
    have hplace := place_mem hkey (i := 63) (by omega)
    rw [hs.length key hkey, hb.position_eq, h.empty key hkey, length_nil]
    have heven : startPosition % 2 = 0 := rfl
    unfold filled
    split_ifs <;> omega
  · intro i hi hlost
    obtain ⟨hkey, hplace⟩ := isHeaderKey_of_lt hi
    by_cases hin : i < chunks.flatten.length
    · rw [hs.kept _ _ hkey (Nat.mod_lt _ (by omega)) (by rw [hb.position_eq]; omega)
        (by rw [hb.position_eq]; omega) (by rwa [hplace, Nat.add_sub_cancel_left]), hplace,
        hb.position_eq, Nat.add_zero, Nat.add_sub_cancel_left]
    · rw [hs.others _ _ hkey (Nat.mod_lt _ (by omega))
        (.inr (.inl (by rw [hb.position_eq]; omega))), h.empty _ hkey,
        getElem?_eq_none (by omega)]
      rfl
  · intro i hi hlost
    obtain ⟨hkey, hplace⟩ := isHeaderKey_of_lt hi
    rw [hs.others _ _ hkey (Nat.mod_lt _ (by omega))
      (.inr (.inr (by rwa [hplace, Nat.add_sub_cancel_left]))), h.empty _ hkey]
    rfl

/-! ## Storing again -/

/-- The header keys hold the bytes up to the place `q`. -/
structure Covers (flash : Flash) (q : ℕ) : Prop where
  le : q ≤ endPosition
  even : ∀ key, IsHeaderKey key → (flash.psKeys key).length % 2 = 0
  filled_le : ∀ key, IsHeaderKey key → filled key q ≤ (flash.psKeys key).length

/-- The context with another place for the next byte. -/
abbrev withPlace (ctx : PartitionData) (dfuHeaderPskey dfuHeaderPskeyOffset : ℕ) :
    PartitionData :=
  { ctx with dfuHeaderPskey, dfuHeaderPskeyOffset }

/-- The next byte goes into the header keys or right behind them. -/
structure Placed (ctx : PartitionData) : Prop where
  start_le : dfuHeaderPskeyStart ≤ ctx.dfuHeaderPskey
  offset_lt : ctx.dfuHeaderPskeyOffset < 64

variable {q : ℕ} {piece data : List UInt8}

theorem position_seek (ctx : PartitionData) (n : ℕ) :
    position (seek ctx n) = startPosition + n := by
  change 64 * (dfuHeaderPskeyStart + n / 64) + n % 64 = 64 * dfuHeaderPskeyStart + n
  omega

/-- A piece that the current key holds is not stored again. -/
theorem storePiece_stored (hc : Covers ctx.flash q) (hp : Placed ctx)
    (hq : position ctx + piece.length ≤ q) (hfit : ctx.dfuHeaderPskeyOffset + piece.length ≤ 64) :
    storePiece ctx piece = ctx := by
  refine if_neg ?_
  unfold pskeyLength
  have hend := hc.le
  have hstart := hp.start_le
  unfold position at hq
  by_cases hkey : IsHeaderKey ctx.dfuHeaderPskey
  · have heven := hc.even _ hkey
    have hle := hc.filled_le _ hkey
    unfold filled at hle
    omega
  · unfold IsHeaderKey at hkey
    unfold endPosition at hend
    omega

/-- A round with such a piece changes nothing but the place of the next byte. -/
theorem round_stored (piece : List UInt8) (hc : Covers ctx.flash q) (hp : Placed ctx)
    (hq : position ctx + piece.length ≤ q) (hfit : ctx.dfuHeaderPskeyOffset + piece.length ≤ 64) :
    ∃ pskey offset, (nextKey (savePiece ctx piece)).2 = withPlace ctx pskey offset ∧
      Placed (withPlace ctx pskey offset) ∧ 64 * pskey + offset = position ctx + piece.length ∧
      ((nextKey (savePiece ctx piece)).1 = .success ∨ 64 * pskey + offset = endPosition) := by
  have hend := hc.le
  have hstart := hp.start_le
  unfold position at hq
  have hsave : savePiece ctx piece =
      withPlace ctx ctx.dfuHeaderPskey (ctx.dfuHeaderPskeyOffset + piece.length) := by
    rw [savePiece, storePiece_stored hc hp hq hfit]
  rw [hsave, nextKey]
  unfold endPosition pskeyMaxStorageLengthInBytes at *
  dsimp only
  unfold position
  split_ifs with h1 h2
  · exact ⟨_, _, rfl, ⟨Nat.le_succ_of_le hstart, Nat.succ_pos _⟩, by omega, .inr (by omega)⟩
  · exact ⟨_, _, rfl, ⟨Nat.le_succ_of_le hstart, Nat.succ_pos _⟩, by omega, .inl rfl⟩
  · exact ⟨_, _, rfl, ⟨hstart, lt_of_le_of_ne hfit h1⟩, by omega, .inl rfl⟩

theorem saveRounds_stored (n : ℕ) (ctx : PartitionData) (data : List UInt8)
    (hc : Covers ctx.flash q) (hp : Placed ctx)
    (hq : position ctx + data.length ≤ q) (hn : data.length < n) :
    ∃ pskey offset, (saveRounds n ctx data).2 = withPlace ctx pskey offset ∧
      Placed (withPlace ctx pskey offset) ∧ 64 * pskey + offset = position ctx + data.length ∧
      ((saveRounds n ctx data).1 = .success ∨ 64 * pskey + offset = endPosition) := by
  induction n generalizing ctx data with
  | zero => omega
  | succ n ih =>
    have ho := hp.offset_lt
    have hsize : dataWriteSize ctx data.length =
        min data.length (64 - ctx.dfuHeaderPskeyOffset) := by
      unfold dataWriteSize pskeyMaxStorageLengthInBytes
      split_ifs <;> omega
    rw [saveRounds]
    dsimp only
    set size := dataWriteSize ctx data.length with hs
    have htake : (data.take size).length = size := by
      rw [length_take]
      omega
    obtain ⟨pskey, offset, he, hp', hpos, hrc⟩ :=
      round_stored (data.take size) hc hp (by omega) (by omega)
    rw [htake] at hpos
    by_cases hrest : data.drop size = []
    · have hlen : data.length = size := by
        have := drop_eq_nil_iff.mp hrest
        omega
      have hround : andThen (nextKey (savePiece ctx (data.take size)))
          (fun ctx => if data.drop size = [] then (.success, ctx)
            else saveRounds n ctx (data.drop size)) = nextKey (savePiece ctx (data.take size)) := by
        rw [andThen]
        split_ifs with h
        · exact Prod.ext h.symm rfl
        · rfl
      rw [hlen, hround]
      exact ⟨pskey, offset, he, hp', hpos, hrc⟩
    · have hlt : size < data.length := by
        by_contra h
        exact hrest (drop_eq_nil_of_le (by omega))
      have hend := hc.le
      rw [andThen, if_pos (hrc.resolve_right (by omega)), if_neg hrest, he]
      have hmore : position (withPlace ctx pskey offset) + (data.drop size).length =
          position ctx + data.length := by
        rw [position, length_drop, hpos]
        omega
      obtain ⟨pskey', offset', he', hp'', hpos', hrc'⟩ :=
        ih (withPlace ctx pskey offset) (data.drop size) hc hp' (by omega)
          (by rw [length_drop]; omega)
      exact ⟨pskey', offset', he', hp'', by rw [hpos', hmore], hrc'⟩

/-- **Chunks that the keys hold already change nothing.** -/
theorem saveChunks_stored (ctx : PartitionData) (chunks : List (List UInt8))
    (hc : Covers ctx.flash q) (hp : Placed ctx)
    (hq : position ctx + chunks.flatten.length ≤ q) :
    ∃ pskey offset, (saveChunks ctx chunks).2 = withPlace ctx pskey offset ∧
      64 * pskey + offset = position ctx + chunks.flatten.length := by
  induction chunks generalizing ctx with
  | nil => exact ⟨_, _, rfl, rfl⟩
  | cons chunk chunks ih =>
    rw [flatten_cons, length_append] at hq ⊢
    rw [saveChunks]
    obtain ⟨pskey, offset, he, hp', hpos, hrc⟩ :=
      saveRounds_stored (chunk.length + 1) ctx chunk hc hp (by omega) (by omega)
    rw [← saveHeaderInPSKeys] at he hrc
    by_cases h : (saveHeaderInPSKeys ctx chunk).1 = .success
    · rw [andThen, if_pos h, he]
      obtain ⟨pskey', offset', he', hpos'⟩ := ih (withPlace ctx pskey offset) hc hp'
        (by rw [position, hpos]; omega)
      exact ⟨pskey', offset', he', by rw [hpos', position, hpos]; omega⟩
    · -- the last key is full, and the chunks behind are empty
      have hend := hc.le
      have hfull := hrc.resolve_left h
      rw [andThen, if_neg h]
      exact ⟨pskey, offset, he, by omega⟩

/-! ## When the chunks are stored as they should be -/

/-- What the calls for a sequence of chunks should do. -/
structure Saved (ctx : PartitionData) (chunks : List (List UInt8)) : Prop where
  /-- What fits is stored, byte by byte, and the rest of the last word is not set. -/
  stored : chunks.flatten.length ≤ headerCapacity → (saveChunks ctx chunks).1 = .success ∧
    readBack (saveChunks ctx chunks).2.flash =
      chunks.flatten.map some ++ List.replicate (chunks.flatten.length % 2) none
  /-- Bytes that are stored, passed again from the place of the first of them on in chunks of any
  lengths, change nothing but the place of the next byte. -/
  again : ∀ front chunks', front ++ chunks'.flatten <+: chunks.flatten.take headerCapacity →
    ∃ pskey offset, (saveChunks (seek (saveChunks ctx chunks).2 front.length) chunks').2 =
        withPlace (saveChunks ctx chunks).2 pskey offset ∧
      64 * pskey + offset = startPosition + (front ++ chunks'.flatten).length
  /-- It is reported when the chunks do not fit. -/
  noMemory : (saveChunks ctx chunks).1 = .noMemory ↔ headerCapacity < chunks.flatten.length

theorem covers_saveChunks (h : EmptyKeys ctx) (chunks : List (List UInt8)) :
    Covers (saveChunks ctx chunks).2.flash
      (startPosition + min chunks.flatten.length headerCapacity) := by
  have hs := (saves_saveChunks h.holdsBytes chunks).1
  have hpos := h.holdsBytes.position_eq
  refine ⟨?_, fun key hkey => (hs.wholeWords key hkey).even, fun key hkey => ?_⟩
  · rw [show endPosition = startPosition + headerCapacity from rfl]
    omega
  · have := place_mem hkey (i := 63) (by omega)
    rw [hs.length key hkey, h.empty key hkey, hpos]
    unfold filled
    rw [if_pos (by omega)]
    omega

theorem again_saveChunks (h : EmptyKeys ctx) {front : List UInt8} {chunks' : List (List UInt8)}
    (hpre : front ++ chunks'.flatten <+: chunks.flatten.take headerCapacity) :
    ∃ pskey offset, (saveChunks (seek (saveChunks ctx chunks).2 front.length) chunks').2 =
        withPlace (saveChunks ctx chunks).2 pskey offset ∧
      64 * pskey + offset = startPosition + (front ++ chunks'.flatten).length := by
  have hlen := hpre.length_le
  rw [length_append, length_take] at hlen
  obtain ⟨pskey, offset, he, hpos⟩ := saveChunks_stored
    (seek (saveChunks ctx chunks).2 front.length) chunks' (covers_saveChunks h chunks)
    ⟨Nat.le_add_right _ _, Nat.mod_lt _ (by decide)⟩ (by rw [position_seek]; omega)
  exact ⟨pskey, offset, he, by rw [hpos, position_seek, length_append, Nat.add_assoc]⟩

/-- Nothing is left out exactly when no chunk completes a word with a single byte. -/
theorem readBack_eq_iff (h : EmptyKeys ctx) (hfit : chunks.flatten.length ≤ headerCapacity) :
    readBack (saveChunks ctx chunks).2.flash =
        chunks.flatten.map some ++ List.replicate (chunks.flatten.length % 2) none ↔
      Whole 0 chunks := by
  obtain ⟨cell, hread, hkept, hlost⟩ := readBack_saveChunks h chunks hfit
  have hcap : 2 * ((chunks.flatten.length + 1) / 2) ≤ headerCapacity := by
    have : headerCapacity % 2 = 0 := rfl
    omega
  rw [hread, ← map_getElem?_eq, map_inj_left, whole_iff]
  constructor
  · intro heq i hl
    have hi := hl.mem_range.2
    rw [Nat.zero_add] at hi
    have := heq i (mem_range.mpr (by omega))
    rw [hlost i (by omega) hl, getElem?_eq_getElem hi] at this
    cases this
  · intro hno i hi
    rw [mem_range] at hi
    exact hkept i (by omega) (hno i)

/-- **When the headers are saved.** The total must not fill the last key, and where it fits, no
chunk completes a word with a single byte. -/
theorem saved_iff (h : EmptyKeys ctx) (chunks : List (List UInt8)) :
    Saved ctx chunks ↔ chunks.flatten.length ≠ headerCapacity ∧
      (chunks.flatten.length ≤ headerCapacity → Whole 0 chunks) := by
  have hrc := (saves_saveChunks h.holdsBytes chunks).2
  rw [Nat.zero_add] at hrc
  constructor
  · intro hs
    refine ⟨fun heq => ?_, fun hfit => (readBack_eq_iff h hfit).mp (hs.stored hfit).2⟩
    rw [if_neg (by omega)] at hrc
    have := hs.noMemory.mp hrc
    omega
  · rintro ⟨hne, hw⟩
    refine ⟨fun hfit => ⟨?_, (readBack_eq_iff h hfit).mpr (hw hfit)⟩,
      fun front chunks' hpre => again_saveChunks h hpre, ?_⟩
    · rw [hrc, if_pos (by omega)]
    · rw [hrc]
      split_ifs with hlt
      · exact iff_of_false (by decide) (by omega)
      · exact iff_of_true rfl (by omega)

/-- An empty device. -/
theorem emptyKeys_fresh : EmptyKeys (seek (fresh ⟨1, 0⟩ 1 0 fun _ => []).ctx 0) :=
  ⟨rfl, rfl, fun _ hkey => if_pos hkey⟩

/-- A header of 3 bytes in chunks of two and one. -/
theorem saved_two_one : Saved (seek (fresh ⟨1, 0⟩ 1 0 fun _ => []).ctx 0) [[1, 2], [3]] :=
  (saved_iff emptyKeys_fresh _).mpr (by decide)

/-- The second of two single bytes is not stored. -/
theorem not_saved_bytes : ¬ Saved (seek (fresh ⟨1, 0⟩ 1 0 fun _ => []).ctx 0) [[1], [2]] := by
  intro h
  have := (h.stored (by decide)).2
  revert this
  decide +kernel

end Mh40.Upgrade
