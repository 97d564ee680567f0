import Mh40.A2dp.SbcAndAac

/-!
# Codec negotiation

The selections of MPEG-1,2 audio, which is driven by tables, and of aptX Adaptive, and the
negotiation with all four codecs.

* `parseTable_field`: a table for one field keeps the first bit that both sides have.
* `parseTable_rate`: the table of bit rates leaves a common one.
* **`right_iff_permits`**: after a check that passes, the selection is a choice of both sides, which
  the acceptor accepts, exactly when `Permits`.
-/

namespace Mh40.A2dp

open Lib Lib.Choice List Option

variable {l r f : Octet} {ls rs : Caps} {i k : ℕ} {codec : Codec}

/-! ## MPEG-1,2 audio -/

variable {localCaps remoteCaps : Caps} {row : Mp3Row} {bits : List ℕ} {d : ℕ}

/-- Both conditions of a row are on one octet, which is masked there. -/
structure FieldRow (i : ℕ) (test keep : Octet) (row : Mp3Row) : Prop where
  remote : capsIndex row.ifRemote = i ∧ capsMask row.ifRemote = test
  locally : capsIndex row.ifLocal = i ∧ capsMask row.ifLocal = test
  keep : capsIndex row.keep = i ∧ capsMask row.keep = keep
  rate : row.keepRate = 0xffff

instance (i : ℕ) (test keep : Octet) (row : Mp3Row) : Decidable (FieldRow i test keep row) :=
  decidable_of_iff ((capsIndex row.ifRemote = i ∧ capsMask row.ifRemote = test) ∧
    (capsIndex row.ifLocal = i ∧ capsMask row.ifLocal = test) ∧
    (capsIndex row.keep = i ∧ capsMask row.keep = keep) ∧ row.keepRate = 0xffff)
    ⟨fun h => ⟨h.1, h.2.1, h.2.2.1, h.2.2.2⟩, fun h => ⟨h.1, h.2, h.3, h.4⟩⟩

theorem rowMatches_eq {test : Octet} (hremote : capsIndex row.ifRemote = i ∧ capsMask row.ifRemote = test)
    (hlocal : capsIndex row.ifLocal = i ∧ capsMask row.ifLocal = test)
    (hl : localCaps[i]? = some l) (hr : remoteCaps[i]? = some r) :
    rowMatches row localCaps remoteCaps = some (decide (r &&& test ≠ 0 ∧ l &&& test ≠ 0)) := by
  rw [rowMatches, hremote.1, hremote.2, hlocal.1, hlocal.2, hl, hr]
  show (if r &&& test = 0 then some false else some (l &&& test != 0)) = _
  by_cases hz : r &&& test = 0
  · rw [if_pos hz]
    exact congrArg some (decide_eq_false fun hc => hc.1 hz).symm
  · rw [if_neg hz]
    refine congrArg some (Bool.eq_iff_iff.mpr ?_)
    rw [bne_iff_ne, decide_eq_true_eq]
    exact (and_iff_right hz).symm

/-- The condition of a row for one bit. -/
theorem rowMatches_bit (hremote : capsIndex row.ifRemote = i ∧ capsMask row.ifRemote = 1#8 <<< k)
    (hlocal : capsIndex row.ifLocal = i ∧ capsMask row.ifLocal = 1#8 <<< k)
    (hl : localCaps[i]? = some l) (hr : remoteCaps[i]? = some r) :
    rowMatches row localCaps remoteCaps = some (decide (Has (r &&& l) k)) := by
  rw [rowMatches_eq hremote hlocal hl hr]
  refine congrArg some (decide_eq_decide.mpr ?_)
  rw [and_single_ne_zero_iff, and_single_ne_zero_iff, has_and]

theorem parseTable_cons {rows : List Mp3Row} {found : Bool}
    (h : rowMatches row localCaps remoteCaps = some found) :
    parseTable localCaps (row :: rows) remoteCaps =
      if found then applyRow row localCaps remoteCaps else parseTable localCaps rows remoteCaps := by
  rw [parseTable, h]
  rfl

theorem FieldRow.applyRow {test keep : Octet} (h : FieldRow i test keep row)
    (hr : remoteCaps[i]? = some r) :
    applyRow row localCaps remoteCaps = some (remoteCaps.set i (r &&& keep)) := by
  rw [A2dp.applyRow, h.keep.1, h.keep.2, andByte, hr, h.rate]
  rfl

/-- A table of rows for the bits of one field, and a last one that always holds. -/
theorem parseTable_field (rows : List Mp3Row) (bits : List ℕ) {last : Mp3Row}
    (hrows : List.Forall₂ (fun row b => FieldRow i (1#8 <<< b) (keepOnly f b) row) rows bits)
    (hlast : FieldRow i 0xff (keepOnly f d) last) (hl : localCaps[i]? = some l)
    (hr : remoteCaps[i]? = some r) (hover : l &&& f &&& (r &&& f) ≠ 0) :
    parseTable localCaps (rows ++ [last]) remoteCaps =
      some (remoteCaps.set i (r &&& keepOnly f (pick bits d (r &&& l)))) := by
  induction hrows with
  | nil =>
    obtain ⟨j, hj, hj'⟩ := and_ne_zero_iff.mp hover
    have hall : ∀ b : Octet, b &&& 0xff = b := fun b => BitVec.and_allOnes
    have hfound : r &&& 0xff ≠ 0 ∧ l &&& 0xff ≠ 0 := by
      rw [hall, hall]
      exact ⟨ne_zero_iff.mpr ⟨j, (has_and.mp hj').1⟩, ne_zero_iff.mpr ⟨j, (has_and.mp hj).1⟩⟩
    have hmatch := rowMatches_eq hlast.remote hlast.locally hl hr
    rw [decide_eq_true hfound] at hmatch
    exact (parseTable_cons hmatch).trans (hlast.applyRow hr)
  | @cons row b rows bits hrow _ ih =>
    have hmatch := rowMatches_bit hrow.remote hrow.locally hl hr
    refine (parseTable_cons hmatch).trans ?_
    rw [pick_cons]
    by_cases hb : Has (r &&& l) b
    · rw [if_pos hb, if_pos (decide_eq_true hb)]
      exact hrow.applyRow hr
    · rw [if_neg hb, if_neg (by simpa using hb)]
      exact ih

/-- A row of the table of bit rates, for one bit of one of two octets. -/
structure RateRow (row : Mp3Row) (bit : ℕ × ℕ) : Prop where
  remote : capsIndex row.ifRemote = bit.1 ∧ capsMask row.ifRemote = 1#8 <<< bit.2
  locally : capsIndex row.ifLocal = bit.1 ∧ capsMask row.ifLocal = 1#8 <<< bit.2
  octets : capsIndex row.keep = 6 ∧ capsIndex row.keepRate = 7
  rate : row.keepRate ≠ 0xffff
  keeps : bit.1 = 6 ∧ bit.2 < 7 ∧ Has (capsMask row.keep) bit.2 ∨
    bit.1 = 7 ∧ Has (capsMask row.keepRate) bit.2

instance (row : Mp3Row) (bit : ℕ × ℕ) : Decidable (RateRow row bit) :=
  decidable_of_iff ((capsIndex row.ifRemote = bit.1 ∧ capsMask row.ifRemote = 1#8 <<< bit.2) ∧
    (capsIndex row.ifLocal = bit.1 ∧ capsMask row.ifLocal = 1#8 <<< bit.2) ∧
    (capsIndex row.keep = 6 ∧ capsIndex row.keepRate = 7) ∧ row.keepRate ≠ 0xffff ∧
    (bit.1 = 6 ∧ bit.2 < 7 ∧ Has (capsMask row.keep) bit.2 ∨
      bit.1 = 7 ∧ Has (capsMask row.keepRate) bit.2))
    ⟨fun h => ⟨h.1, h.2.1, h.2.2.1, h.2.2.2.1, h.2.2.2.2⟩, fun h => ⟨h.1, h.2, h.3, h.4, h.5⟩⟩

theorem has_mp3BitRate_high {b6 b7 : Octet} (h : Has b6 i) (hi : i < 7) : Has (mp3BitRate b6 b7) (i + 8) := by
  have hmask : ∀ j < 7, Has 0x7f#32 j := by decide
  refine has_or.mpr (.inl ?_)
  have hand : Has (unsigned b6 &&& 0x7f) i := has_and.mpr ⟨has_unsigned.mpr h, hmask i hi⟩
  unfold Has at hand ⊢
  rw [BitVec.getLsbD_shiftLeft, Nat.add_sub_cancel, hand, decide_eq_true (by omega : i + 8 < 32),
    decide_eq_false (by omega : ¬ i + 8 < 8)]
  rfl

theorem has_mp3BitRate_low {b6 b7 : Octet} (h : Has b7 i) : Has (mp3BitRate b6 b7) i := by
  have hmask : ∀ j < 8, Has 0xff#32 j := by decide
  exact has_or.mpr (.inr (has_and.mpr ⟨has_unsigned.mpr h, hmask i h.lt⟩))

/-- A bit rate that both sides have is left, and nothing else is changed. -/
theorem parseTable_rate {rows : List Mp3Row} {bits : List (ℕ × ℕ)}
    (hrows : List.Forall₂ RateRow rows bits) (l0 l1 l2 l3 l4 l5 : Octet) (ls : Caps)
    (r0 r1 r2 r3 r4 r5 : Octet) (rs : Caps) {l6 l7 r6 r7 : Octet}
    (hover : mp3BitRate l6 l7 &&& mp3BitRate r6 r7 ≠ 0) :
    ∃ x6 x7, parseTable (l0 :: l1 :: l2 :: l3 :: l4 :: l5 :: l6 :: l7 :: ls) rows
        (r0 :: r1 :: r2 :: r3 :: r4 :: r5 :: r6 :: r7 :: rs) =
          some (r0 :: r1 :: r2 :: r3 :: r4 :: r5 :: x6 :: x7 :: rs) ∧
      ∃ i, Has (mp3BitRate l6 l7) i ∧ Has (mp3BitRate r6 r7) i ∧ Has (mp3BitRate x6 x7) i := by
  induction hrows with
  | nil =>
    obtain ⟨i, hl, hr⟩ := and_ne_zero_iff.mp hover
    exact ⟨r6, r7, rfl, i, hl, hr, hr⟩
  | @cons row bit rows bits hrow _ ih =>
    obtain ⟨i, k⟩ := bit
    have happly : applyRow row (l0 :: l1 :: l2 :: l3 :: l4 :: l5 :: l6 :: l7 :: ls)
        (r0 :: r1 :: r2 :: r3 :: r4 :: r5 :: r6 :: r7 :: rs) = some (r0 :: r1 :: r2 :: r3 :: r4 :: r5 ::
          (r6 &&& capsMask row.keep &&& (l6 ||| 0x7f)) :: (r7 &&& capsMask row.keepRate) :: rs) := by
      rw [applyRow, hrow.octets.1, hrow.octets.2]
      exact if_neg hrow.rate
    obtain ⟨rfl, hk, hkeep⟩ | ⟨rfl, hkeep⟩ := hrow.keeps
    · have hmatch : rowMatches row (l0 :: l1 :: l2 :: l3 :: l4 :: l5 :: l6 :: l7 :: ls)
          (r0 :: r1 :: r2 :: r3 :: r4 :: r5 :: r6 :: r7 :: rs) = some (decide (Has (r6 &&& l6) k)) :=
        rowMatches_bit hrow.remote hrow.locally rfl rfl
      rw [parseTable_cons hmatch, happly]
      by_cases hb : Has (r6 &&& l6) k
      · have hmask : ∀ j < 7, Has 0x7f#8 j := by decide
        obtain ⟨hr, hl⟩ := has_and.mp hb
        rw [if_pos (decide_eq_true hb)]
        exact ⟨_, _, rfl, k + 8, has_mp3BitRate_high hl hk, has_mp3BitRate_high hr hk,
          has_mp3BitRate_high (has_and.mpr ⟨has_and.mpr ⟨hr, hkeep⟩, has_or.mpr (.inr (hmask k hk))⟩) hk⟩
      · rw [if_neg (by simpa using hb)]
        exact ih
    · have hmatch : rowMatches row (l0 :: l1 :: l2 :: l3 :: l4 :: l5 :: l6 :: l7 :: ls)
          (r0 :: r1 :: r2 :: r3 :: r4 :: r5 :: r6 :: r7 :: rs) = some (decide (Has (r7 &&& l7) k)) :=
        rowMatches_bit hrow.remote hrow.locally rfl rfl
      rw [parseTable_cons hmatch, happly]
      by_cases hb : Has (r7 &&& l7) k
      · obtain ⟨hr, hl⟩ := has_and.mp hb
        rw [if_pos (decide_eq_true hb)]
        exact ⟨_, _, rfl, k, has_mp3BitRate_low hl, has_mp3BitRate_low hr,
          has_mp3BitRate_low (has_and.mpr ⟨hr, hkeep⟩)⟩
      · rw [if_neg (by simpa using hb)]
        exact ih

theorem selected_mpeg12 (role : Role) (e e' : CodecEntry .mpeg12)
    (h : areCodecsCompatible e.bytes e'.bytes true = some true) :
    ∃ c : CodecEntry .mpeg12, Selected role e e' c := by
  obtain ⟨hlosc, hfields, hrate⟩ := (compatible_iff e e').mp h
  obtain ⟨losc, caps, hlength, hvendor⟩ := e
  obtain ⟨losc', caps', hlength', hvendor'⟩ := e'
  obtain ⟨l4, l5, l6, l7, ls, rfl⟩ :=
    exists_four (four_le_length (n := 6) (by decide) hlosc.1 hlength)
  obtain ⟨r4, r5, r6, r7, rs, rfl⟩ :=
    exists_four (four_le_length (n := 6) (by decide) hlosc.2 hlength')
  have hlayer : l4 &&& 0xe0 &&& (r4 &&& 0xe0) ≠ 0 :=
    overlap_of_agree (hfields (part 4 0xe0) (by simp [selectionFields]))
  have hmode : l4 &&& 0x0f &&& (r4 &&& 0x0f) ≠ 0 :=
    overlap_of_agree (hfields (part 4 0x0f) (by simp [selectionFields]))
  have hfreq : l5 &&& 0x3f &&& (r5 &&& 0x3f) ≠ 0 :=
    overlap_of_agree (hfields (part 5 0x3f) (by simp [selectionFields]))
  let mode := r4 &&& keepOnly 0x0f (pick [0, 1, 2] 3 (r4 &&& l4))
  let freq := r5 &&& keepOnly 0x3f (pick [1, 0, 2, 3, 4] 5 (r5 &&& l5))
  let localBytes := avdtpServiceMediaCodec :: losc :: avdtpMediaTypeAudio <<< 2 ::
    Codec.mpeg12.mediaCodec :: l4 :: l5 :: l6 :: l7 :: ls
  let remoteBytes := fun b4 b5 b6 b7 : Octet => avdtpServiceMediaCodec :: losc' ::
    avdtpMediaTypeAudio <<< 2 :: Codec.mpeg12.mediaCodec :: b4 :: b5 :: b6 :: b7 :: rs
  -- the three tables, one after the other
  have hchannels : parseTable localBytes mp3CapsChannelMode (remoteBytes r4 r5 r6 r7) =
      some (remoteBytes mode r5 r6 r7) :=
    parseTable_field (mp3CapsChannelMode.take 3) [0, 1, 2] (d := 3) (i := 4)
      (by decide) (by decide) rfl rfl hmode
  have hrates : parseTable localBytes mp3CapsSampleRate (remoteBytes mode r5 r6 r7) =
      some (remoteBytes mode freq r6 r7) :=
    parseTable_field (mp3CapsSampleRate.take 5) [1, 0, 2, 3, 4] (d := 5) (i := 5)
      (by decide) (by decide) rfl rfl hfreq
  have hrows : List.Forall₂ RateRow mp3CapsBitRate [(6, 1), (6, 0), (6, 2), (7, 7), (6, 3), (7, 6),
      (6, 4), (7, 5), (6, 5), (7, 4), (6, 6), (7, 3), (7, 2), (7, 1)] := by decide
  obtain ⟨x6, x7, hbitRate, j, hl, hr, hx⟩ := parseTable_rate hrows
    avdtpServiceMediaCodec losc (avdtpMediaTypeAudio <<< 2) Codec.mpeg12.mediaCodec l4 l5 ls
    avdtpServiceMediaCodec losc' (avdtpMediaTypeAudio <<< 2) Codec.mpeg12.mediaCodec mode freq rs
    hrate
  have hselect : selectMp3Caps localBytes (remoteBytes r4 r5 r6 r7) =
      some (remoteBytes mode freq x6 x7) := by
    simp only [selectMp3Caps, mp3CapsTable, foldlM_cons, foldlM_nil, hchannels, hrates,
      bind_eq_bind, bind_some]
    exact congrArg (Option.bind · some) hbitRate
  refine ⟨⟨losc', mode :: freq :: x6 :: x7 :: rs, hlength', fun h => absurd h (by decide)⟩, rfl,
    hselect, ⟨and_ne_zero_iff.mpr ⟨j, hl, hx⟩, and_ne_zero_iff.mpr ⟨j, hr, hx⟩⟩, ?_⟩
  have hlayer' : Chosen (mode &&& 0xe0) (l4 &&& 0xe0) (r4 &&& 0xe0) ↔
      ∃ b, Single (r4 &&& 0xe0) b := by
    rw [and_keepOnly_and (by decide)]
    exact chosen_self_iff hlayer
  have hmode' : Chosen (mode &&& 0x0f) (l4 &&& 0x0f) (r4 &&& 0x0f) :=
    chosen_of_both (by decide) (by decide) hmode
  have hfreq' : Chosen (freq &&& 0x3f) (l5 &&& 0x3f) (r5 &&& 0x3f) :=
    chosen_of_both (by decide) (by decide) hfreq
  simp only [selectionFields, forall_mem_cons, not_mem_nil, false_imp_iff, implies_true,
    and_true]
  constructor
  · rintro ⟨⟨hchosen, -, -⟩, -⟩
    exact hlayer'.mp (chosen_unsigned.mp hchosen)
  · intro hsingle
    exact ⟨⟨chosen_unsigned.mpr (hlayer'.mpr hsingle), chosen_unsigned.mpr hmode',
      chosen_unsigned.mpr hfreq'⟩, fun h => absurd h (by decide)⟩

/-! ## aptX Adaptive -/

/-- After a bit has been selected, no other one is. -/
theorem foldl_select_of_selected {c : ℕ} {x : Octet} (hbits : ∀ b ∈ bits, Has x b → b = c)
    (hx : x &&& keepOnly f c = x) :
    (bits.map (1#8 <<< ·)).foldl
      (fun remote bit => selectIfSupportedByBothSides (~~~f) remote l bit) x = x := by
  induction bits with
  | nil => rfl
  | cons b bits ih =>
    have hstep : selectIfSupportedByBothSides (~~~f) x l (1#8 <<< b) = x := by
      unfold selectIfSupportedByBothSides
      split
      · rename_i hboth
        obtain rfl := hbits b mem_cons_self (has_and.mp (and_single_ne_zero_iff.mp hboth)).1
        exact hx
      · rfl
    rw [map_cons, foldl_cons, hstep]
    exact ih fun b hb => hbits b (mem_cons_of_mem _ hb)

/-- The first bit that both sides have is selected. -/
theorem foldl_select {c : ℕ} (hbits : ∀ b ∈ bits, Has f b)
    (hfind : bits.find? (fun b => decide (Has (r &&& l) b)) = some c) :
    (bits.map (1#8 <<< ·)).foldl
      (fun remote bit => selectIfSupportedByBothSides (~~~f) remote l bit) r =
        r &&& keepOnly f c := by
  induction bits with
  | nil => exact absurd hfind.symm (some_ne_none c)
  | cons b bits ih =>
    have hrest : ∀ b ∈ bits, Has f b := fun b hb => hbits b (mem_cons_of_mem _ hb)
    rw [map_cons, foldl_cons, selectIfSupportedByBothSides]
    by_cases hb : Has (r &&& l) b
    · rw [find?_cons_of_pos (by simpa using hb)] at hfind
      obtain rfl := some.inj hfind
      have hleaves := leaves_keepOnly (hbits b mem_cons_self)
      rw [if_pos (and_single_ne_zero_iff.mpr hb)]
      refine foldl_select_of_selected (c := b) (fun b' hb' h => ?_) ?_
      · exact ((hleaves.has_iff (r := r) b').mp (has_and.mpr ⟨h, hrest b' hb'⟩)).1
      · show r &&& keepOnly f b &&& keepOnly f b = r &&& keepOnly f b
        rw [BitVec.and_assoc, BitVec.and_self]
    · rw [find?_cons_of_neg (by simpa using hb)] at hfind
      rw [if_neg fun h => hb (and_single_ne_zero_iff.mp h)]
      exact ih hrest hfind

/-- A field of which the first common bit is selected. -/
theorem foldl_select_eq (hbits : ∀ b ∈ bits ++ [d], Has f b)
    (hcover : ∀ b, Has f b → b ∈ bits ∨ b = d) (hover : r &&& l &&& f ≠ 0) :
    ((bits ++ [d]).map (1#8 <<< ·)).foldl
      (fun remote bit => selectIfSupportedByBothSides (~~~f) remote l bit) r =
        r &&& keepOnly f (pick bits d (r &&& l)) :=
  foldl_select hbits ((find?_append_singleton bits d _).trans (if_pos (has_pick hcover hover)))

theorem or_and_of_disjoint {x q : Octet} (h : q &&& f = 0) : (x ||| q) &&& f = x &&& f :=
  mask_ext fun i => by
    rw [has_and, has_and, has_or]
    refine and_congr_left fun hf => or_iff_left fun hq => ?_
    exact has_zero (h ▸ has_and.mpr ⟨hq, hf⟩)

/-- A rate or a mode of both sides, whatever the sink adds to the octet. -/
theorem chosen_aptxAd {q : Octet} (hq : q &&& f = 0) (hbits : ∀ b ∈ bits ++ [d], Has f b)
    (hcover : ∀ b, Has f b → b ∈ bits ∨ b = d) (hover : l &&& f &&& (r &&& f) ≠ 0) :
    Chosen ((((bits ++ [d]).map (1#8 <<< ·)).foldl
      (fun remote bit => selectIfSupportedByBothSides (~~~f) remote l bit) r ||| q) &&& f)
      (l &&& f) (r &&& f) := by
  rw [or_and_of_disjoint hq, foldl_select_eq hbits hcover (and_and_ne_zero hover)]
  exact chosen_of_both hcover (fun b hb => leaves_keepOnly (hbits b hb)) hover

theorem chosen_samplingRate {q : Octet} (hq : q &&& 0xf8 = 0)
    (hover : l &&& 0xf8 &&& (r &&& 0xf8) ≠ 0) :
    Chosen ((selectOptimalSamplingRate r l ||| q) &&& 0xf8) (l &&& 0xf8) (r &&& 0xf8) := by
  have hothers : (0x07 : Octet) = ~~~0xf8 := by decide
  have hselect : selectOptimalSamplingRate r l = (([3, 4, 5, 7] ++ [6]).map (1#8 <<< ·)).foldl
      (fun remote bit => selectIfSupportedByBothSides (~~~0xf8) remote l bit) r := by
    rw [selectOptimalSamplingRate, areSamplingRatesCompatible,
      if_pos (bne_iff_ne.mpr (and_and_ne_zero hover)), hothers]
    rfl
  rw [hselect]
  exact chosen_aptxAd hq (by decide) (by decide) hover

theorem chosen_channelMode (hover : l &&& 0x3f &&& (r &&& 0x3f) ≠ 0) :
    Chosen (selectOptimalChannelMode r l &&& 0x3f) (l &&& 0x3f) (r &&& 0x3f) := by
  have hothers : (0xc0 : Octet) = ~~~0x3f := by decide
  have hselect : selectOptimalChannelMode r l = (([3, 1, 5, 2, 4] ++ [0]).map (1#8 <<< ·)).foldl
      (fun remote bit => selectIfSupportedByBothSides (~~~0x3f) remote l bit) r := by
    rw [selectOptimalChannelMode, areChannelModesCompatible,
      if_pos (bne_iff_ne.mpr (and_and_ne_zero hover)), hothers]
    rfl
  rw [hselect, ← BitVec.or_zero (x := List.foldl _ _ _)]
  exact chosen_aptxAd (by decide) (by decide) (by decide) hover

theorem selectAptxAdCaps_eq {q r10 r11 r20 l10 l11 l20 : Octet}
    (hr10 : remoteCaps[10]? = some r10) (hl10 : localCaps[10]? = some l10)
    (hr11 : remoteCaps[11]? = some r11) (hl11 : localCaps[11]? = some l11)
    (hr20 : remoteCaps[20]? = some r20) (hl20 : localCaps[20]? = some l20) :
    selectAptxAdCaps q localCaps remoteCaps =
      some (((remoteCaps.set 10 (selectOptimalSamplingRate r10 l10 ||| q)).set 11
        (selectOptimalChannelMode r11 l11)).set 20 (selectRemoteFeatures r20 l20)) := by
  rw [selectAptxAdCaps, hr10, hl10, hr11, hl11, hr20, hl20]
  rfl

theorem selected_aptxAdaptive (role : Role) (e e' : CodecEntry .aptxAdaptive)
    (h : areCodecsCompatible e.bytes e'.bytes true = some true) :
    ∃ c : CodecEntry .aptxAdaptive, Selected role e e' c := by
  obtain ⟨hlosc, hfields, -⟩ := (compatible_iff e e').mp h
  obtain ⟨losc, caps, hlength, hvendor⟩ := e
  obtain ⟨losc', caps', hlength', hvendor'⟩ := e'
  have h19 : (19 : ℕ) ≤ losc.toNat := hlosc.1
  have h19' : (19 : ℕ) ≤ losc'.toNat := hlosc.2
  obtain ⟨l4, l5, l6, l7, ls, rfl⟩ := exists_four (n := caps) (by omega)
  obtain ⟨r4, r5, r6, r7, rs, rfl⟩ := exists_four (n := caps') (by omega)
  have hlen := hlength
  have hlen' := hlength'
  simp only [length_cons] at hlen hlen'
  obtain ⟨l8, l9, l10, l11, ls, rfl⟩ := exists_four (n := ls) (by omega)
  obtain ⟨r8, r9, r10, r11, rs, rfl⟩ := exists_four (n := rs) (by omega)
  simp only [length_cons] at hlen hlen'
  obtain ⟨l20, hl20⟩ : ∃ x, ls[8]? = some x := ⟨_, getElem?_eq_getElem (by omega)⟩
  obtain ⟨r20, hr20⟩ : ∃ x, rs[8]? = some x := ⟨_, getElem?_eq_getElem (by omega)⟩
  have hrate : l10 &&& 0xf8 &&& (r10 &&& 0xf8) ≠ 0 :=
    overlap_of_agree (hfields (part 10 0xf8) (by simp [selectionFields]))
  have hmode : l11 &&& 0x3f &&& (r11 &&& 0x3f) ≠ 0 :=
    overlap_of_agree (hfields (part 11 0x3f) (by simp [selectionFields]))
  -- the sink and the source differ in one bit
  obtain ⟨q, hq, hrole⟩ : ∃ q : Octet, q &&& 0xf8 = 0 ∧
      selectOptimalCaps .aptxAdaptive role = selectAptxAdCaps q := by
    cases role with
    | sink => exact ⟨1, by decide, rfl⟩
    | source => exact ⟨0, by decide, rfl⟩
  have hlength'' : (rs.set 8 (selectRemoteFeatures r20 l20)).length = rs.length := length_set
  refine ⟨⟨losc', r4 :: r5 :: r6 :: r7 :: r8 :: r9 :: (selectOptimalSamplingRate r10 l10 ||| q) ::
    selectOptimalChannelMode r11 l11 :: rs.set 8 (selectRemoteFeatures r20 l20), ?_, hvendor'⟩, rfl,
    ?_, ⟨trivial, trivial⟩, iff_of_true ?_ trivial⟩
  · simp only [length_cons, hlength'']
    exact hlen'
  · rw [hrole]
    exact selectAptxAdCaps_eq rfl rfl rfl rfl hr20 hl20
  · simp only [selectionFields, forall_mem_cons, not_mem_nil, false_imp_iff, implies_true,
      and_true]
    exact ⟨⟨chosen_unsigned.mpr (chosen_samplingRate hq hrate),
      chosen_unsigned.mpr (chosen_channelMode hmode)⟩, fun h => absurd h (by decide)⟩

/-! ## All four -/

theorem exists_selected (role : Role) (e e' : CodecEntry codec)
    (h : areCodecsCompatible e.bytes e'.bytes true = some true) :
    ∃ c : CodecEntry codec, Selected role e e' c := by
  cases codec with
  | sbc => exact selected_sbc role e e' h
  | mpeg12 => exact selected_mpeg12 role e e' h
  | aac => exact selected_aac role e e' h
  | aptxAdaptive => exact selected_aptxAdaptive role e e' h

/-- The acceptor's check passes when the fields are chosen. -/
theorem accepted_of_agree {e c : CodecEntry codec}
    (hlosc : codec.minLosc ≤ e.losc ∧ codec.minLosc ≤ c.losc)
    (hfields : ∀ field ∈ selectionFields codec, Agree (field e.bytes) (field c.bytes) false)
    (hextra : Extra codec e.bytes c.bytes false) :
    areCodecsCompatible e.bytes c.bytes false = some true := by
  refine (compatible_iff e c).mpr ⟨hlosc, fun field hfield => ?_, hextra⟩
  have hagree := hfields field hfield
  exact ⟨hagree.1, .inr (hagree.2.resolve_left Bool.false_ne_true)⟩

/-- **What is selected after a check that passes is a choice of both sides, which the acceptor
accepts**, exactly when `Permits`. -/
theorem negotiated_iff_permits (role : Role) (e e' : CodecEntry codec)
    (h : areCodecsCompatible e.bytes e'.bytes true = some true) :
    Right codec role e.bytes e'.bytes ↔ Permits codec role e.bytes e'.bytes := by
  obtain ⟨c, hc⟩ := exists_selected role e e' h
  obtain ⟨hlosc, -, -⟩ := (compatible_iff e e').mp h
  have hlosc' : codec.minLosc ≤ c.losc := hc.losc ▸ hlosc.2
  rw [← hc.chosen_iff]
  constructor
  · rintro ⟨config, hselect, hneg⟩
    obtain rfl := Option.some.inj (hc.select.symm.trans hselect)
    exact ⟨hneg.fields, hneg.bitpool⟩
  · rintro ⟨hfields, hpool⟩
    refine ⟨c.bytes, hc.select, hfields, hpool, ?_, ?_⟩
    · exact accepted_of_agree ⟨hlosc.1, hlosc'⟩
        (fun field hfield => (agree_of_chosen (hfields field hfield)).1) hc.extra.1
    · exact accepted_of_agree ⟨hlosc.2, hlosc'⟩
        (fun field hfield => (agree_of_chosen (hfields field hfield)).2) hc.extra.2

/-- An SBC entry with all block lengths, and one that does not have 16 blocks. -/
def allBlocks : CodecEntry .sbc :=
  ⟨6, [0x3f, 0xff, 2, 53], by decide, fun h => absurd h (by decide)⟩

def shortBlocks : CodecEntry .sbc :=
  ⟨6, [0x3f, 0xef, 2, 53], by decide, fun h => absurd h (by decide)⟩

theorem negotiated_iff_permits_shortBlocks :
    Right .sbc .source allBlocks.bytes shortBlocks.bytes ↔
      Permits .sbc .source allBlocks.bytes shortBlocks.bytes :=
  negotiated_iff_permits .source allBlocks shortBlocks (by decide +kernel)

/-- The remote side has 16 blocks, which are selected although the local side does not have them. -/
theorem not_right_blockLength :
    ¬ ∀ (codec : Codec) (role : Role) (e e' : CodecEntry codec),
      areCodecsCompatible e.bytes e'.bytes true = some true →
        Right codec role e.bytes e'.bytes := by
  intro h
  obtain ⟨config, hselect, hneg⟩ := h .sbc .sink shortBlocks allBlocks (by decide +kernel)
  have hconfig : selectOptimalCaps .sbc .sink shortBlocks.bytes allBlocks.bytes =
      some [7, 6, 0, 0, 0x21, 0x15, 2, 53] := by decide +kernel
  obtain rfl := Option.some.inj (hconfig.symm.trans hselect)
  have hrefused : areCodecsCompatible shortBlocks.bytes [7, 6, 0, 0, 0x21, 0x15, 2, 53] false =
      some false := by decide +kernel
  exact absurd (hrefused.symm.trans hneg.acceptedByLocal) (by decide)

end Mh40.A2dp
