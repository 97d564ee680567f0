import Mh40.A2dp.CodecEntries

/-!
# The selections of SBC and AAC

The initiator checks its codec entry against the one of the remote device, selects a configuration
over the latter, and the acceptor checks that configuration.

* `Right`: the configuration is one choice of both sides (`Negotiated`), and the acceptor's check
  passes.
* `Permits`: the first value of the remote side, in the order of preference, is one that the local
  side has too, wherever the selection does not look at the local side.
* `Selected`: the selection gives an entry, and its fields are chosen exactly when `Permits`;
  `selected_sbc` and `selected_aac` for their codecs.
-/

namespace Mh40.A2dp

open Lib Lib.Choice

variable {b l r x f : Octet} {ls rs : Caps} {i k : ℕ} {codec : Codec}

/-- The bitpool range is not empty, and inside of both ranges. -/
def BitpoolInside (l r config : Caps) : Prop :=
  octet config 6 ≤ octet config 7 ∧
    (octet l 6 ≤ octet config 6 ∧ octet config 7 ≤ octet l 7) ∧
    octet r 6 ≤ octet config 6 ∧ octet config 7 ≤ octet r 7

/-- A configuration that both sides have chosen. -/
structure Negotiated (codec : Codec) (l r config : Caps) : Prop where
  fields : ∀ field ∈ selectionFields codec, Chosen (field config) (field l) (field r)
  bitpool : codec = .sbc → BitpoolInside l r config
  acceptedByLocal : areCodecsCompatible l config false = some true
  acceptedByRemote : areCodecsCompatible r config false = some true

/-- What the selection chooses is a configuration of both sides. -/
def Right (codec : Codec) (role : Role) (l r : Caps) : Prop :=
  ∃ config, selectOptimalCaps codec role l r = some config ∧ Negotiated codec l r config

/-- Where the selection looks at the remote side only, what it prefers of that side is what the
local side has too. The bitpool ranges are not empty, and there is one layer to choose. -/
def Permits (codec : Codec) (role : Role) (l r : Caps) : Prop :=
  match codec with
  | .sbc =>
    (role = .sink → Leads [5, 4, 6, 7] (octet r 4) (octet l 4)) ∧
      (Leads [4, 5, 6, 7] (octet r 5) (octet l 5) ∧ Leads [2, 3] (octet r 5) (octet l 5) ∧
        Leads [0, 1] (octet r 5) (octet l 5)) ∧
      octet l 6 ≤ octet l 7 ∧ octet r 6 ≤ octet r 7
  | .mpeg12 => ∃ b, Single (octet r 4 &&& 0xe0) b
  | .aac =>
    Leads [6, 7] (octet r 4) (octet l 4) ∧
      Leads [11, 0, 1, 2, 3, 4, 5, 6, 7] (aacFrequency (octet r 5) (octet r 6))
        (aacFrequency (octet l 5) (octet l 6)) ∧
      Leads [2, 3] (octet r 6) (octet l 6)
  | .aptxAdaptive => True

/-- What a selection leads to: an entry of the same codec, and the acceptor's extra conditions. -/
structure Selected (role : Role) (e e' c : CodecEntry codec) : Prop where
  losc : c.losc = e'.losc
  select : selectOptimalCaps codec role e.bytes e'.bytes = some c.bytes
  extra : Extra codec e.bytes c.bytes false ∧ Extra codec e'.bytes c.bytes false
  chosen_iff : (∀ field ∈ selectionFields codec,
      Chosen (field c.bytes) (field e.bytes) (field e'.bytes)) ∧
    (codec = .sbc → BitpoolInside e.bytes e'.bytes c.bytes) ↔ Permits codec role e.bytes e'.bytes

theorem overlap_of_agree (h : Agree (unsigned l) (unsigned r) true) : l &&& r ≠ 0 := by
  obtain ⟨i, hl, hr⟩ := and_ne_zero_iff.mp h.1
  exact and_ne_zero_iff.mpr ⟨i, has_unsigned.mp hl, has_unsigned.mp hr⟩

/-! ## SBC -/

theorem selectOptimalCommonSbcCaps_eq {l0 l1 l2 l3 l4 l5 l6 l7 r0 r1 r2 r3 r4 r5 r6 r7 : Octet} :
    selectOptimalCommonSbcCaps (l0 :: l1 :: l2 :: l3 :: l4 :: l5 :: l6 :: l7 :: ls)
        (r0 :: r1 :: r2 :: r3 :: r4 :: r5 :: r6 :: r7 :: rs) =
      let block := r5 &&& keepOnly 0xf0 (pick [4, 5, 6] 7 r5)
      let sub := block &&& keepOnly 0x0c (pick [2] 3 block)
      some (r0 :: r1 :: r2 :: r3 :: (r4 &&& keepOnly 0x0f (pick [0, 1, 2] 3 (r4 &&& l4))) ::
        (sub &&& keepOnly 0x03 (pick [0] 1 sub)) :: (if l6 > r6 then l6 else r6) ::
        (if l7 < r7 then l7 else r7) :: rs) := by
  have hchannel : ∀ s : Octet, firstMatch s [(0x01, 0xf1), (0x02, 0xf2), (0x04, 0xf4)] 0xf8 =
      keepOnly (0x0f : Octet) (pick [0, 1, 2] 3 s) := firstMatch_map [0, 1, 2] 3 (keepOnly 0x0f)
  have hblock : ∀ s : Octet, firstMatch s [(0x10, 0x1f), (0x20, 0x2f), (0x40, 0x4f)] 0x8f =
      keepOnly (0xf0 : Octet) (pick [4, 5, 6] 7 s) := firstMatch_map [4, 5, 6] 7 (keepOnly 0xf0)
  have hsub : ∀ s : Octet, firstMatch s [(0x04, 0xf7)] 0xfb =
      keepOnly (0x0c : Octet) (pick [2] 3 s) :=   firstMatch_map [2] 3 (keepOnly 0x0c)
  have halloc : ∀ s : Octet, firstMatch s [(0x01, 0xfd)] 0xfe =
      keepOnly (0x03 : Octet) (pick [0] 1 s) :=   firstMatch_map [0] 1 (keepOnly 0x03)
  dsimp only
  rw [← hchannel, ← hblock, ← hsub, ← halloc]
  rfl

/-- The three fields of the second octet. -/
theorem sbc_second_iff {l r : Octet} (block sub alloc : Octet)
    (hblock : block = r &&& keepOnly 0xf0 (pick [4, 5, 6] 7 r))
    (hsub : sub = block &&& keepOnly 0x0c (pick [2] 3 block))
    (halloc : alloc = sub &&& keepOnly 0x03 (pick [0] 1 sub)) :
    (Chosen (alloc &&& 0xf0) (l &&& 0xf0) (r &&& 0xf0) ↔ Leads [4, 5, 6, 7] r l) ∧
      (Chosen (alloc &&& 0x0c) (l &&& 0x0c) (r &&& 0x0c) ↔ Leads [2, 3] r l) ∧
      (Chosen (alloc &&& 0x03) (l &&& 0x03) (r &&& 0x03) ↔ Leads [0, 1] r l) := by
  -- each step leaves the other fields as they are
  have hblock0c : block &&& 0x0c = r &&& 0x0c := by rw [hblock, and_keepOnly_and (by decide)]
  have hblock03 : block &&& 0x03 = r &&& 0x03 := by rw [hblock, and_keepOnly_and (by decide)]
  have hsubf0 : sub &&& 0xf0 = block &&& 0xf0 := by rw [hsub, and_keepOnly_and (by decide)]
  have hsub03 : sub &&& 0x03 = r &&& 0x03 := by rw [hsub, and_keepOnly_and (by decide), hblock03]
  have hallocf0 : alloc &&& 0xf0 = block &&& 0xf0 := by
    rw [halloc, and_keepOnly_and (by decide), hsubf0]
  have halloc0c : alloc &&& 0x0c = sub &&& 0x0c := by rw [halloc, and_keepOnly_and (by decide)]
  refine ⟨?_, ?_, ?_⟩
  · rw [hallocf0, hblock]
    exact chosen_keep_iff_leads [4, 5, 6] (by decide)
  · rw [halloc0c, hsub, ← hblock0c, ← leads_congr hblock0c (by decide)]
    exact chosen_keep_iff_leads [2] (by decide)
  · rw [halloc, ← hsub03, ← leads_congr hsub03 (by decide)]
    exact chosen_keep_iff_leads [0] (by decide)

/-- The two fields of the first octet, when the sampling frequency `freq` has been chosen. -/
theorem sbc_first_iff {l r : Octet} {freq : Octet} {bits : List ℕ} {d : ℕ} {s : Octet}
    (hfreq : freq = r &&& keepOnly 0xf0 (pick bits d s))
    (hover : l &&& 0x0f &&& (r &&& 0x0f) ≠ 0) :
    Chosen (freq &&& keepOnly 0x0f (pick [0, 1, 2] 3 (freq &&& l)) &&& 0x0f) (l &&& 0x0f)
        (r &&& 0x0f) ∧
      freq &&& keepOnly 0x0f (pick [0, 1, 2] 3 (freq &&& l)) &&& 0xf0 = freq &&& 0xf0 := by
  have hfreq0f : freq &&& 0x0f = r &&& 0x0f := by rw [hfreq, and_keepOnly_and (by decide)]
  refine ⟨?_, and_keepOnly_and (by decide)⟩
  rw [← hfreq0f] at hover ⊢
  exact chosen_of_both (by decide) (by decide) hover

theorem bitpool_clamped (l6 l7 r6 r7 : Octet) :
    ((if l7 < r7 then l7 else r7) ≤ l7 ∧ l6 ≤ if l6 > r6 then l6 else r6) ∧
      ((if l7 < r7 then l7 else r7) ≤ r7 ∧ r6 ≤ if l6 > r6 then l6 else r6) ∧
      ((l6 ≤ r7 ∧ r6 ≤ l7) → (((if l6 > r6 then l6 else r6) ≤ if l7 < r7 then l7 else r7) ↔
        l6 ≤ l7 ∧ r6 ≤ r7)) := by
  simp only [BitVec.le_def, BitVec.lt_def, gt_iff_lt, apply_ite BitVec.toNat]
  refine ⟨⟨?_, ?_⟩, ⟨?_, ?_⟩, fun h => ?_⟩
  · split <;> omega
  · split <;> omega
  · split <;> omega
  · split <;> omega
  · split <;> split <;> omega

/-- The selection, however the sampling frequency is chosen. -/
theorem selected_sbc_of_frequency (bits : List ℕ) (d : ℕ) (s : Octet) {role : Role}
    {e e' : CodecEntry .sbc} {l4 l5 l6 l7 : Octet} {r4 r5 r6 r7 freq : Octet}
    (hcaps : e.caps = l4 :: l5 :: l6 :: l7 :: ls) (hcaps' : e'.caps = r4 :: r5 :: r6 :: r7 :: rs)
    (h : areCodecsCompatible e.bytes e'.bytes true = some true)
    (hfreq : freq = r4 &&& keepOnly 0xf0 (pick bits d s))
    (hselect : selectOptimalCaps .sbc role e.bytes e'.bytes =
      selectOptimalCommonSbcCaps e.bytes (e'.bytes.set 4 freq))
    (hchosen : Chosen (freq &&& 0xf0) (l4 &&& 0xf0) (r4 &&& 0xf0) ↔
      (role = .sink → Leads [5, 4, 6, 7] r4 l4)) :
    ∃ c : CodecEntry .sbc, Selected role e e' c := by
  obtain ⟨losc, caps, hlength, hvendor⟩ := e
  obtain ⟨losc', caps', hlength', hvendor'⟩ := e'
  obtain rfl : caps = _ := hcaps
  obtain rfl : caps' = _ := hcaps'
  obtain ⟨-, hfields, hpools⟩ := (compatible_iff _ _).mp h
  obtain ⟨hmode, hkeep⟩ := sbc_first_iff (l := l4) hfreq
    (overlap_of_agree (hfields (part 4 0x0f) (by simp [selectionFields])))
  let mode := freq &&& keepOnly 0x0f (pick [0, 1, 2] 3 (freq &&& l4))
  let block := r5 &&& keepOnly 0xf0 (pick [4, 5, 6] 7 r5)
  let sub := block &&& keepOnly 0x0c (pick [2] 3 block)
  let alloc := sub &&& keepOnly 0x03 (pick [0] 1 sub)
  obtain ⟨hblock, hsub, halloc⟩ := sbc_second_iff (l := l5) block sub alloc rfl rfl rfl
  obtain ⟨hinside, hinside', hnonempty⟩ := bitpool_clamped l6 l7 r6 r7
  refine ⟨⟨losc', mode :: alloc :: (if l6 > r6 then l6 else r6) ::
    (if l7 < r7 then l7 else r7) :: rs, hlength', fun h => absurd h (by decide)⟩, rfl,
    hselect.trans selectOptimalCommonSbcCaps_eq, ⟨hinside, hinside'⟩, ?_⟩
  have hfrequency : Chosen (mode &&& 0xf0) (l4 &&& 0xf0) (r4 &&& 0xf0) ↔
      (role = .sink → Leads [5, 4, 6, 7] r4 l4) := by
    rw [← hchosen, ← hkeep]
  simp only [selectionFields, List.forall_mem_cons, List.not_mem_nil, false_imp_iff, implies_true,
    and_true, true_imp_iff]
  constructor
  · rintro ⟨⟨hf, -, hb, hs, ha⟩, hpool, -⟩
    exact ⟨hfrequency.mp (chosen_unsigned.mp hf), ⟨hblock.mp (chosen_unsigned.mp hb),
      hsub.mp (chosen_unsigned.mp hs), halloc.mp (chosen_unsigned.mp ha)⟩,
      (hnonempty hpools).mp hpool⟩
  · rintro ⟨hf, ⟨hb, hs, ha⟩, hpool⟩
    exact ⟨⟨chosen_unsigned.mpr (hfrequency.mpr hf), chosen_unsigned.mpr hmode,
      chosen_unsigned.mpr (hblock.mpr hb), chosen_unsigned.mpr (hsub.mpr hs),
      chosen_unsigned.mpr (halloc.mpr ha)⟩, (hnonempty hpools).mpr hpool, hinside.symm,
      hinside'.symm⟩

theorem selected_sbc (role : Role) (e e' : CodecEntry .sbc)
    (h : areCodecsCompatible e.bytes e'.bytes true = some true) :
    ∃ c : CodecEntry .sbc, Selected role e e' c := by
  obtain ⟨hlosc, hfields, -⟩ := (compatible_iff e e').mp h
  obtain ⟨l4, l5, l6, l7, ls, hcaps⟩ :=
    exists_four (four_le_length (n := 6) (by decide) hlosc.1 e.length_caps)
  obtain ⟨r4, r5, r6, r7, rs, hcaps'⟩ :=
    exists_four (four_le_length (n := 6) (by decide) hlosc.2 e'.length_caps)
  have hl : octet e.bytes 4 = l4 := by rw [CodecEntry.bytes, hcaps]; rfl
  have hr : octet e'.bytes 4 = r4 := by rw [CodecEntry.bytes, hcaps']; rfl
  cases role with
  | sink =>
    refine selected_sbc_of_frequency [5, 4, 6] 7 r4 hcaps hcaps' h rfl ?_ ?_
    · have hfreq : ∀ s : Octet, firstMatch s [(0x20, 0x2f), (0x10, 0x1f), (0x40, 0x4f)] 0x8f =
          keepOnly (0xf0 : Octet) (pick [5, 4, 6] 7 s) := firstMatch_map [5, 4, 6] 7 (keepOnly 0xf0)
      rw [← hfreq, CodecEntry.bytes, CodecEntry.bytes, hcaps, hcaps']
      rfl
    · rw [chosen_keep_iff_leads [5, 4, 6] (by decide)]
      exact ⟨fun h _ => h, fun h => h rfl⟩
  | source =>
    refine selected_sbc_of_frequency [4, 5, 6] 7 (r4 &&& l4) hcaps hcaps' h rfl ?_ ?_
    · have hfreq : ∀ s : Octet, firstMatch s [(0x10, 0x1f), (0x20, 0x2f), (0x40, 0x4f)] 0x8f =
          keepOnly (0xf0 : Octet) (pick [4, 5, 6] 7 s) := firstMatch_map [4, 5, 6] 7 (keepOnly 0xf0)
      rw [← hfreq, CodecEntry.bytes, CodecEntry.bytes, hcaps, hcaps']
      rfl
    · have hover : l4 &&& 0xf0 &&& (r4 &&& 0xf0) ≠ 0 := by
        rw [← hl, ← hr]
        exact overlap_of_agree (hfields (part 4 0xf0) (by simp [selectionFields]))
      exact iff_of_true (chosen_of_both (by decide) (by decide) hover) fun h => by cases h

/-! ## AAC -/

theorem has_aacFrequency {a b : Octet} :
    Has (aacFrequency a b) i ↔ Has a i ∨ 8 ≤ i ∧ Has b (i - 4) := by
  have hmask : ∀ j < 8, Has 0xf0#32 j ↔ 4 ≤ j := by decide
  have hshift : Has ((unsigned b &&& 0xf0) <<< 4) i ↔ 8 ≤ i ∧ Has b (i - 4) := by
    have hiff : Has ((unsigned b &&& 0xf0) <<< 4) i ↔
        i < 32 ∧ 4 ≤ i ∧ Has b (i - 4) ∧ Has 0xf0#32 (i - 4) := by
      rw [← has_unsigned, ← has_and]
      unfold Has
      rw [BitVec.getLsbD_shiftLeft]
      simp [and_assoc]
    rw [hiff]
    constructor
    · rintro ⟨-, -, hb, hm⟩
      have := (hmask _ hb.lt).mp hm
      exact ⟨by omega, hb⟩
    · rintro ⟨hi, hb⟩
      have := hb.lt
      exact ⟨by omega, by omega, hb, (hmask _ hb.lt).mpr (by omega)⟩
  rw [aacFrequency, has_or, has_unsigned, hshift]

/-- The channels that are kept, with the whole field of the sampling frequency. -/
def aacChannels (b : ℕ) : Octet := 1#8 <<< b ||| 0xf0

theorem selectOptimalAacCaps_eq (r0 r1 r2 r3 r4 r5 r6 : Octet) (rs : Caps) :
    selectOptimalAacCaps (r0 :: r1 :: r2 :: r3 :: r4 :: r5 :: r6 :: rs) =
      let channels := r6 &&& aacChannels (pick [2] 3 r6)
      if Has channels 7 then
        some (r0 :: r1 :: r2 :: r3 :: 1#8 <<< pick [6] 7 r4 :: 0 :: (channels &&& 0x8f) :: rs)
      else
        some (r0 :: r1 :: r2 :: r3 :: 1#8 <<< pick [6] 7 r4 ::
          1#8 <<< pick [0, 1, 2, 3, 4, 5, 6] 7 r5 :: (channels &&& 0x0f) :: rs) := by
  have hobject : ∀ s : Octet, firstMatch s [(1#8 <<< 6, 1#8 <<< 6)] (1#8 <<< 7) =
      1#8 <<< pick [6] 7 s := firstMatch_map [6] 7 (1#8 <<< ·)
  have hchannels : ∀ s : Octet, firstMatch s [(1#8 <<< 2, 1#8 <<< 2 ||| 0xf0)] (1#8 <<< 3 ||| 0xf0) =
      aacChannels (pick [2] 3 s) := firstMatch_map [2] 3 aacChannels
  have hrate : ∀ s : Octet, firstMatch s [(1#8 <<< 0, 1#8 <<< 0), (1#8 <<< 1, 1#8 <<< 1),
      (1#8 <<< 2, 1#8 <<< 2), (1#8 <<< 3, 1#8 <<< 3), (1#8 <<< 4, 1#8 <<< 4),
      (1#8 <<< 5, 1#8 <<< 5), (1#8 <<< 6, 1#8 <<< 6)] (1#8 <<< 7) =
      1#8 <<< pick [0, 1, 2, 3, 4, 5, 6] 7 s :=
    firstMatch_map [0, 1, 2, 3, 4, 5, 6] 7 (1#8 <<< ·)
  dsimp only
  rw [← hobject, ← hchannels, ← hrate]
  simp only [← and_single_ne_zero_iff]
  rfl

/-- One sampling frequency is set, the one that comes first. -/
theorem single_aacFrequency (r5 : Octet) {r6 channels : Octet}
    (hchannels : channels = r6 &&& aacChannels (pick [2] 3 r6)) :
    (Has channels 7 → Single (aacFrequency 0 (channels &&& 0x8f))
      (pick [11, 0, 1, 2, 3, 4, 5, 6] 7 (aacFrequency r5 r6))) ∧
    (¬ Has channels 7 → Single (aacFrequency (1#8 <<< pick [0, 1, 2, 3, 4, 5, 6] 7 r5)
      (channels &&& 0x0f)) (pick [11, 0, 1, 2, 3, 4, 5, 6] 7 (aacFrequency r5 r6))) := by
  have hkeep : Has channels 7 ↔ Has r6 7 := by
    rw [hchannels, has_and]
    exact and_iff_left (has_or.mpr (.inr (by decide)))
  have h11 : Has (aacFrequency r5 r6) 11 ↔ Has r6 7 := by
    rw [has_aacFrequency]
    exact (or_iff_right fun h => absurd h.lt (by decide)).trans (and_iff_right (by decide))
  rw [hkeep, pick_cons]
  refine ⟨fun h i => ?_, fun h i => ?_⟩
  · have hmask : ∀ j < 8, 4 ≤ j → (Has 0x8f#8 j ↔ j = 7) := by decide
    rw [if_pos (h11.mpr h), has_aacFrequency, has_and]
    constructor
    · rintro (h0 | ⟨hi, hc, hm⟩)
      · exact absurd h0 has_zero
      · have := (hmask _ hc.lt (by omega)).mp hm
        omega
    · rintro rfl
      exact .inr ⟨by decide, hkeep.mpr h, by decide⟩
  · have hpick : pick [0, 1, 2, 3, 4, 5, 6] 7 (aacFrequency r5 r6) =
        pick [0, 1, 2, 3, 4, 5, 6] 7 r5 := by
      refine pick_congr fun b hb => ?_
      have hlt : b < 8 := (by decide : ∀ b ∈ [0, 1, 2, 3, 4, 5, 6], b < 8) b hb
      rw [has_aacFrequency]
      exact or_iff_left fun hge => absurd hge.1 (by omega)
    have hmask : ∀ j < 8, 4 ≤ j → ¬ Has 0x0f#8 j := by decide
    have hlt : ∀ b ∈ [0, 1, 2, 3, 4, 5, 6] ++ [7], b < 8 := by decide
    rw [if_neg fun hc => h (h11.mp hc), hpick, has_aacFrequency, has_and, has_single]
    constructor
    · rintro (⟨rfl, -⟩ | ⟨hi, hc, hm⟩)
      · rfl
      · exact absurd hm (hmask _ hc.lt (by omega))
    · rintro rfl
      exact .inl ⟨rfl, hlt _ (pick_mem _ _ _)⟩

theorem single_shiftLeft {p : ℕ} (hp : p < 8) : Single (1#8 <<< p) p := fun _ =>
  has_single.trans (and_iff_left hp)

theorem selected_aac (role : Role) (e e' : CodecEntry .aac)
    (h : areCodecsCompatible e.bytes e'.bytes true = some true) :
    ∃ c : CodecEntry .aac, Selected role e e' c := by
  obtain ⟨hlosc, hfields, -⟩ := (compatible_iff e e').mp h
  obtain ⟨losc, caps, hlength, hvendor⟩ := e
  obtain ⟨losc', caps', hlength', hvendor'⟩ := e'
  obtain ⟨l4, l5, l6, l7, ls, rfl⟩ :=
    exists_four (four_le_length (n := 8) (by decide) hlosc.1 hlength)
  obtain ⟨r4, r5, r6, r7, rs, rfl⟩ :=
    exists_four (four_le_length (n := 8) (by decide) hlosc.2 hlength')
  have hselect := selectOptimalAacCaps_eq avdtpServiceMediaCodec losc'
    (avdtpMediaTypeAudio <<< 2) Codec.aac.mediaCodec r4 r5 r6 (r7 :: rs)
  obtain ⟨channels, hchannels⟩ : ∃ x, x = r6 &&& aacChannels (pick [2] 3 r6) := ⟨_, rfl⟩
  obtain ⟨hhigh, hlow⟩ := single_aacFrequency r5 hchannels
  dsimp only at hselect
  rw [← hchannels] at hselect
  have hobject : Chosen (1#8 <<< pick [6] 7 r4 &&& 0xff) (l4 &&& 0xff) (r4 &&& 0xff) ↔
      Leads [6, 7] r4 l4 := by
    have hall : ∀ b : Octet, b &&& 0xff = b := fun b => BitVec.and_allOnes
    have hlt : ∀ b ∈ [6] ++ [7], b < 8 := by decide
    rw [hall, hall, hall]
    exact chosen_iff_leads (single_shiftLeft (hlt _ (pick_mem _ _ _)))
  have hchannel : Chosen (channels &&& 0x0c) (l6 &&& 0x0c) (r6 &&& 0x0c) ↔ Leads [2, 3] r6 l6 := by
    rw [hchannels]
    exact chosen_keep_iff_leads [2] (by decide)
  -- whichever of the two octets the frequency is in
  have hsettle : ∀ x5 x6 : Octet, x6 &&& 0x0c = channels &&& 0x0c →
      Single (aacFrequency x5 x6) (pick [11, 0, 1, 2, 3, 4, 5, 6] 7 (aacFrequency r5 r6)) →
      selectOptimalAacCaps (avdtpServiceMediaCodec :: losc' :: avdtpMediaTypeAudio <<< 2 ::
        Codec.aac.mediaCodec :: r4 :: r5 :: r6 :: r7 :: rs) = some (avdtpServiceMediaCodec :: losc' ::
        avdtpMediaTypeAudio <<< 2 :: Codec.aac.mediaCodec :: 1#8 <<< pick [6] 7 r4 :: x5 :: x6 ::
          r7 :: rs) →
      ∃ c : CodecEntry .aac, Selected role ⟨losc, l4 :: l5 :: l6 :: l7 :: ls, hlength, hvendor⟩
        ⟨losc', r4 :: r5 :: r6 :: r7 :: rs, hlength', hvendor'⟩ c := by
    intro x5 x6 hx6 hsingle heq
    refine ⟨⟨losc', 1#8 <<< pick [6] 7 r4 :: x5 :: x6 :: r7 :: rs, hlength',
      fun h => absurd h (by decide)⟩, rfl, heq, ⟨trivial, trivial⟩, ?_⟩
    rw [← hx6] at hchannel
    have hfrequency := chosen_iff_leads (l := aacFrequency l5 l6) hsingle
    simp only [selectionFields, List.forall_mem_cons, List.not_mem_nil, false_imp_iff, implies_true,
      and_true]
    constructor
    · rintro ⟨⟨ho, hf, hc⟩, -⟩
      exact ⟨hobject.mp (chosen_unsigned.mp ho), hfrequency.mp hf,
        hchannel.mp (chosen_unsigned.mp hc)⟩
    · rintro ⟨ho, hf, hc⟩
      exact ⟨⟨chosen_unsigned.mpr (hobject.mpr ho), hfrequency.mpr hf,
        chosen_unsigned.mpr (hchannel.mpr hc)⟩, fun h => absurd h (by decide)⟩
  by_cases h7 : Has channels 7
  · rw [if_pos h7] at hselect
    exact hsettle _ _ (by rw [BitVec.and_assoc]; rfl) (hhigh h7) hselect
  · rw [if_neg h7] at hselect
    exact hsettle _ _ (by rw [BitVec.and_assoc]; rfl) (hlow h7) hselect

end Mh40.A2dp
