import Mh40.A2dp.CodecSelection

/-!
# Codec entries and their checks

* `CodecEntry`: a codec entry of one of four codecs, with as many bytes as it declares.
* `selectionFields`: the fields of a codec of which a configuration has one bit.
* **`compatible_iff`**: what the check of a codec asks for, of the initiator and of the acceptor.
-/

namespace Mh40.A2dp

open Lib Lib.Choice List Option

variable {a b l r x f : Octet} {as bs : Caps} {i k : ℕ} {losc losc' : Octet} {initiating : Bool}
  {a0 a1 a2 a3 b0 b1 b2 b3 : Octet}

/-! ## Entries -/

/-- The byte at an index. -/
def octet (caps : Caps) (i : ℕ) : Octet := caps.getD i 0

/-- `AVDTP_MEDIA_CODEC_*`. -/
def Codec.mediaCodec : Codec → Octet
  | .sbc => avdtpMediaCodecSbc
  | .mpeg12 => avdtpMediaCodecMpeg12Audio
  | .aac => avdtpMediaCodecMpeg24Aac
  | .aptxAdaptive => avdtpMediaCodecNonA2dp

/-- The bytes of a codec entry. -/
structure CodecEntry (codec : Codec) where
  losc : Octet
  caps : Caps
  length_caps : caps.length + 2 = losc.toNat
  vendor : codec = .aptxAdaptive → a2dpConvertUint8ValuesToUint32 caps = some a2dpQtiVendorId ∧
    a2dpConvertUint8ValuesToUint16 (caps.drop 4) = some a2dpQtiAptxAdCodecId

namespace CodecEntry

variable {codec : Codec}

def bytes (e : CodecEntry codec) : Caps :=
  avdtpServiceMediaCodec :: e.losc :: avdtpMediaTypeAudio <<< 2 :: codec.mediaCodec :: e.caps

end CodecEntry

/-- A field in one of the bytes. -/
def part (i : ℕ) (mask : Octet) (bytes : Caps) : BitVec 32 := unsigned (octet bytes i &&& mask)

/-- The selection fields of a codec. -/
def selectionFields : Codec → List (Caps → BitVec 32)
  -- sampling frequency, channel mode, block length, subbands, allocation method
  | .sbc => [part 4 0xf0, part 4 0x0f, part 5 0xf0, part 5 0x0c, part 5 0x03]
  -- layer, channel mode, sampling frequency
  | .mpeg12 => [part 4 0xe0, part 4 0x0f, part 5 0x3f]
  -- object type, sampling frequency, channels
  | .aac => [part 4 0xff, fun bytes => aacFrequency (octet bytes 5) (octet bytes 6), part 6 0x0c]
  -- sampling frequency, channel mode
  | .aptxAdaptive => [part 10 0xf8, part 11 0x3f]

/-! ## Checks of a field -/

theorem has_unsigned : Has (unsigned b) i ↔ Has b i := by
  unfold Has unsigned
  rw [BitVec.getLsbD_setWidth, Bool.and_eq_true, decide_eq_true_eq]
  exact and_iff_right_of_imp fun h => (BitVec.lt_of_getLsbD h).trans (by decide)

theorem chosen_unsigned : Chosen (unsigned x) (unsigned l) (unsigned r) ↔ Chosen x l r :=
  exists_congr fun _ => and_congr (forall_congr' fun _ => iff_congr has_unsigned Iff.rfl)
    (and_congr has_unsigned has_unsigned)

/-- Two masks have a common bit, and an acceptor is asked for one bit. -/
def Agree (local' remote : BitVec 32) (initiating : Bool) : Prop :=
  local' &&& remote ≠ 0 ∧ (initiating = true ∨ ∃ i, Single remote i)

theorem oneBitSet_iff (y : BitVec 32) : oneBitSet y = true ↔ ∃ i, Single y i := by
  rw [exists_single_iff, oneBitSet, Bool.and_eq_true, bne_iff_ne, beq_iff_eq]

theorem checkField_iff {o y : BitVec 32} :
    checkField o y initiating = true ↔ o ≠ 0 ∧ (initiating = true ∨ ∃ i, Single y i) := by
  rw [checkField, Bool.and_eq_true, bne_iff_ne, Bool.or_eq_true, oneBitSet_iff, or_comm]

/-- The field is masked out. -/
theorem checkField_mask :
    checkField (unsigned a &&& unsigned f &&& (unsigned b &&& unsigned f))
      (unsigned b &&& unsigned f) initiating = true ↔
      Agree (unsigned (a &&& f)) (unsigned (b &&& f)) initiating := by
  rw [checkField_iff, ← BitVec.setWidth_and, ← BitVec.setWidth_and, Agree]

/-- The field is shifted out, and another mask is taken of it. -/
theorem checkField_shift_mask {m : BitVec 32} (hf : ∀ i < 8, Has f i ↔ k ≤ i ∧ Has m (i - k)) :
    checkField (unsigned a >>> k &&& m &&& (unsigned b >>> k &&& m)) (unsigned b &&& unsigned f)
      initiating = true ↔ Agree (unsigned (a &&& f)) (unsigned (b &&& f)) initiating := by
  rw [checkField_iff, ← BitVec.setWidth_and, Agree]
  refine and_congr_left' ?_
  rw [and_ne_zero_iff, and_ne_zero_iff]
  simp only [has_and, has_shiftRight, has_unsigned]
  constructor
  · rintro ⟨i, ⟨ha, hm⟩, hb, -⟩
    have hfi : Has f (k + i) :=
      (hf _ ha.lt).mpr ⟨Nat.le_add_right k i, by rwa [Nat.add_sub_cancel_left]⟩
    exact ⟨k + i, ⟨ha, hfi⟩, hb, hfi⟩
  · rintro ⟨j, ⟨ha, hfj⟩, hb, -⟩
    obtain ⟨hk, hm⟩ := (hf j ha.lt).mp hfj
    rw [← Nat.add_sub_cancel' hk] at ha hb
    exact ⟨j - k, ⟨ha, hm⟩, hb, hm⟩

/-- The field is what is left after a shift. -/
theorem checkField_shift (hf : ∀ i < 8, Has f i ↔ k ≤ i ∧ Has (BitVec.allOnes 32) (i - k)) :
    checkField (unsigned a >>> k &&& unsigned b >>> k) (unsigned b &&& unsigned f)
      initiating = true ↔ Agree (unsigned (a &&& f)) (unsigned (b &&& f)) initiating := by
  rw [← checkField_shift_mask hf, BitVec.and_allOnes, BitVec.and_allOnes]

/-- What is chosen passes the check of both sides. -/
theorem agree_of_chosen {x l r : BitVec 32} (h : Chosen x l r) : Agree l x false ∧ Agree r x false :=
  ⟨⟨h.overlap.1, .inr h.exists_single⟩, h.overlap.2, .inr h.exists_single⟩

/-! ## Checks of a codec -/

theorem refuse_iff {p : Prop} [Decidable p] {e : Option Bool} :
    (if p then some false else e) = some true ↔ ¬ p ∧ e = some true := by
  by_cases hp : p
  · simp [hp]
  · simp [hp]

/-- The least length that the check of a codec asks for. -/
def Codec.minLosc : Codec → Octet
  | .sbc | .mpeg12 => 6
  | .aac => 8
  | .aptxAdaptive => 19

/-- The bit rate field of an MPEG-1,2 audio codec. -/
def mp3BitRate (caps2 caps3 : Octet) : BitVec 32 :=
  (unsigned caps2 &&& 0x7f) <<< 8 ||| unsigned caps3 &&& 0xff

/-- What the check of a codec asks for besides its fields: that the bitpool ranges overlap, or that
the second one lies inside of the first; and a common bit rate. -/
def Extra (codec : Codec) (bytes bytes' : Caps) (initiating : Bool) : Prop :=
  match codec with
  | .sbc =>
    if initiating then octet bytes 6 ≤ octet bytes' 7 ∧ octet bytes' 6 ≤ octet bytes 7
    else octet bytes' 7 ≤ octet bytes 7 ∧ octet bytes 6 ≤ octet bytes' 6
  | .mpeg12 => mp3BitRate (octet bytes 6) (octet bytes 7) &&&
      mp3BitRate (octet bytes' 6) (octet bytes' 7) ≠ 0
  | .aac | .aptxAdaptive => True

/-- The acceptor's check of aptX Adaptive does not ask for one bit. -/
def asInitiator : Codec → Bool → Bool
  | .aptxAdaptive, _ => true
  | _, initiating => initiating

theorem sbc_compatible_iff (as bs : Caps) :
    areSBCCodecsCompatible (a0 :: a1 :: a2 :: a3 :: as) (b0 :: b1 :: b2 :: b3 :: bs) losc losc'
        initiating = some true ↔
      (6 ≤ losc ∧ 6 ≤ losc') ∧
      (Agree (unsigned (a0 &&& 0xf0)) (unsigned (b0 &&& 0xf0)) initiating ∧
        Agree (unsigned (a0 &&& 0x0f)) (unsigned (b0 &&& 0x0f)) initiating ∧
        Agree (unsigned (a1 &&& 0xf0)) (unsigned (b1 &&& 0xf0)) initiating ∧
        Agree (unsigned (a1 &&& 0x0c)) (unsigned (b1 &&& 0x0c)) initiating ∧
        Agree (unsigned (a1 &&& 0x03)) (unsigned (b1 &&& 0x03)) initiating) ∧
        if initiating then a2 ≤ b3 ∧ b2 ≤ a3 else b3 ≤ a3 ∧ a2 ≤ b2 := by
  rw [← checkField_shift (f := 0xf0) (k := 4) (by decide),
    ← checkField_shift (a := a1) (f := 0xf0) (k := 4) (by decide),
    ← checkField_shift_mask (f := 0x0c) (k := 2) (m := 3) (by decide), ← checkField_mask (f := 0x0f),
    ← checkField_mask (f := 0x03)]
  have hpools : ((if initiating then
      if a2 > b3 then some false else if b2 > a3 then some false else some true
    else if b3 > a3 then some false else if b2 < a2 then some false else some true) = some true) ↔
      if initiating then a2 ≤ b3 ∧ b2 ≤ a3 else b3 ≤ a3 ∧ a2 ≤ b2 := by
    cases initiating <;> simp [refuse_iff]
  simp only [areSBCCodecsCompatible, getElem?_cons_zero, getElem?_cons_succ,
    bind_eq_bind, bind_some, refuse_iff, Bool.not_eq_true', Bool.not_eq_false, hpools,
    BitVec.not_lt, and_assoc]
  exact Iff.rfl

theorem mpeg12_compatible_iff (as bs : Caps) :
    areMPEG12AudioCodecsCompatible (a0 :: a1 :: a2 :: a3 :: as) (b0 :: b1 :: b2 :: b3 :: bs) losc
        losc' initiating = some true ↔
      (6 ≤ losc ∧ 6 ≤ losc') ∧
      (Agree (unsigned (a0 &&& 0xe0)) (unsigned (b0 &&& 0xe0)) initiating ∧
        Agree (unsigned (a0 &&& 0x0f)) (unsigned (b0 &&& 0x0f)) initiating ∧
        Agree (unsigned (a1 &&& 0x3f)) (unsigned (b1 &&& 0x3f)) initiating) ∧
        mp3BitRate a2 a3 &&& mp3BitRate b2 b3 ≠ 0 := by
  rw [← checkField_shift (f := 0xe0) (k := 5) (by decide), ← checkField_mask (f := 0x0f),
    ← checkField_mask (f := 0x3f)]
  simp only [areMPEG12AudioCodecsCompatible, getElem?_cons_zero, getElem?_cons_succ,
    bind_eq_bind, bind_some, refuse_iff, Bool.not_eq_true', Bool.not_eq_false,
    BitVec.not_lt, and_assoc, and_true]
  exact Iff.rfl

theorem aac_compatible_iff (as bs : Caps) {a0 a1 a2 b0 b1 b2 : Octet} :
    areMPEG24AACCodecsCompatible (a0 :: a1 :: a2 :: as) (b0 :: b1 :: b2 :: bs) losc losc'
        initiating = some true ↔
      (8 ≤ losc ∧ 8 ≤ losc') ∧
      (Agree (unsigned (a0 &&& 0xff)) (unsigned (b0 &&& 0xff)) initiating ∧
        Agree (aacFrequency a1 a2) (aacFrequency b1 b2) initiating ∧
        Agree (unsigned (a2 &&& 0x0c)) (unsigned (b2 &&& 0x0c)) initiating) := by
  have hall : ∀ b : Octet, b &&& 0xff = b := fun b => BitVec.and_allOnes
  rw [← checkField_mask (f := 0x0c), hall, hall]
  unfold Agree
  rw [← checkField_iff, ← checkField_iff]
  simp only [areMPEG24AACCodecsCompatible, getElem?_cons_zero, getElem?_cons_succ,
    bind_eq_bind, bind_some, refuse_iff, Bool.not_eq_true', Bool.not_eq_false,
    BitVec.not_lt, and_assoc, and_true]
  exact Iff.rfl

theorem aptxAd_compatible_iff (as bs : Caps)
    {a0 a1 a2 a3 a4 a5 a6 a7 b0 b1 b2 b3 b4 b5 b6 b7 : Octet} :
    areAptxAdCodecsCompatible (a0 :: a1 :: a2 :: a3 :: a4 :: a5 :: a6 :: a7 :: as)
        (b0 :: b1 :: b2 :: b3 :: b4 :: b5 :: b6 :: b7 :: bs) losc losc' = some true ↔
      (19 ≤ losc ∧ 19 ≤ losc') ∧
      (Agree (unsigned (a6 &&& 0xf8)) (unsigned (b6 &&& 0xf8)) true ∧
        Agree (unsigned (a7 &&& 0x3f)) (unsigned (b7 &&& 0x3f)) true) := by
  have hagree : ∀ {a b f : Octet},
      Agree (unsigned (a &&& f)) (unsigned (b &&& f)) true ↔ b &&& a &&& f ≠ 0 := by
    intro a b f
    rw [Agree, and_iff_left (.inl rfl), and_ne_zero_iff, ne_zero_iff]
    refine exists_congr fun i => ?_
    rw [has_unsigned, has_unsigned, has_and, has_and, has_and, has_and]
    tauto
  rw [hagree, hagree]
  simp only [areAptxAdCodecsCompatible, areSamplingRatesCompatible, areChannelModesCompatible,
    getElem?_cons_zero, getElem?_cons_succ, bind_eq_bind, bind_some,
    refuse_iff, Bool.not_eq_true', Bool.not_eq_false, not_or, BitVec.not_lt, some.injEq,
    bne_iff_ne]

theorem exists_four {n : Caps} (h : 4 ≤ n.length) :
    ∃ a0 a1 a2 a3 as', n = a0 :: a1 :: a2 :: a3 :: as' := by
  match n, h with
  | a0 :: a1 :: a2 :: a3 :: as', _ => exact ⟨a0, a1, a2, a3, as', rfl⟩

theorem four_le_length {n : Octet} (hn : 6 ≤ n) (hle : n ≤ losc) (h : as.length + 2 = losc.toNat) :
    4 ≤ as.length := by
  have h6 : (6 : ℕ) ≤ n.toNat := hn
  have hlosc : n.toNat ≤ losc.toNat := hle
  omega

/-- The vendor check of two aptX Adaptive entries is the one of that codec. -/
theorem areVendorCodecsCompatible_aptxAd {losc losc' : Octet} (h : 6 ≤ losc) (h' : 6 ≤ losc')
    (ha : a2dpConvertUint8ValuesToUint32 as = some a2dpQtiVendorId)
    (hb : a2dpConvertUint8ValuesToUint32 bs = some a2dpQtiVendorId)
    (ha' : a2dpConvertUint8ValuesToUint16 (as.drop 4) = some a2dpQtiAptxAdCodecId)
    (hb' : a2dpConvertUint8ValuesToUint16 (bs.drop 4) = some a2dpQtiAptxAdCodecId) :
    areVendorCodecsCompatible as bs losc losc' = areAptxAdCodecsCompatible as bs losc losc' := by
  rw [areVendorCodecsCompatible, if_neg (BitVec.not_lt.mpr h), if_neg (BitVec.not_lt.mpr h'), ha, hb,
    ha', hb']
  rfl

/-- Codecs that are too short are refused. -/
theorem not_compatible_of_short {codec : Codec} (e e' : CodecEntry codec)
    (h : ¬ (codec.minLosc ≤ e.losc ∧ codec.minLosc ≤ e'.losc)) :
    areCodecsCompatible e.bytes e'.bytes initiating ≠ some true := by
  obtain ⟨losc, caps, hlength, hvendor⟩ := e
  obtain ⟨losc', caps', hlength', hvendor'⟩ := e'
  rw [← BitVec.not_lt, ← BitVec.not_lt] at h
  cases codec with
  | sbc =>
    show areSBCCodecsCompatible caps caps' losc losc' initiating ≠ _
    rw [areSBCCodecsCompatible, Ne, refuse_iff, refuse_iff]
    exact fun hc => h ⟨hc.1, hc.2.1⟩
  | mpeg12 =>
    show areMPEG12AudioCodecsCompatible caps caps' losc losc' initiating ≠ _
    rw [areMPEG12AudioCodecsCompatible, Ne, refuse_iff, refuse_iff]
    exact fun hc => h ⟨hc.1, hc.2.1⟩
  | aac =>
    show areMPEG24AACCodecsCompatible caps caps' losc losc' initiating ≠ _
    rw [areMPEG24AACCodecsCompatible, Ne, refuse_iff, refuse_iff]
    exact fun hc => h ⟨hc.1, hc.2.1⟩
  | aptxAdaptive =>
    show areVendorCodecsCompatible caps caps' losc losc' ≠ _
    by_cases h6 : 6 ≤ losc ∧ 6 ≤ losc'
    · rw [areVendorCodecsCompatible_aptxAd h6.1 h6.2 (hvendor rfl).1 (hvendor' rfl).1
        (hvendor rfl).2 (hvendor' rfl).2, areAptxAdCodecsCompatible, Ne, refuse_iff]
      exact fun hc => h (not_or.mp hc.1)
    · rw [areVendorCodecsCompatible, Ne, refuse_iff, refuse_iff]
      exact fun hc => h6 ⟨BitVec.not_lt.mp hc.1, BitVec.not_lt.mp hc.2.1⟩

/-- **What the check of a codec asks for.** -/
theorem compatible_iff {codec : Codec} (e e' : CodecEntry codec) :
    areCodecsCompatible e.bytes e'.bytes initiating = some true ↔
      (codec.minLosc ≤ e.losc ∧ codec.minLosc ≤ e'.losc) ∧
      (∀ field ∈ selectionFields codec,
        Agree (field e.bytes) (field e'.bytes) (asInitiator codec initiating)) ∧
      Extra codec e.bytes e'.bytes initiating := by
  by_cases hlosc : codec.minLosc ≤ e.losc ∧ codec.minLosc ≤ e'.losc
  · obtain ⟨losc, caps, hlength, hvendor⟩ := e
    obtain ⟨losc', caps', hlength', hvendor'⟩ := e'
    have hmin : 6 ≤ codec.minLosc := by cases codec <;> decide
    obtain ⟨a0, a1, a2, a3, as, rfl⟩ := exists_four (four_le_length hmin hlosc.1 hlength)
    obtain ⟨b0, b1, b2, b3, bs, rfl⟩ := exists_four (four_le_length hmin hlosc.2 hlength')
    cases codec <;> simp only [selectionFields, forall_mem_cons, not_mem_nil, false_imp_iff,
      asInitiator, implies_true, and_true]
    case sbc =>
      refine (sbc_compatible_iff as bs).trans (and_congr_right' ?_)
      exact Iff.rfl
    case mpeg12 =>
      refine (mpeg12_compatible_iff as bs).trans (and_congr_right' ?_)
      exact Iff.rfl
    case aac =>
      refine (aac_compatible_iff (a3 :: as) (b3 :: bs)).trans (and_congr_right' ?_)
      exact (and_iff_left trivial).symm
    case aptxAdaptive =>
      have h19 : (19 : ℕ) ≤ losc.toNat := hlosc.1
      have h19' : (19 : ℕ) ≤ losc'.toNat := hlosc.2
      obtain ⟨a4, a5, a6, a7, as, rfl⟩ := exists_four (n := as) (by
        simp only [length_cons] at hlength
        omega)
      obtain ⟨b4, b5, b6, b7, bs, rfl⟩ := exists_four (n := bs) (by
        simp only [length_cons] at hlength'
        omega)
      have hleft : (6 : Octet) ≤ losc := BitVec.le_trans hmin hlosc.1
      have hright : (6 : Octet) ≤ losc' := BitVec.le_trans hmin hlosc.2
      have hvendors := areVendorCodecsCompatible_aptxAd hleft hright (hvendor rfl).1 (hvendor' rfl).1
        (hvendor rfl).2 (hvendor' rfl).2
      refine (iff_of_eq (congrArg (· = some true) hvendors)).trans ?_
      refine (aptxAd_compatible_iff as bs).trans (and_congr_right' ?_)
      exact (and_iff_left trivial).symm
  · exact iff_of_false (not_compatible_of_short e e' hlosc) fun h => hlosc h.1

end Mh40.A2dp
