import Mh40.A2dp.CodecEntries
import Mh40.A2dp.ServiceCaps

/-!
# What the codec checks read

A check that is run on the bytes of two codec entries alone gives `none` exactly when it reads
outside of one of them.

* `Below`: the order of partial results. `areCodecsCompatible_below`: a check that stays inside of
  the entries gives the same result in front of any other bytes.
* `VendorFits`: the lengths that the vendor checks would need.
* **`isSome_areCodecsCompatible_iff`**: the check stays inside exactly when they are there.
-/

namespace Mh40.A2dp

open List Option

/-! ## The same result with more bytes -/

section Below

variable {α β : Type}

/-- The second result is the first one, if there is one. -/
def Below (x y : Option α) : Prop := ∀ v, x = some v → y = some v

theorem Below.refl (x : Option α) : Below x x := fun _ h => h

theorem Below.bind {x y : Option α} {f g : α → Option β} (h : Below x y)
    (hf : ∀ a, Below (f a) (g a)) : Below (x.bind f) (y.bind g) := by
  intro v hv
  obtain ⟨a, ha, hfa⟩ := bind_eq_some_iff.mp hv
  exact bind_eq_some_iff.mpr ⟨a, h a ha, hf a v hfa⟩

theorem Below.ite {p : Prop} [Decidable p] {x y x' y' : Option α} (h : Below x y)
    (h' : Below x' y') : Below (if p then x else x') (if p then y else y') := by
  by_cases hp : p
  · rw [if_pos hp, if_pos hp]
    exact h
  · rw [if_neg hp, if_neg hp]
    exact h'

/-- What can be read of one list, can be read of the other. -/
def Inside (l l' : List α) : Prop := ∀ i : ℕ, Below l[i]? l'[i]?

theorem inside_append (l more : List α) : Inside l (l ++ more) := fun i v h => by
  obtain ⟨hi, -⟩ := List.getElem?_eq_some_iff.mp h
  rw [getElem?_append_left hi, h]

theorem Inside.drop {l l' : List α} (h : Inside l l') (n : ℕ) : Inside (l.drop n) (l'.drop n) :=
  fun i => by
    rw [getElem?_drop, getElem?_drop]
    exact h _

end Below

variable {l l' r r' : Caps} {localLosc remoteLosc : Octet} {initiating : Bool}

theorem a2dpConvertUint8ValuesToUint32_below (h : Inside l l') :
    Below (a2dpConvertUint8ValuesToUint32 l) (a2dpConvertUint8ValuesToUint32 l') :=
  (h 0).bind fun _ => (h 1).bind fun _ => (h 2).bind fun _ => (h 3).bind fun _ => Below.refl _

theorem a2dpConvertUint8ValuesToUint16_below (h : Inside l l') :
    Below (a2dpConvertUint8ValuesToUint16 l) (a2dpConvertUint8ValuesToUint16 l') :=
  (h 0).bind fun _ => (h 1).bind fun _ => Below.refl _

theorem areVendorCodecsCompatible_below (hl : Inside l l') (hr : Inside r r') :
    Below (areVendorCodecsCompatible l r localLosc remoteLosc)
      (areVendorCodecsCompatible l' r' localLosc remoteLosc) := by
  unfold areVendorCodecsCompatible areCsrFastStreamCodecsCompatible fastStreamMusic
    areAptxCodecsCompatible areAptxAdCodecsCompatible
  repeat' first
    | exact Below.refl _
    | exact hl _
    | exact hr _
    | exact a2dpConvertUint8ValuesToUint32_below hl
    | exact a2dpConvertUint8ValuesToUint32_below hr
    | exact a2dpConvertUint8ValuesToUint16_below (hl.drop 4)
    | exact a2dpConvertUint8ValuesToUint16_below (hr.drop 4)
    | refine Below.ite ?_ ?_
    | refine Below.bind ?_ fun _ => ?_

/-- **A check that stays inside of two entries does not depend on what is behind them.** -/
theorem areCodecsCompatible_below (hl : Inside l l') (hr : Inside r r') :
    Below (areCodecsCompatible l r initiating) (areCodecsCompatible l' r' initiating) := by
  unfold areCodecsCompatible areSBCCodecsCompatible areMPEG12AudioCodecsCompatible
    areMPEG24AACCodecsCompatible
  repeat' first
    | exact Below.refl _
    | exact hl _
    | exact hr _
    | exact hl.drop 4 _
    | exact hr.drop 4 _
    | exact areVendorCodecsCompatible_below (hl.drop 4) (hr.drop 4)
    | refine Below.ite ?_ ?_
    | refine Below.bind ?_ fun _ => ?_

/-! ## Where a check stays inside -/

theorem isSome_ite_iff {p : Prop} [Decidable p] {x y : Option Bool} :
    (if p then x else y).isSome ↔ (p → x.isSome) ∧ (¬ p → y.isSome) := by
  by_cases hp : p
  · simp [hp]
  · simp [hp]

variable {losc losc' : Octet}

theorem four_le_of_not_lt {n : Octet} (hn : 6 ≤ n) (h : ¬ losc < n)
    (hl : l.length + 2 = losc.toNat) : 4 ≤ l.length :=
  four_le_length hn (BitVec.not_lt.mp h) hl

/-- A check that only reads the first four octets stays inside, behind the checks of the lengths. -/
theorem isSome_checked {n : Octet} {check : Option Bool} (hn : 6 ≤ n)
    (hl : l.length + 2 = losc.toNat) (hr : r.length + 2 = losc'.toNat)
    (hcheck : ∀ a0 a1 a2 a3 as b0 b1 b2 b3 bs, l = a0 :: a1 :: a2 :: a3 :: as →
      r = b0 :: b1 :: b2 :: b3 :: bs → check.isSome) :
    (if losc < n then some false else if losc' < n then some false else check).isSome := by
  rw [isSome_ite_iff, isSome_ite_iff]
  refine ⟨fun _ => rfl, fun h => ⟨fun _ => rfl, fun h' => ?_⟩⟩
  obtain ⟨a0, a1, a2, a3, as, hl'⟩ := exists_four (four_le_of_not_lt hn h hl)
  obtain ⟨b0, b1, b2, b3, bs, hr'⟩ := exists_four (four_le_of_not_lt hn h' hr)
  exact hcheck a0 a1 a2 a3 as b0 b1 b2 b3 bs hl' hr'

/-- The checks of the standard codecs stay inside. -/
theorem isSome_standard (hl : l.length + 2 = losc.toNat) (hr : r.length + 2 = losc'.toNat) :
    (areSBCCodecsCompatible l r losc losc' initiating).isSome ∧
      (areMPEG12AudioCodecsCompatible l r losc losc' initiating).isSome ∧
      (areMPEG24AACCodecsCompatible l r losc losc' initiating).isSome := by
  unfold areSBCCodecsCompatible areMPEG12AudioCodecsCompatible areMPEG24AACCodecsCompatible
  refine ⟨?_, ?_, ?_⟩
  all_goals
    refine isSome_checked (by decide) hl hr ?_
    rintro _ _ _ _ _ _ _ _ _ _ rfl rfl
    simp only [getElem?_cons_zero, getElem?_cons_succ, bind_eq_bind,
      bind_some, isSome_ite_iff, isSome_some, implies_true, and_self]

/-! ## Vendor codecs -/

/-- The vendor and the codec identifier of a vendor codec's data. -/
def vendorIds (caps : Caps) : Option (BitVec 32 × BitVec 16) := do
  let vendor ← a2dpConvertUint8ValuesToUint32 caps
  let codec ← a2dpConvertUint8ValuesToUint16 (caps.drop 4)
  some (vendor, codec)

/-- The codecs that share `areAptxCodecsCompatible`. -/
def isAptx (ids : BitVec 32 × BitVec 16) : Prop :=
  ids = (a2dpCsrVendorId, a2dpCsrAptxAclSprintCodecId) ∨ ids = (a2dpAptVendorId, a2dpCsrAptxCodecId) ∨
    ids = (a2dpQtiVendorId, a2dpQtiAptxhdCodecId) ∨ ids = (a2dpQtiVendorId, a2dpQtiAptxLlCodecId)

instance (ids : BitVec 32 × BitVec 16) : Decidable (isAptx ids) :=
  inferInstanceAs (Decidable (_ ∨ _ ∨ _ ∨ _))

/-- The lengths that two vendor entries need, for their data. An entry of 6 or 7 bytes is taken for
one with a codec identifier, and an entry of 7 or 8 bytes for one with a first octet of values. -/
structure VendorFits (losc losc' : Octet) (caps caps' : Caps) : Prop where
  ids : 8 ≤ losc ∧ 8 ≤ losc'
  aptx : ∀ ids, vendorIds caps = some ids → vendorIds caps' = some ids → isAptx ids →
    9 ≤ losc ∧ 9 ≤ losc'
  fastStream : vendorIds caps = some (a2dpCsrVendorId, a2dpCsrFaststreamCodecId) →
    vendorIds caps' = some (a2dpCsrVendorId, a2dpCsrFaststreamCodecId) →
      (9 ≤ losc ∧ 9 ≤ losc') ∧
        (octet caps 6 &&& octet caps' 6 &&& 3 ≠ 0 → 10 ≤ losc ∧ 10 ≤ losc')

/-- An octet of an entry is there, or it is too short. -/
theorem getElem?_cases (xs : Caps) (i : ℕ) :
    (∃ x, xs[i]? = some x ∧ octet xs i = x ∧ i < xs.length) ∨ xs[i]? = none ∧ ¬ i < xs.length := by
  by_cases hi : i < xs.length
  · have hget := getElem?_eq_getElem hi
    exact .inl ⟨xs[i], hget, by rw [octet, getD_eq_getElem?_getD, hget]; rfl, hi⟩
  · exact .inr ⟨getElem?_eq_none (Nat.not_lt.mp hi), hi⟩

theorem isSome_aptx {mask mask' : Octet} (h : ¬ (losc < 7 ∨ losc' < 7)) :
    (areAptxCodecsCompatible l r losc losc' mask mask').isSome ↔ 6 < l.length ∧ 6 < r.length := by
  rw [areAptxCodecsCompatible, if_neg h]
  obtain ⟨l6, hl6, -, hl⟩ | ⟨hl6, hl⟩ := getElem?_cases l 6
  · obtain ⟨r6, hr6, -, hr⟩ | ⟨hr6, hr⟩ := getElem?_cases r 6
    · simp [hl, hr, isSome_ite_iff]
    · simp [hl6, hr]
  · simp [hl]

theorem isSome_aptxAd (hl : l.length + 2 = losc.toNat) (hr : r.length + 2 = losc'.toNat) :
    (areAptxAdCodecsCompatible l r losc losc').isSome := by
  rw [areAptxAdCodecsCompatible, isSome_ite_iff]
  refine ⟨fun _ => rfl, fun h => ?_⟩
  rw [not_or, BitVec.not_lt, BitVec.not_lt] at h
  have h19 : (19 : ℕ) ≤ losc.toNat := h.1
  have h19' : (19 : ℕ) ≤ losc'.toNat := h.2
  obtain ⟨l6, hl6, -, -⟩ | ⟨-, hlen⟩ := getElem?_cases l 6
  · obtain ⟨r6, hr6, -, -⟩ | ⟨-, hlen⟩ := getElem?_cases r 6
    · obtain ⟨l7, hl7, -, -⟩ | ⟨-, hlen⟩ := getElem?_cases l 7
      · obtain ⟨r7, hr7, -, -⟩ | ⟨-, hlen⟩ := getElem?_cases r 7
        · simp [hl6, hr6, hl7, hr7, isSome_ite_iff]
        · omega
      · omega
    · omega
  · omega

/-- An octet that is read of both entries. -/
theorem isSome_readBoth {β : Type} (i : ℕ) (f : Octet → Octet → Option β)
    (hf : i < l.length → i < r.length → ∀ a b, (f a b).isSome) :
    (l[i]?.bind fun a => r[i]?.bind fun b => f a b).isSome ↔ i < l.length ∧ i < r.length := by
  obtain ⟨a, ha, -, hl⟩ | ⟨ha, hl⟩ := getElem?_cases l i
  · obtain ⟨b, hb, -, hr⟩ | ⟨hb, hr⟩ := getElem?_cases r i
    · rw [ha, hb]
      exact iff_of_true (hf hl hr a b) ⟨hl, hr⟩
    · rw [ha, hb]
      exact iff_of_false Bool.false_ne_true fun h => hr h.2
  · rw [ha]
    exact iff_of_false Bool.false_ne_true fun h => hl h.1

theorem isSome_fastStream (h : ¬ (losc < 8 ∨ losc' < 8)) :
    (areCsrFastStreamCodecsCompatible l r losc losc').isSome ↔
      (6 < l.length ∧ 6 < r.length) ∧
        (octet l 6 &&& octet r 6 &&& 3 ≠ 0 → 7 < l.length ∧ 7 < r.length) := by
  rw [areCsrFastStreamCodecsCompatible, if_neg h]
  obtain ⟨l6, hl6, hol, hl⟩ | ⟨hl6, hl⟩ := getElem?_cases l 6
  · obtain ⟨r6, hr6, hor, hr⟩ | ⟨hr6, hr⟩ := getElem?_cases r 6
    · rw [hol, hor, hl6, hr6]
      simp only [bind_eq_bind, bind_some, fastStreamMusic]
      generalize l6 &&& r6 = both
      have hbits : both &&& 3 = 0 ↔ both &&& 1 = 0 ∧ both &&& 2 = 0 :=
        (by decide : ∀ b : Octet, b &&& 3 = 0 ↔ b &&& 1 = 0 ∧ b &&& 2 = 0) both
      rw [and_iff_right ⟨hl, hr⟩, Ne, hbits]
      by_cases h1 : both &&& 1 = 0
      · rw [if_pos h1, bind_some, if_neg (by decide)]
        by_cases h2 : both &&& 2 = 0
        · rw [if_pos h2]
          exact iff_of_true rfl fun hn => absurd ⟨h1, h2⟩ hn
        · rw [if_neg h2, isSome_readBoth 7 _ fun _ _ _ _ => rfl]
          exact ⟨fun hlen _ => hlen, fun himp => himp fun hb => h2 hb.2⟩
      · rw [if_neg h1]
        simp only [bind_assoc, bind_some]
        rw [isSome_readBoth 7 _ fun hl7 hr7 a b => ?_]
        · exact ⟨fun hlen _ => hlen, fun himp => himp fun hb => h1 hb.1⟩
        · rw [isSome_ite_iff, isSome_ite_iff]
          exact ⟨fun _ => rfl, fun _ => ⟨fun _ => rfl, fun _ =>
            (isSome_readBoth 7 _ fun _ _ _ _ => rfl).mpr ⟨hl7, hr7⟩⟩⟩
    · simp [hl6, hr]
  · simp [hl]

/-- The identifiers of an entry that is long enough. -/
theorem exists_vendorIds (h : 6 ≤ l.length) : ∃ vendor codec,
    a2dpConvertUint8ValuesToUint32 l = some vendor ∧
      a2dpConvertUint8ValuesToUint16 (l.drop 4) = some codec ∧
        vendorIds l = some (vendor, codec) := by
  obtain ⟨a0, a1, a2, a3, as, rfl⟩ := exists_four (n := l) (by omega)
  match as, h with
  | a4 :: a5 :: as, _ => exact ⟨_, _, rfl, rfl, rfl⟩

/-- The codec identifier of an entry that is too short cannot be read. -/
theorem codecId_eq_none (h : ¬ 6 ≤ l.length) :
    a2dpConvertUint8ValuesToUint16 (l.drop 4) = none := by
  match l, h with
  | [], _ | [_], _ | [_, _], _ | [_, _, _], _ | [_, _, _, _], _ | [_, _, _, _, _], _ => rfl
  | _ :: _ :: _ :: _ :: _ :: _ :: _, h =>
    simp only [length_cons] at h
    omega

/-- The lengths in terms of the data, for one codec. -/
theorem vendorFits_iff {v : BitVec 32} {c : BitVec 16} (hl : l.length + 2 = losc.toNat)
    (hr : r.length + 2 = losc'.toNat) (h : 6 ≤ l.length ∧ 6 ≤ r.length)
    (hids : vendorIds l = some (v, c)) (hids' : vendorIds r = some (v, c)) :
    VendorFits losc losc' l r ↔ (isAptx (v, c) → 6 < l.length ∧ 6 < r.length) ∧
      ((v, c) = (a2dpCsrVendorId, a2dpCsrFaststreamCodecId) → (6 < l.length ∧ 6 < r.length) ∧
        (octet l 6 &&& octet r 6 &&& 3 ≠ 0 → 7 < l.length ∧ 7 < r.length)) := by
  have hlong : ∀ {n : Octet} {m : ℕ}, n.toNat = m + 3 →
      (n ≤ losc ∧ n ≤ losc' ↔ m < l.length ∧ m < r.length) := by
    intro n m hn
    rw [BitVec.le_def, BitVec.le_def]
    omega
  constructor
  · rintro ⟨-, haptx, hfast⟩
    rw [hids, hids', hlong rfl, hlong rfl] at hfast
    refine ⟨fun ha => (hlong rfl).mp (haptx _ hids hids' ha), fun heq => ?_⟩
    exact hfast (congrArg some heq) (congrArg some heq)
  · rintro ⟨haptx, hfast⟩
    refine ⟨(hlong (m := 5) rfl).mpr (by omega), fun ids hi _ ha => ?_, fun hi _ => ?_⟩
    · obtain rfl := some.inj (hids.symm.trans hi)
      exact (hlong rfl).mpr (haptx ha)
    · rw [hlong rfl, hlong rfl]
      exact hfast (some.inj (hids.symm.trans hi))

theorem isSome_vendor_iff (hl : l.length + 2 = losc.toNat) (hr : r.length + 2 = losc'.toNat)
    (h6 : 6 ≤ losc) (h6' : 6 ≤ losc') :
    (areVendorCodecsCompatible l r losc losc').isSome ↔ VendorFits losc losc' l r := by
  rw [areVendorCodecsCompatible, if_neg (BitVec.not_lt.mpr h6), if_neg (BitVec.not_lt.mpr h6')]
  have hle : ∀ {n : Octet} {m : ℕ} {x : Caps} {y : Octet}, x.length + 2 = y.toNat →
      n.toNat = m + 2 → (n ≤ y ↔ m ≤ x.length) := by
    intro n m x y hx hn
    rw [BitVec.le_def]
    omega
  by_cases h8 : 6 ≤ l.length ∧ 6 ≤ r.length
  · obtain ⟨v, c, hv, hc, hids⟩ := exists_vendorIds h8.1
    obtain ⟨v', c', hv', hc', hids'⟩ := exists_vendorIds h8.2
    have hlt7 : ¬ (losc < 7 ∨ losc' < 7) := by
      rw [not_or, BitVec.not_lt, BitVec.not_lt, hle (m := 5) hl rfl, hle (m := 5) hr rfl]
      omega
    have hlt8 : ¬ (losc < 8 ∨ losc' < 8) := by
      rw [not_or, BitVec.not_lt, BitVec.not_lt, hle (m := 6) hl rfl, hle (m := 6) hr rfl]
      exact h8
    rw [hv, hv', hc, hc']
    simp only [bind_eq_bind, bind_some]
    by_cases hne : v ≠ v' ∨ c ≠ c'
    · rw [if_pos hne]
      have hother : ∀ ids, vendorIds l = some ids → vendorIds r ≠ some ids := by
        rintro ids hi hi'
        obtain rfl := some.inj (hids.symm.trans hi)
        obtain ⟨rfl, rfl⟩ := Prod.ext_iff.mp (some.inj (hids'.symm.trans hi'))
        exact hne.elim (fun h => h rfl) fun h => h rfl
      exact iff_of_true rfl ⟨⟨(hle hl rfl).mpr h8.1, (hle hr rfl).mpr h8.2⟩,
        fun ids hi hi' _ => absurd hi' (hother ids hi), fun hi hi' => absurd hi' (hother _ hi)⟩
    · obtain ⟨rfl, rfl⟩ : v = v' ∧ c = c' := by
        rw [not_or, Decidable.not_not, Decidable.not_not] at hne
        exact hne
      rw [if_neg hne, vendorFits_iff hl hr h8 hids hids']
      -- one codec after the other
      by_cases h1 : v = a2dpCsrVendorId ∧ c = a2dpCsrFaststreamCodecId
      · obtain ⟨rfl, rfl⟩ := h1
        rw [if_pos ⟨rfl, rfl⟩, isSome_fastStream hlt8]
        exact ⟨fun h => ⟨fun ha => absurd ha (by decide), fun _ => h⟩, fun h => h.2 rfl⟩
      have hslow : (v, c) ≠ (a2dpCsrVendorId, a2dpCsrFaststreamCodecId) := fun h =>
        h1 (Prod.ext_iff.mp h)
      rw [if_neg h1, and_iff_left fun h => absurd h hslow]
      by_cases h2 : v = a2dpCsrVendorId ∧ c = a2dpCsrAptxAclSprintCodecId
      · obtain ⟨rfl, rfl⟩ := h2
        rw [if_pos ⟨rfl, rfl⟩, isSome_aptx hlt7]
        exact ⟨fun h _ => h, fun h => h (by decide)⟩
      by_cases h3 : v = a2dpAptVendorId ∧ c = a2dpCsrAptxCodecId
      · obtain ⟨rfl, rfl⟩ := h3
        rw [if_neg h2, if_pos ⟨rfl, rfl⟩, isSome_aptx hlt7]
        exact ⟨fun h _ => h, fun h => h (by decide)⟩
      by_cases h4 : v = a2dpQtiVendorId ∧ c = a2dpQtiAptxAdCodecId
      · obtain ⟨rfl, rfl⟩ := h4
        rw [if_neg h2, if_neg h3, if_pos ⟨rfl, rfl⟩]
        exact iff_of_true (isSome_aptxAd hl hr) fun ha => absurd ha (by decide)
      by_cases h5 : v = a2dpQtiVendorId ∧ c = a2dpQtiAptxhdCodecId
      · obtain ⟨rfl, rfl⟩ := h5
        rw [if_neg h2, if_neg h3, if_neg h4, if_pos ⟨rfl, rfl⟩, isSome_aptx hlt7]
        exact ⟨fun h _ => h, fun h => h (by decide)⟩
      by_cases h6 : v = a2dpQtiVendorId ∧ c = a2dpQtiAptxLlCodecId
      · obtain ⟨rfl, rfl⟩ := h6
        rw [if_neg h2, if_neg h3, if_neg h4, if_neg h5, if_pos ⟨rfl, rfl⟩, isSome_aptx hlt7]
        exact ⟨fun h _ => h, fun h => h (by decide)⟩
      rw [if_neg h2, if_neg h3, if_neg h4, if_neg h5, if_neg h6]
      refine iff_of_true rfl fun ha => ?_
      simp only [isAptx, Prod.mk.injEq] at ha
      exact (ha.elim h2 fun ha => ha.elim h3 fun ha => ha.elim h5 h6).elim
  · refine iff_of_false ?_ fun hfits => h8 ⟨(hle hl rfl).mp hfits.ids.1, (hle hr rfl).mp hfits.ids.2⟩
    obtain hshort | hshort := not_and_or.mp h8
    · simp [codecId_eq_none hshort]
    · simp [codecId_eq_none hshort]

/-! ## Codec entries of a list -/

/-- Two entries of vendor codecs have the lengths that their check needs, unless it refuses them
for their length before it reads them. -/
def EntryFits (e e' : ServiceEntry) : Prop :=
  ∀ caps caps', e.data = avdtpMediaTypeAudio <<< 2 :: avdtpMediaCodecNonA2dp :: caps →
    e'.data = avdtpMediaTypeAudio <<< 2 :: avdtpMediaCodecNonA2dp :: caps' →
      6 ≤ e.losc → 6 ≤ e'.losc → VendorFits e.losc e'.losc caps caps'

theorem exists_data {e : ServiceEntry} (h : 2 ≤ e.losc) :
    ∃ mediaType mediaCodec caps, e.data = mediaType :: mediaCodec :: caps ∧
      caps.length + 2 = e.losc.toNat := by
  have h2 : (2 : ℕ) ≤ e.losc.toNat := h
  have hlength := e.length_data
  match hdata : e.data with
  | [] =>
    rw [hdata] at hlength
    simp only [length_nil] at hlength
    omega
  | [_] =>
    rw [hdata] at hlength
    simp only [length_cons, length_nil] at hlength
    omega
  | mediaType :: mediaCodec :: caps =>
    rw [hdata] at hlength
    exact ⟨mediaType, mediaCodec, caps, rfl, hlength⟩

/-- **The check of two codec entries stays inside of them** exactly when they fit. -/
theorem isSome_areCodecsCompatible_iff {e e' : ServiceEntry} (he : 2 ≤ e.losc) (he' : 2 ≤ e'.losc) :
    (areCodecsCompatible e.bytes e'.bytes initiating).isSome ↔ EntryFits e e' := by
  obtain ⟨t, k, caps, hdata, hlength⟩ := exists_data he
  obtain ⟨t', k', caps', hdata', hlength'⟩ := exists_data he'
  have hcheck : areCodecsCompatible e.bytes e'.bytes initiating =
      if t ≠ t' then some false
      else if k ≠ k' then some false
      else if t ≠ avdtpMediaTypeAudio <<< 2 then some true
      else if k = avdtpMediaCodecSbc then
        areSBCCodecsCompatible caps caps' e.losc e'.losc initiating
      else if k = avdtpMediaCodecMpeg12Audio then
        areMPEG12AudioCodecsCompatible caps caps' e.losc e'.losc initiating
      else if k = avdtpMediaCodecMpeg24Aac then
        areMPEG24AACCodecsCompatible caps caps' e.losc e'.losc initiating
      else if k = avdtpMediaCodecNonA2dp then areVendorCodecsCompatible caps caps' e.losc e'.losc
      else some true := by
    rw [ServiceEntry.bytes, ServiceEntry.bytes, hdata, hdata']
    rfl
  rw [hcheck]
  have hfits : EntryFits e e' ↔ (t = avdtpMediaTypeAudio <<< 2 → k = avdtpMediaCodecNonA2dp →
      t = t' → k = k' → 6 ≤ e.losc → 6 ≤ e'.losc → VendorFits e.losc e'.losc caps caps') := by
    unfold EntryFits
    rw [hdata, hdata']
    constructor
    · rintro h rfl rfl rfl rfl
      exact h caps caps' rfl rfl
    · intro h as bs has hbs
      obtain ⟨ht, htail⟩ := cons.inj has
      obtain ⟨hk, rfl⟩ := cons.inj htail
      obtain ⟨ht', htail'⟩ := cons.inj hbs
      obtain ⟨hk', rfl⟩ := cons.inj htail'
      exact h ht hk (ht.trans ht'.symm) (hk.trans hk'.symm)
  rw [hfits]
  by_cases htype : t ≠ t'
  · rw [if_pos htype]
    exact iff_of_true rfl fun _ _ h => absurd h htype
  by_cases hcodec : k ≠ k'
  · rw [if_neg htype, if_pos hcodec]
    exact iff_of_true rfl fun _ _ _ h => absurd h hcodec
  by_cases haudio : t ≠ avdtpMediaTypeAudio <<< 2
  · rw [if_neg htype, if_neg hcodec, if_pos haudio]
    exact iff_of_true rfl fun h => absurd h haudio
  rw [if_neg htype, if_neg hcodec, if_neg haudio]
  by_cases hvendor : k = avdtpMediaCodecNonA2dp
  · obtain rfl := hvendor
    rw [if_neg (by decide), if_neg (by decide), if_neg (by decide), if_pos rfl]
    by_cases h6 : 6 ≤ e.losc ∧ 6 ≤ e'.losc
    · rw [isSome_vendor_iff hlength hlength' h6.1 h6.2]
      exact ⟨fun h _ _ _ _ _ _ => h, fun h => h (Decidable.not_not.mp haudio) rfl
        (Decidable.not_not.mp htype) (Decidable.not_not.mp hcodec) h6.1 h6.2⟩
    · refine iff_of_true ?_ fun _ _ _ _ h h' => absurd ⟨h, h'⟩ h6
      rw [areVendorCodecsCompatible, isSome_ite_iff]
      refine ⟨fun _ => rfl, fun h => ?_⟩
      rw [if_pos (Decidable.byContradiction fun h' => h6 ⟨BitVec.not_lt.mp h, BitVec.not_lt.mp h'⟩)]
      rfl
  · rw [if_neg hvendor]
    refine iff_of_true ?_ fun _ h => absurd h hvendor
    rw [isSome_ite_iff, isSome_ite_iff, isSome_ite_iff]
    obtain ⟨hsbc, hmpeg12, haac⟩ := @isSome_standard _ _ initiating _ _ hlength hlength'
    exact ⟨fun _ => hsbc, fun _ => ⟨fun _ => hmpeg12, fun _ => ⟨fun _ => haac, fun _ => rfl⟩⟩⟩

end Mh40.A2dp
