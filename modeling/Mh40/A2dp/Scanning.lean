import Mh40.A2dp.CodecReads

/-!
# Scans of accepted lists

What the scans of two lists read when the validation has accepted them.

* `Scanned`: each scan of one list ends, stays inside and is a search in its entries.
* `Matched`: the comparison of the two codecs reads their entries alone.
* **`scans_right_iff_fits`**: everything but the comparison of the codecs is always right, and that
  one is when the entries of vendor codecs have the lengths that it needs.
-/

namespace Mh40.A2dp

open Option

variable {c c' : ValidatedCaps} {e e' : ServiceEntry} {es post post' : List ServiceEntry}
  {initiating : Bool}

/-- The scans of one list. -/
structure Scanned (c : ValidatedCaps) : Prop where
  denotes : encode (entriesOf c.bytes) = c.bytes
  codec : ∃ found, suffixAt isCodec (entriesOf c.bytes) = some found ∧
    a2dpFindCodecSpecificInformationSized c.bytes c.bytes.length =
      some (true, encode found, (encode found).length) ∧
    a2dpFindCodecSpecificInformation c.bytes = some (true, encode found)
  contentProtection : a2dpGetContentProtection c.bytes c.bytes.length =
    some ((suffixAt isScms (entriesOf c.bytes)).map encode)
  service : ∀ service, a2dpIsServiceSupported service c.bytes c.bytes.length =
    some ((entriesOf c.bytes).any fun e => service = e.category)

/-- The comparison of the codecs of two lists: it gives what it gives on the two entries alone. -/
def Matched (c c' : ValidatedCaps) : Prop :=
  ∀ initiating e e' post post', suffixAt isCodec (entriesOf c.bytes) = some (e :: post) →
    suffixAt isCodec (entriesOf c'.bytes) = some (e' :: post') →
      ∃ compatible, areCodecsCompatible e.bytes e'.bytes initiating = some compatible ∧
        a2dpFindMatchingCodecSpecificInformation c.bytes c'.bytes initiating =
          some (if compatible then some (encode (e' :: post')) else none)

/-- Every scan of a local and of a remote list is right. -/
structure ScansRight (c c' : ValidatedCaps) : Prop where
  localList : Scanned c
  remoteList : Scanned c'
  services : a2dpAreServicesCategoriesCompatible c.bytes c.bytes.length c'.bytes c'.bytes.length =
    some (((entriesOf c'.bytes).find? (isUnsupported (entriesOf c.bytes))).map
      ServiceEntry.category)
  matching : Matched c c'

/-- The codecs of the two lists have the lengths that their comparison needs. -/
def CodecsFit (c c' : ValidatedCaps) : Prop :=
  ∀ e ∈ (entriesOf c.bytes).find? isCodec, ∀ e' ∈ (entriesOf c'.bytes).find? isCodec, EntryFits e e'

theorem find?_of_suffixAt {p : ServiceEntry → Bool} :
    ∀ {es : List ServiceEntry}, suffixAt p es = some (e :: post) → es.find? p = some e
  | [], h => absurd h.symm (some_ne_none _)
  | x :: es, h => by
    rw [suffixAt] at h
    by_cases hx : p x = true
    · rw [if_pos hx] at h
      rw [List.find?_cons_of_pos hx, (List.cons.inj (some.inj h)).1]
    · rw [if_neg hx] at h
      rw [List.find?_cons_of_neg hx, find?_of_suffixAt h]

/-! ## What is always right -/

/-- A list has more bytes than entries. -/
theorem ValidatedCaps.turns (c : ValidatedCaps) :
    (entriesOf c.bytes).length < c.bytes.length + 1 := by
  have hle := length_le_length_encode (entriesOf c.bytes)
  rw [c.encode_entriesOf.1] at hle
  exact Nat.lt_succ_of_le hle

theorem scanned (c : ValidatedCaps) : Scanned c := by
  obtain ⟨hbytes, pre, e, post, -, -, -, -, -, hsuffix⟩ := c.encode_entriesOf
  have hturns := c.turns
  refine ⟨hbytes, ⟨e :: post, hsuffix, ?_, ?_⟩, ?_, fun service => ?_⟩
  · have h := findCodecSized_encode hturns
    rw [hsuffix, hbytes] at h
    exact h
  · have h := findCodecUnsized_encode hturns hsuffix
    rw [hbytes] at h
    exact h
  · have h := findContentProtection_encode hturns
    rw [hbytes] at h
    exact h
  · have h := isServiceSupported_encode service hturns
    rw [hbytes] at h
    exact h

theorem services_compared (c c' : ValidatedCaps) :
    a2dpAreServicesCategoriesCompatible c.bytes c.bytes.length c'.bytes c'.bytes.length =
      some (((entriesOf c'.bytes).find? (isUnsupported (entriesOf c.bytes))).map
        ServiceEntry.category) :=
  compareServices_encode c.encode_entriesOf.1.symm c.length_lt c'.length_lt c'.turns
    (Nat.zero_le _) c'.encode_entriesOf.1.symm

/-! ## The comparison of the codecs -/

theorem inside_encode_cons : Inside e.bytes (encode (e :: es)) := inside_append _ _

/-- The comparison on the whole lists, when it stays inside of the entries. -/
theorem matched_of_isSome (h : suffixAt isCodec (entriesOf c.bytes) = some (e :: post))
    (h' : suffixAt isCodec (entriesOf c'.bytes) = some (e' :: post')) {compatible : Bool}
    (hcheck : areCodecsCompatible e.bytes e'.bytes initiating = some compatible) :
    a2dpFindMatchingCodecSpecificInformation c.bytes c'.bytes initiating =
      some (if compatible then some (encode (e' :: post')) else none) := by
  obtain ⟨found, hfound, -, hunsized⟩ := (scanned c).codec
  obtain ⟨found', hfound', -, hunsized'⟩ := (scanned c').codec
  obtain rfl := some.inj (h.symm.trans hfound)
  obtain rfl := some.inj (h'.symm.trans hfound')
  have hbelow : Below (areCodecsCompatible e.bytes e'.bytes initiating)
      (areCodecsCompatible (encode (e :: post)) (encode (e' :: post')) initiating) :=
    areCodecsCompatible_below inside_encode_cons inside_encode_cons
  have hwhole := hbelow _ hcheck
  rw [a2dpFindMatchingCodecSpecificInformation, hunsized, hunsized']
  simp only [bind_eq_bind, bind_some, hwhole, Bool.not_true, Bool.false_eq_true,
    if_false]

/-- **What is accepted is scanned right** exactly when the codecs fit their comparison. -/
theorem scans_right_iff_fits (c c' : ValidatedCaps) : ScansRight c c' ↔ CodecsFit c c' := by
  obtain ⟨-, -, e, post, -, -, -, hlosc, -, hsuffix⟩ := c.encode_entriesOf
  obtain ⟨-, -, e', post', -, -, -, hlosc', -, hsuffix'⟩ := c'.encode_entriesOf
  have hfit : CodecsFit c c' ↔ EntryFits e e' := by
    rw [CodecsFit, find?_of_suffixAt hsuffix, find?_of_suffixAt hsuffix']
    simp only [Option.mem_def, Option.some.injEq, forall_eq']
  rw [hfit]
  constructor
  · intro h
    obtain ⟨compatible, hcheck, -⟩ := h.matching true e e' post post' hsuffix hsuffix'
    exact (isSome_areCodecsCompatible_iff hlosc hlosc').mp (Option.isSome_iff_exists.mpr ⟨_, hcheck⟩)
  · intro h
    refine ⟨scanned c, scanned c', services_compared c c', ?_⟩
    intro initiating x x' rest rest' hx hx'
    obtain ⟨rfl, rfl⟩ := List.cons.inj (Option.some.inj (hsuffix.symm.trans hx))
    obtain ⟨rfl, rfl⟩ := List.cons.inj (Option.some.inj (hsuffix'.symm.trans hx'))
    have hinside : (areCodecsCompatible e.bytes e'.bytes initiating).isSome :=
      (isSome_areCodecsCompatible_iff hlosc hlosc').mpr h
    obtain ⟨compatible, hcheck⟩ := Option.isSome_iff_exists.mp hinside
    exact ⟨compatible, hcheck, matched_of_isSome hsuffix hsuffix' hcheck⟩

/-! ## A short entry -/

/-- A FastStream codec. -/
def fastStreamCaps : ValidatedCaps where
  bytes := [1, 0, 7, 10, 0, 0xff, 0x0a, 0, 0, 0, 1, 0, 3, 0x22]
  length_lt := by decide
  accepted := ⟨false, false, by decide +kernel⟩

/-- A vendor codec with a vendor and no codec identifier. -/
def vendorOnlyCaps : ValidatedCaps where
  bytes := [1, 0, 7, 6, 0, 0xff, 0x0a, 0, 0, 0]
  length_lt := by decide
  accepted := ⟨false, false, by decide +kernel⟩

/-- The codec identifier is read behind the end of the second list. -/
theorem not_scans_right : ¬ ∀ c c', ScansRight c c' := by
  intro h
  obtain ⟨compatible, -, hmatch⟩ := (h fastStreamCaps vendorOnlyCaps).matching true
    ⟨7, 10, [0, 0xff, 0x0a, 0, 0, 0, 1, 0, 3, 0x22], rfl⟩ ⟨7, 6, [0, 0xff, 0x0a, 0, 0, 0], rfl⟩
    [] [] (by decide +kernel) (by decide +kernel)
  have hread : a2dpFindMatchingCodecSpecificInformation fastStreamCaps.bytes vendorOnlyCaps.bytes
      true = none := by decide +kernel
  exact absurd (hread.symm.trans hmatch) (Option.some_ne_none _).symm

end Mh40.A2dp
