import Mh40.A2dp.CapsParse

/-!
# Lists of service capabilities

A list of capabilities is the bytes of some entries, each a category, a length and as many bytes.

* `ServiceEntry`, `encode`, `entriesOf`: the entries of a list. `entriesOf_encode`: they are the only
  ones.
* `exists_entries_of_ok`: what the validation accepts is the bytes of some entries.
* `findCodecSized_encode` and the others: each scan of a list is a search in its entries.
-/

namespace Mh40.A2dp

open List Option

/-! ## Entries -/

/-- An entry with as many bytes as its length says. -/
structure ServiceEntry where
  category : Octet
  losc : Octet
  data : List Octet
  length_data : data.length = losc.toNat
  deriving DecidableEq

def ServiceEntry.bytes (e : ServiceEntry) : Caps := e.category :: e.losc :: e.data

def encode (es : List ServiceEntry) : Caps := es.flatMap ServiceEntry.bytes

variable {e e' : ServiceEntry} {es rest : List ServiceEntry} {caps : Caps} {turns i : ℕ}
  {α ε : Type}

theorem encode_cons : encode (e :: es) = e.category :: e.losc :: (e.data ++ encode es) := rfl

theorem length_encode_cons :
    (encode (e :: es)).length = 2 + e.losc.toNat + (encode es).length := by
  rw [encode_cons, length_cons, length_cons, length_append, e.length_data]
  omega

theorem length_le_length_encode : ∀ es : List ServiceEntry, es.length ≤ (encode es).length
  | [] => Nat.le_refl 0
  | e :: es => by
    have := length_le_length_encode es
    rw [length_encode_cons, length_cons]
    omega

theorem drop_encode_cons : (encode (e :: es)).drop (2 + e.losc.toNat) = encode es := by
  rw [encode_cons, Nat.add_comm, drop_succ_cons, drop_succ_cons, ← e.length_data,
    drop_left]

/-- The entries of a list, as long as there are whole ones. -/
def parseEntries : ℕ → Caps → List ServiceEntry
  | turns + 1, category :: losc :: rest =>
    if h : losc.toNat ≤ rest.length then
      ⟨category, losc, rest.take losc.toNat, length_take_of_le h⟩ ::
        parseEntries turns (rest.drop losc.toNat)
    else []
  | _, _ => []

/-- The entries that a list of capabilities denotes. -/
def entriesOf (caps : Caps) : List ServiceEntry := parseEntries caps.length caps

theorem parseEntries_encode :
    ∀ {es : List ServiceEntry} {turns : ℕ}, es.length ≤ turns → parseEntries turns (encode es) = es
  | [], turns, _ => by cases turns <;> rfl
  | e :: es, turns + 1, h => by
    obtain ⟨category, losc, data, hlength⟩ := e
    have hle : losc.toNat ≤ (data ++ encode es).length := by
      rw [length_append]
      omega
    rw [encode_cons, parseEntries, dif_pos hle]
    have hdrop : (data ++ encode es).drop losc.toNat = encode es := by rw [← hlength, drop_left]
    have htake : (data ++ encode es).take losc.toNat = data := by rw [← hlength, take_left]
    rw [hdrop, parseEntries_encode (Nat.le_of_succ_le_succ h)]
    simp only [htake]

theorem entriesOf_encode (es : List ServiceEntry) : entriesOf (encode es) = es :=
  parseEntries_encode (length_le_length_encode es)

/-! ## Validation -/

/-- The entry of the codec. -/
def isCodec (e : ServiceEntry) : Bool := e.category = avdtpServiceMediaCodec

theorem ite_error_eq_ok {p : Prop} [Decidable p] {code : ε} {x : Option (Except ε α)} {s : α} :
    (if p then some (.error code) else x) = some (.ok s) ↔ ¬ p ∧ x = some (.ok s) := by
  by_cases hp : p
  · simp [hp]
  · simp [hp]

theorem ok_eq_ok {s s' : α} :
    (some (.ok s) : Option (Except ε α)) = some (.ok s') ↔ s = s' := by
  rw [some.injEq, Except.ok.injEq]

theorem eq_of_ite_ok {p : Prop} [Decidable p] {code : ε} {s s' : α}
    (h : (if p then some (.error code) else some (.ok s) : Option (Except ε α)) = some (.ok s')) :
    s = s' := ok_eq_ok.mp (ite_error_eq_ok.mp h).2

/-- What the check of an entry tells of a codec. -/
theorem checkEntry_ok {ignore : Bool} {service losc : Octet} {size : ℕ} {seen seen' : Seen}
    (h : checkEntry ignore service losc caps size seen = some (.ok seen')) :
    (service = avdtpServiceMediaCodec → 2 ≤ losc ∧ seen.codec = false ∧ seen'.codec = true) ∧
      (service ≠ avdtpServiceMediaCodec → seen'.codec = seen.codec) := by
  refine ⟨?_, fun hservice => ?_⟩
  · rintro rfl
    have hcheck : checkEntry ignore avdtpServiceMediaCodec losc caps size seen =
        if losc < 2 then some (.error .badPayloadFormat)
        else if seen.codec then some (.error .badPayloadFormat)
        else some (.ok { seen with codec := true }) := rfl
    rw [hcheck, ite_error_eq_ok, ite_error_eq_ok, ok_eq_ok] at h
    obtain ⟨hlosc, hseen, rfl⟩ := h
    exact ⟨BitVec.not_lt.mp hlosc, Bool.eq_false_iff.mpr hseen, rfl⟩
  · rw [checkEntry] at h
    split at h
    · rw [← eq_of_ite_ok h]
    split at h
    · rw [eq_of_ite_ok h]
    split at h
    · rw [ite_error_eq_ok] at h
      obtain ⟨-, h⟩ := h
      simp only [bind_eq_bind, bind_eq_some_iff, ite_error_eq_ok, ok_eq_ok] at h
      obtain ⟨_, _, _, _, _, _, _, _, _, rfl⟩ := h
      rfl
    split at h
    · rw [eq_of_ite_ok h]
    split at h
    · rw [eq_of_ite_ok h]
    split at h
    · rw [eq_of_ite_ok h]
    split at h
    · rw [eq_of_ite_ok h]
    · rw [eq_of_ite_ok h]

/-- The entries of a codec, of which there is one at most. -/
structure CodecOnce (es : List ServiceEntry) (seen seen' : Bool) : Prop where
  seen_iff : seen' = true ↔ seen = true ∨ ∃ e ∈ es, isCodec e = true
  once : (es.filter isCodec).length + (if seen then 1 else 0) ≤ 1
  long : ∀ e ∈ es, isCodec e = true → 2 ≤ e.losc

theorem codecOnce_cons {seen seen1 seen' : Bool}
    (hcodec : e.category = avdtpServiceMediaCodec → 2 ≤ e.losc ∧ seen = false ∧ seen1 = true)
    (hother : e.category ≠ avdtpServiceMediaCodec → seen1 = seen) (h : CodecOnce es seen1 seen') :
    CodecOnce (e :: es) seen seen' := by
  obtain ⟨hiff, honce, hlong⟩ := h
  by_cases hc : e.category = avdtpServiceMediaCodec
  · have he : isCodec e = true := decide_eq_true hc
    obtain ⟨hlosc, rfl, rfl⟩ := hcodec hc
    refine ⟨iff_of_true (hiff.mpr (.inl rfl)) (.inr ⟨e, mem_cons_self, he⟩), ?_, ?_⟩
    · rw [filter_cons_of_pos he, length_cons]
      simpa using honce
    · exact forall_mem_cons.mpr ⟨fun _ => hlosc, hlong⟩
  · have he : ¬ isCodec e = true := by simpa [isCodec] using hc
    obtain rfl := hother hc
    refine ⟨hiff.trans (or_congr_right ?_), ?_, ?_⟩
    · simp only [mem_cons, exists_eq_or_imp]
      exact (or_iff_right he).symm
    · rw [filter_cons_of_neg he]
      exact honce
    · exact forall_mem_cons.mpr ⟨fun hcodec => absurd hcodec he, hlong⟩

/-- **What is accepted is the bytes of some entries.** -/
theorem exists_entries_of_ok {ignore : Bool} :
    ∀ {turns : ℕ} {caps : Caps} {seen seen' : Seen} {category : Option Octet},
      validateEntries ignore turns caps caps.length seen category = some (.ok seen') →
        ∃ es, caps = encode es ∧ CodecOnce es seen.codec seen'.codec
  | 0, _, _, _, _, h => absurd h.symm (some_ne_none _)
  | turns + 1, caps, seen, seen', category, h => by
    rw [validateEntries, ite_error_eq_ok] at h
    obtain ⟨hsize, h⟩ := h
    match caps, hsize with
    | service :: losc :: rest, _ =>
      have hrest : (service :: losc :: rest).length - 2 = rest.length := by
        simp only [length_cons]
        omega
      simp only [getElem?_cons_zero, getElem?_cons_succ, bind_eq_bind,
        bind_some, drop_succ_cons, drop_zero, hrest, ite_error_eq_ok] at h
      obtain ⟨hlosc, h⟩ := h
      obtain ⟨result, hcheck, h⟩ := bind_eq_some_iff.mp h
      cases result with
      | error code => cases some.inj h
      | ok seen1 =>
        obtain ⟨hcodec, hother⟩ := checkEntry_ok hcheck
        have hdrop : (rest.drop losc.toNat).length = rest.length - losc.toNat := length_drop
        have htake : (rest.take losc.toNat).length = losc.toNat :=
          length_take_of_le (Nat.not_lt.mp hlosc)
        obtain ⟨es, hes, hes'⟩ : ∃ es, rest.drop losc.toNat = encode es ∧
            CodecOnce es seen1.codec seen'.codec := by
          dsimp only at h
          rw [← hdrop] at h
          split at h
          · exact exists_entries_of_ok h
          · rename_i hzero
            obtain rfl := ok_eq_ok.mp h
            refine ⟨[], eq_nil_of_length_eq_zero (Decidable.not_not.mp hzero), ?_, ?_, ?_⟩
            · simp
            · split <;> simp
            · exact fun e he => absurd he not_mem_nil
        refine ⟨⟨service, losc, rest.take losc.toNat, htake⟩ :: es, ?_, ?_⟩
        · rw [encode_cons, ← hes, take_append_drop]
        · exact codecOnce_cons hcodec hother hes'

/-- The rest of a list of entries from the first one with the property. -/
def suffixAt (p : ServiceEntry → Bool) : List ServiceEntry → Option (List ServiceEntry)
  | [] => none
  | e :: es => if p e then some (e :: es) else suffixAt p es

theorem exists_suffixAt {p : ServiceEntry → Bool} :
    ∀ {es : List ServiceEntry}, (∃ e ∈ es, p e = true) →
      ∃ pre e post, es = pre ++ e :: post ∧ (∀ x ∈ pre, p x = false) ∧ p e = true ∧
        suffixAt p es = some (e :: post)
  | [], h => by
    obtain ⟨e, he, -⟩ := h
    exact absurd he not_mem_nil
  | e :: es, h => by
    by_cases hp : p e = true
    · exact ⟨[], e, es, rfl, fun x hx => absurd hx not_mem_nil, hp, if_pos hp⟩
    · have hrest : ∃ e ∈ es, p e = true := by
        obtain ⟨x, hx, hpx⟩ := h
        obtain rfl | hx := mem_cons.mp hx
        · exact absurd hpx hp
        · exact ⟨x, hx, hpx⟩
      obtain ⟨pre, x, post, hes, hpre, hx, hsuffix⟩ := exists_suffixAt hrest
      refine ⟨e :: pre, x, post, by rw [hes, cons_append], ?_, hx, ?_⟩
      · exact forall_mem_cons.mpr ⟨Bool.eq_false_iff.mpr hp, hpre⟩
      · rw [suffixAt, if_neg hp, hsuffix]

/-- A list of capabilities of a 16-bit size that the validation accepts, with its mandatory
entries. -/
structure ValidatedCaps where
  bytes : Caps
  length_lt : bytes.length < 65536
  accepted : ∃ reconfigure ignore,
    a2dpValidateServiceCaps bytes bytes.length reconfigure false ignore = some .accepted

/-- The bytes of its entries, with one codec that has a media type and a media codec. -/
theorem ValidatedCaps.encode_entriesOf (c : ValidatedCaps) :
    encode (entriesOf c.bytes) = c.bytes ∧
      ∃ pre e post, entriesOf c.bytes = pre ++ e :: post ∧ (∀ x ∈ pre, isCodec x = false) ∧
        isCodec e = true ∧ 2 ≤ e.losc ∧ (∀ x ∈ post, isCodec x = false) ∧
        suffixAt isCodec (entriesOf c.bytes) = some (e :: post) := by
  obtain ⟨reconfigure, ignore, h⟩ := c.accepted
  obtain ⟨result, hvalid, h⟩ := bind_eq_some_iff.mp h
  cases result with
  | error e => cases some.inj h
  | ok seen =>
    obtain ⟨es, hes, hiff, honce, hlong⟩ := exists_entries_of_ok hvalid
    have hseen : seen.codec = true := by
      refine Decidable.byContradiction fun hc => ?_
      rw [Bool.not_eq_true] at hc
      dsimp only at h
      rw [if_pos (by decide), hc] at h
      split at h
      · cases some.inj h
      · cases some.inj h
    obtain ⟨pre, e, post, hsplit, hpre, he, hsuffix⟩ :=
      exists_suffixAt ((hiff.mp hseen).resolve_left Bool.false_ne_true)
    rw [hes, entriesOf_encode]
    refine ⟨rfl, pre, e, post, hsplit, hpre, he, hlong e ?_ he, fun x hx => ?_, hsuffix⟩
    · rw [hsplit]
      exact mem_append_right _ mem_cons_self
    · refine Bool.eq_false_iff.mpr fun hcodec => ?_
      have hmem := length_pos_of_mem (mem_filter.mpr ⟨hx, hcodec⟩)
      rw [hsplit, filter_append, filter_cons_of_pos he, length_append,
        length_cons] at honce
      omega

/-! ## Scans -/

theorem category_encode : (encode (e :: es))[0]? = some e.category := rfl

theorem losc_encode : (encode (e :: es))[1]? = some e.losc := rfl

/-- An entry fits, and the size of the rest is left. -/
theorem size_encode (e : ServiceEntry) (es : List ServiceEntry) : (encode (e :: es)).length ≠ 0 ∧
    ¬ 2 + e.losc.toNat > (encode (e :: es)).length ∧
    (encode (e :: es)).length - (2 + e.losc.toNat) = (encode es).length := by
  rw [length_encode_cons]
  omega

theorem findCodecSized_encode :
    ∀ {es : List ServiceEntry} {turns : ℕ}, es.length < turns →
      findCodecSized turns (encode es) (encode es).length =
        some (match suffixAt isCodec es with
          | some found => (true, encode found, (encode found).length)
          | none => (false, [], 0))
  | [], turns + 1, _ => rfl
  | e :: es, turns + 1, h => by
    obtain ⟨hpos, hfits, hsize⟩ := size_encode e es
    simp only [findCodecSized, if_neg hpos, category_encode, losc_encode, bind_eq_bind,
      bind_some, if_neg hfits, drop_encode_cons, hsize,
      findCodecSized_encode (Nat.lt_of_succ_lt_succ h), suffixAt, isCodec, decide_eq_true_eq]
    by_cases hc : e.category = avdtpServiceMediaCodec
    · rw [if_pos hc, if_pos hc]
    · rw [if_neg hc, if_neg hc]

/-- Without a size there must be a codec. -/
theorem findCodecUnsized_encode :
    ∀ {es found : List ServiceEntry} {turns : ℕ}, es.length < turns →
      suffixAt isCodec es = some found →
        findCodecUnsized turns (encode es) = some (true, encode found)
  | [], _, _, _, hfound => absurd hfound.symm (some_ne_none _)
  | e :: es, found, turns + 1, h, hfound => by
    simp only [findCodecUnsized, category_encode, losc_encode, bind_eq_bind,
      bind_some, drop_encode_cons]
    rw [suffixAt] at hfound
    by_cases hc : e.category = avdtpServiceMediaCodec
    · have he : isCodec e = true := decide_eq_true hc
      rw [if_pos he] at hfound
      rw [if_neg (not_not_intro hc), some.inj hfound]
    · have he : ¬ isCodec e = true := by simpa [isCodec] using hc
      rw [if_neg he] at hfound
      rw [if_pos hc]
      exact findCodecUnsized_encode (Nat.lt_of_succ_lt_succ h) hfound

/-- The entry of the SCMS protection. -/
def isScms (e : ServiceEntry) : Bool :=
  e.category = avdtpServiceContentProtection &&
    e.data.take 2 = [avdtpCpTypeScmsLsb, avdtpCpTypeScmsMsb]

theorem isScmsEntry_encode :
    isScmsEntry e.category e.losc (encode (e :: es)) = some (isScms e) := by
  unfold isScmsEntry isScms
  by_cases hc : e.category = avdtpServiceContentProtection
  · by_cases hlosc : e.losc < 2
    · have hlt : e.losc.toNat < 2 := hlosc
      have hshort : e.data.take 2 ≠ [avdtpCpTypeScmsLsb, avdtpCpTypeScmsMsb] := fun h => by
        have := congrArg List.length h
        rw [length_take, e.length_data] at this
        simp only [length_cons, length_nil] at this
        omega
      rw [if_neg fun h => h.2 hlosc, decide_eq_false hshort, Bool.and_false]
    · have hlt : ¬ e.losc.toNat < 2 := hlosc
      obtain ⟨lsb, msb, data, hdata⟩ : ∃ lsb msb data, e.data = lsb :: msb :: data := by
        have hlength := e.length_data
        match e.data, hlength with
        | [], h => simp only [length_nil] at h; omega
        | [_], h => simp only [length_cons, length_nil] at h; omega
        | lsb :: msb :: data, _ => exact ⟨lsb, msb, data, rfl⟩
      rw [if_pos ⟨hc, hlosc⟩, encode_cons, hdata, decide_eq_true hc]
      by_cases hlsb : lsb = 0x02#8
      · simp [hlsb, Bool.beq_eq_decide_eq]
      · simp [hlsb]
  · rw [if_neg fun h => hc h.1, decide_eq_false hc, Bool.false_and]

theorem findContentProtection_encode :
    ∀ {es : List ServiceEntry} {turns : ℕ}, es.length < turns →
      findContentProtection turns (encode es) (encode es).length =
        some ((suffixAt isScms es).map encode)
  | [], turns + 1, _ => rfl
  | e :: es, turns + 1, h => by
    obtain ⟨hpos, hfits, hsize⟩ := size_encode e es
    simp only [findContentProtection, if_neg hpos, category_encode, losc_encode, isScmsEntry_encode,
      bind_eq_bind, bind_some, if_neg hfits, drop_encode_cons, hsize,
      findContentProtection_encode (Nat.lt_of_succ_lt_succ h), suffixAt]
    by_cases hc : isScms e = true
    · rw [if_pos hc, if_pos hc]
      rfl
    · rw [if_neg hc, if_neg hc]

theorem isServiceSupported_encode (service : Octet) :
    ∀ {es : List ServiceEntry} {turns : ℕ}, es.length < turns →
      isServiceSupported service turns (encode es) (encode es).length =
        some (es.any fun e => service = e.category)
  | [], turns + 1, _ => rfl
  | e :: es, turns + 1, h => by
    obtain ⟨hpos, hfits, hsize⟩ := size_encode e es
    simp only [isServiceSupported, if_neg hpos, category_encode, losc_encode, bind_eq_bind,
      bind_some, if_neg hfits, drop_encode_cons, hsize,
      isServiceSupported_encode service (Nat.lt_of_succ_lt_succ h), any_cons]
    by_cases hc : service = e.category
    · rw [if_pos hc, decide_eq_true hc, Bool.true_or]
    · rw [if_neg hc, decide_eq_false hc, Bool.false_or]

/-! ## Comparison of two lists -/

/-- What the two loops read of an entry, and where they go from it. -/
theorem entry_at (hlt : caps.length < 65536) (hi : i ≤ caps.length)
    (hdrop : caps.drop i = encode (e :: es)) :
    i < caps.length ∧ caps[i]? = some e.category ∧ caps[i + 1]? = some e.losc ∧
      (i + (e.losc.toNat + 2)) % 65536 = i + (2 + e.losc.toNat) ∧
      i + (2 + e.losc.toNat) ≤ caps.length ∧ caps.drop (i + (2 + e.losc.toNat)) = encode es := by
  have hlength := congrArg List.length hdrop
  rw [length_drop, length_encode_cons] at hlength
  refine ⟨by omega, ?_, ?_, ?_, by omega, ?_⟩
  · rw [← Nat.add_zero i, ← getElem?_drop, hdrop, category_encode]
  · rw [← getElem?_drop, hdrop, losc_encode]
  · rw [Nat.mod_eq_of_lt (by omega)]
    omega
  · rw [← drop_drop, hdrop, drop_encode_cons]

theorem not_lt_of_drop_nil (hdrop : caps.drop i = encode []) : ¬ i < caps.length := by
  have hlength := congrArg List.length hdrop
  rw [length_drop] at hlength
  simp only [encode, flatMap_nil, length_nil] at hlength
  omega

/-- The inner loop, from an entry on. -/
theorem findService_encode (service : Octet) (hlt : caps.length < 65536) :
    ∀ {es : List ServiceEntry} {turns i : ℕ}, es.length < turns → i ≤ caps.length →
      caps.drop i = encode es →
        findService service caps caps.length turns i = some (es.any fun e => e.category = service)
  | [], turns + 1, i, _, _, hdrop => by
    rw [findService, if_neg (not_lt_of_drop_nil hdrop)]
    rfl
  | e :: es, turns + 1, i, h, hi, hdrop => by
    obtain ⟨hin, hcategory, hlosc, hnext, hle, hdrop'⟩ := entry_at hlt hi hdrop
    simp only [findService, if_pos hin, hcategory, hlosc, bind_eq_bind, bind_some,
      hnext, findService_encode service hlt (Nat.lt_of_succ_lt_succ h) hle hdrop', any_cons]
    by_cases hc : e.category = service
    · rw [if_pos hc, decide_eq_true hc, Bool.true_or]
    · rw [if_neg hc, decide_eq_false hc, Bool.false_or]

/-- A service that the local list does not have. -/
def isUnsupported (ls : List ServiceEntry) (e : ServiceEntry) : Bool :=
  !ls.any fun l => l.category = e.category

/-- The outer loop, from an entry on. -/
theorem compareServices_encode {localCaps : Caps} {ls : List ServiceEntry}
    (hlocal : localCaps = encode ls) (hlt' : localCaps.length < 65536)
    (hlt : caps.length < 65536) :
    ∀ {es : List ServiceEntry} {turns i : ℕ}, es.length < turns → i ≤ caps.length →
      caps.drop i = encode es →
        compareServices localCaps localCaps.length caps caps.length turns i =
          some ((es.find? (isUnsupported ls)).map ServiceEntry.category)
  | [], turns + 1, i, _, _, hdrop => by
    rw [compareServices, if_neg (not_lt_of_drop_nil hdrop)]
    rfl
  | e :: es, turns + 1, i, h, hi, hdrop => by
    obtain ⟨hin, hcategory, hlosc, hnext, hle, hdrop'⟩ := entry_at hlt hi hdrop
    have hinner : findService e.category localCaps localCaps.length (localCaps.length + 1) 0 =
        some (ls.any fun l => l.category = e.category) := by
      refine findService_encode _ hlt' ?_ (Nat.zero_le _) hlocal
      rw [hlocal]
      exact Nat.lt_succ_of_le (length_le_length_encode ls)
    have hrest := compareServices_encode hlocal hlt' hlt (Nat.lt_of_succ_lt_succ h) hle hdrop'
    simp only [compareServices, if_pos hin, hcategory, hlosc, bind_eq_bind,
      bind_some, hnext, hinner, hrest]
    by_cases hc : isUnsupported ls e = true
    · have hfound : (!ls.any fun l => l.category = e.category) = true := hc
      rw [if_pos hfound, find?_cons_of_pos hc]
      rfl
    · have hfound : ¬ (!ls.any fun l => l.category = e.category) = true := hc
      rw [if_neg hfound, find?_cons_of_neg hc]

end Mh40.A2dp
