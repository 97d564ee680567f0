import Mh40.Gaia.TransportCommon
import Mh40.Lib.Frames
import Mathlib.Data.List.GetD

/-!
# Packets built and received

* `Request.fills_iff`: the buffer of the calculated length is filled exactly unless a status pushes
  a payload of 255 bytes over the limit of the short length field, or the length of the packet
  wraps.
* `receiveLoop_cut`: of any piece of a row of packets, the complete packets are delivered and their
  bytes consumed.
* `framing_iff`: a row of packets is built and received in any pieces as it should be exactly when
  every packet fills its buffer.
-/

namespace Mh40.Gaia

open List

/-- What `Gaia_TransportCommonBuildPacket` is asked to send. -/
structure Request where
  protocolVersion : Byte
  vendorId : Uint16
  commandId : Uint16
  status : Byte
  payload : List Byte
  fits : payload.length < 2 ^ 16

namespace Request

variable (q : Request)

/-- The status and the payload. -/
def body : List Byte := (if q.status ≠ statusNone then [q.status] else []) ++ q.payload

/-- The version allows a length of the body: 16 bits of length from version 4 on. -/
def Allowed : Prop :=
  q.body.length ≤ 255 ∨ (4 ≤ q.protocolVersion.toNat ∧ q.body.length < 2 ^ 16)

instance : Decidable q.Allowed := inferInstanceAs (Decidable (_ ∨ _))

/-- The length of the buffer that is allocated. -/
def txLength : Uint16 := calcTxPacketLength (.ofNat 16 q.payload.length) q.status

/-- The bytes written to the buffer. -/
def built : Option (List Byte) :=
  buildPacket q.protocolVersion q.txLength q.vendorId q.commandId q.status q.payload

/-- What the callback should be called with. -/
def packet : Packet := ⟨q.txLength, q.vendorId, q.commandId, q.body⟩

/-- No status makes the length field longer than the payload does, and 16 bits hold the length of
the packet. -/
def Regular : Prop :=
  ¬ (q.payload.length = 255 ∧ q.status ≠ statusNone) ∧ offsPayload true + q.body.length < 2 ^ 16

instance : Decidable q.Regular := inferInstanceAs (Decidable (_ ∧ _))

/-! ## Building -/

/-- The length field has 16 bits. -/
def is16 : Bool := decide (255 < q.body.length)

/-- The bytes before the body. -/
def header : List Byte :=
  [sof, q.protocolVersion, if q.is16 then flag16BitLength else 0] ++
    (if q.is16 then [high (.ofNat 16 q.body.length), low (.ofNat 16 q.body.length)]
      else [low (.ofNat 16 q.body.length)]) ++
    [high q.vendorId, low q.vendorId, high q.commandId, low q.commandId]

/-- The bytes of the packet. -/
def bytes : List Byte := q.header ++ q.body

/-- No panic, and the packet fills the buffer. -/
def Fills : Prop := q.built = some q.bytes ∧ q.bytes.length = q.txLength.toNat

theorem body_length : q.body.length = q.payload.length + if q.status ≠ statusNone then 1 else 0 := by
  unfold body
  rw [length_append, Nat.add_comm]
  split_ifs <;> rfl

theorem header_length : q.header.length = offsPayload q.is16 := by
  unfold header offsPayload
  cases q.is16 <;> rfl

theorem bytes_length : q.bytes.length = offsPayload q.is16 + q.body.length := by
  rw [bytes, length_append, header_length]

theorem total_eq :
    (BitVec.ofNat 16 q.payload.length + if q.status = statusNone then 0 else 1) =
      BitVec.ofNat 16 q.body.length := by
  rw [body_length]
  by_cases hs : q.status = statusNone
  · rw [if_pos hs, if_neg (not_not.mpr hs), Nat.add_zero]
    exact BitVec.add_zero _
  · rw [if_neg hs, if_pos hs]
    exact (BitVec.ofNat_add ..).symm

theorem txLength_toNat : q.txLength.toNat = (offsPayload (decide (255 < q.payload.length)) +
    q.body.length) % 2 ^ 16 := by
  have hfits := q.fits
  unfold txLength calcTxPacketLength
  rw [body_length, BitVec.toNat_ofNat, BitVec.toNat_ofNat, Nat.mod_eq_of_lt hfits]
  congr 1
  unfold offsPayload
  by_cases h : 255 < q.payload.length
  · simp [h]
    omega
  · simp [h]
    omega

theorem Allowed.lt {q : Request} (h : q.Allowed) : q.body.length < 2 ^ 16 := by
  rcases h with h | h
  · omega
  · exact h.2

/-- The header is written when the length of the packet is the length of the buffer. -/
theorem setPacketHeader_eq (ha : q.Allowed) :
    setPacketHeader q.protocolVersion q.txLength q.vendorId q.commandId
        (.ofNat 16 q.body.length) false =
      if BitVec.ofNat 16 q.bytes.length = q.txLength then some q.header else none := by
  unfold setPacketHeader
  rw [BitVec.toNat_ofNat, Nat.mod_eq_of_lt ha.lt, bytes_length, ← header_length]
  by_cases h : 255 < q.body.length
  · have hv : 4 ≤ q.protocolVersion.toNat := (ha.resolve_left (Nat.not_le.mpr h)).1
    have hflags : (0 ||| flag16BitLength) &&& flag16BitLength ≠ 0 := by decide
    have hheader : q.header = [sof, q.protocolVersion, 0 ||| flag16BitLength] ++
        [high (.ofNat 16 q.body.length), low (.ofNat 16 q.body.length)] ++
        [high q.vendorId, low q.vendorId, high q.commandId, low q.commandId] := by
      unfold header is16
      rw [decide_eq_true h]
      rfl
    rw [if_pos h, if_pos hv]
    dsimp only [bind, Option.bind_some]
    rw [if_neg Bool.false_ne_true, if_pos hflags, ← hheader, if_neg Bool.false_ne_true, ite_not]
    rfl
  · have hflags : ¬ ((0 : Byte) &&& flag16BitLength ≠ 0) := by decide
    have hheader : q.header = [sof, q.protocolVersion, 0] ++ [low (.ofNat 16 q.body.length)] ++
        [high q.vendorId, low q.vendorId, high q.commandId, low q.commandId] := by
      unfold header is16
      rw [decide_eq_false h]
      rfl
    rw [if_neg h]
    dsimp only [bind, Option.bind_some]
    rw [if_neg Bool.false_ne_true, if_neg hflags, ← hheader, if_neg Bool.false_ne_true, ite_not]
    rfl

/-- What is written to the buffer. -/
theorem built_eq (ha : q.Allowed) :
    q.built = if BitVec.ofNat 16 q.bytes.length = q.txLength then some q.bytes else none := by
  unfold built buildPacket
  dsimp only [bind]
  rw [q.total_eq, setPacketHeader_eq q ha]
  by_cases h : BitVec.ofNat 16 q.bytes.length = q.txLength
  · rw [if_pos h, if_pos h, Option.bind_some, if_neg Bool.false_ne_true, append_assoc]
    rfl
  · rw [if_neg h, if_neg h]
    rfl

/-- The length that is calculated is that of the packet. -/
theorem length_iff (ha : q.Allowed) : q.bytes.length = q.txLength.toNat ↔ q.Regular := by
  have hlt := ha.lt
  have hbody := q.body_length
  have htx := q.txLength_toNat
  have hoffs : ∀ n, offsPayload (decide (255 < n)) = if 255 < n then 9 else 8 := fun n => by
    by_cases h : 255 < n
    · rw [decide_eq_true h, if_pos h]
      rfl
    · rw [decide_eq_false h, if_neg h]
      rfl
  rw [bytes_length, htx, is16, hoffs, hoffs]
  unfold Regular offsPayload
  rw [if_pos rfl]
  by_cases hs : q.status = statusNone
  · rw [if_neg (not_not.mpr hs)] at hbody
    have hno : ¬ (q.payload.length = 255 ∧ q.status ≠ statusNone) := fun h => h.2 hs
    rw [hbody, Nat.add_zero]
    split_ifs with h
    · rw [eq_comm, Nat.mod_eq_iff_lt (by decide)]
      exact ⟨fun hl => ⟨hno, hl⟩, fun hl => hl.2⟩
    · exact iff_of_true (by omega) ⟨hno, by omega⟩
  · rw [if_pos hs] at hbody
    rw [hbody]
    have hiff : q.payload.length = 255 ∧ q.status ≠ statusNone ↔ q.payload.length = 255 :=
      and_iff_left hs
    rw [hiff]
    split_ifs <;> omega

theorem Regular.ofNat_length {q : Request} (hr : q.Regular) (ha : q.Allowed) :
    BitVec.ofNat 16 q.bytes.length = q.txLength := by
  rw [(q.length_iff ha).mpr hr, BitVec.ofNat_toNat, BitVec.setWidth_eq]

/-- **The buffer.** It is filled exactly for the regular requests, and for no others. -/
theorem fills_iff (ha : q.Allowed) : q.Fills ↔ q.Regular := by
  constructor
  · rintro ⟨hbuilt, hlen⟩
    exact (q.length_iff ha).mp hlen
  · intro hr
    refine ⟨?_, (q.length_iff ha).mpr hr⟩
    rw [built_eq q ha, if_pos (hr.ofNat_length ha)]

end Request

/-! ## Reception -/

theorem w16_high_low (x : Uint16) : w16 (high x) (low x) = x := by
  unfold w16 high low
  ext i hi
  simp only [BitVec.getElem_or, BitVec.getElem_shiftLeft, BitVec.getElem_setWidth,
    BitVec.getLsbD_setWidth, BitVec.getLsbD_ushiftRight]
  by_cases h : i < 8
  · simp [h, BitVec.getLsbD_eq_getElem, hi]
  · have h8 : i - 8 < 8 := by omega
    have hsum : 8 + (i - 8) = i := by omega
    simp [h, h8, hsum, BitVec.getLsbD_eq_getElem, hi]

section Reception

variable {σ : Type} {pktCallback : σ → Packet → Bool × σ} {q : Request} {data rest : List Byte}
  {fuel consumed : ℕ} {transport : σ}

/-- `is_16_bit`. -/
def rxIs16Bit (data : List Byte) : Bool :=
  decide (data.getD offsFlags 0 &&& flag16BitLength ≠ 0)

/-- `payload_size`. -/
def rxPayloadSize (data : List Byte) : Uint16 :=
  if rxIs16Bit data then
    w16 (data.getD offsPayloadLength 0) (data.getD (offsPayloadLength + 1) 0)
  else (data.getD offsPayloadLength 0).setWidth 16

/-- `pkt_length`. -/
def rxPktLength (data : List Byte) : Uint16 :=
  calcRxPacketLength (rxPayloadSize data) (data.getD offsFlags 0)

/-- The arguments of the callback. -/
def rxPacket (data : List Byte) : Packet :=
  ⟨rxPktLength data,
    w16 (data.getD (offsVendorId (rxIs16Bit data)) 0)
      (data.getD (offsVendorId (rxIs16Bit data) + 1) 0),
    w16 (data.getD (offsCommandId (rxIs16Bit data)) 0)
      (data.getD (offsCommandId (rxIs16Bit data) + 1) 0),
    (data.drop (offsPayload (rxIs16Bit data))).take (rxPayloadSize data).toNat⟩

theorem receiveLoop_succ : receiveLoop pktCallback (fuel + 1) transport consumed data =
    if data.length ≠ 0 ∧ data.getD 0 0 ≠ sof then some ⟨transport, consumed, some .framingError⟩
    else if offsPayload false ≤ data.length then
      if (rxPktLength data).toNat ≤ data.length then
        if (if data.getD offsFlags 0 &&& flagCheck ≠ 0 then
            checksum (data.take (rxPktLength data).toNat) else 0) = 0 then
          if (pktCallback transport (rxPacket data)).1 then
            receiveLoop pktCallback fuel (pktCallback transport (rxPacket data)).2
              (consumed + (rxPktLength data).toNat) (data.drop (rxPktLength data).toNat)
          else some ⟨(pktCallback transport (rxPacket data)).2, consumed, none⟩
        else some ⟨transport, consumed, some .checksumError⟩
      else some ⟨transport, consumed, none⟩
    else some ⟨transport, consumed, none⟩ := rfl

/-! ### Packets on the wire -/

/-- The bytes of a packet: the length is the one that the header says, and 16 bits hold it. -/
structure WellFormed (p : List Byte) : Prop where
  sof : p.getD 0 0 = sof
  length : p.length = offsPayload (rxIs16Bit p) + (rxPayloadSize p).toNat +
    if p.getD offsFlags 0 &&& flagCheck ≠ 0 then 1 else 0
  fits : p.length < 2 ^ 16
  checked : p.getD offsFlags 0 &&& flagCheck ≠ 0 → checksum p = 0

instance (p : List Byte) : Decidable (WellFormed p) :=
  decidable_of_iff (p.getD 0 0 = sof ∧
      p.length = offsPayload (rxIs16Bit p) + (rxPayloadSize p).toNat +
        (if p.getD offsFlags 0 &&& flagCheck ≠ 0 then 1 else 0) ∧
      p.length < 2 ^ 16 ∧ (p.getD offsFlags 0 &&& flagCheck ≠ 0 → checksum p = 0))
    ⟨fun h => ⟨h.1, h.2.1, h.2.2.1, h.2.2.2⟩, fun h => ⟨h.sof, h.length, h.fits, h.checked⟩⟩

variable {p p' : List Byte}

theorem WellFormed.offsPayload_le (h : WellFormed p) : offsPayload false ≤ p.length := by
  have hle : offsPayload false ≤ offsPayload (rxIs16Bit p) := by
    cases rxIs16Bit p <;> decide
  have hlength := h.length
  omega

/-- The lengths depend on the first bytes only. -/
theorem rx_congr (h : ∀ i < offsPayload false, data.getD i 0 = p.getD i 0) :
    rxIs16Bit data = rxIs16Bit p ∧ rxPayloadSize data = rxPayloadSize p ∧
      rxPktLength data = rxPktLength p := by
  have hflags := h offsFlags (by decide)
  have h16 : rxIs16Bit data = rxIs16Bit p := by
    unfold rxIs16Bit
    rw [hflags]
  have hsize : rxPayloadSize data = rxPayloadSize p := by
    unfold rxPayloadSize
    rw [h16, h offsPayloadLength (by decide), h (offsPayloadLength + 1) (by decide)]
  refine ⟨h16, hsize, ?_⟩
  unfold rxPktLength
  rw [hsize, hflags]

section

variable (h : WellFormed p)
include h

theorem WellFormed.getD_append (rest : List Byte) :
    ∀ i < offsPayload false, (p ++ rest).getD i 0 = p.getD i 0 := fun _ hi =>
  List.getD_append _ _ _ _ (Nat.lt_of_lt_of_le hi h.offsPayload_le)

/-- The length that is calculated is the length of the packet. -/
theorem WellFormed.rxPktLength_toNat : (rxPktLength p).toNat = p.length := by
  have hoffs : offsPayload (rxIs16Bit p) = offsPayload false +
      if p.getD offsFlags 0 &&& flag16BitLength ≠ 0 then 1 else 0 := by
    unfold rxIs16Bit
    by_cases h16 : p.getD offsFlags 0 &&& flag16BitLength ≠ 0
    · rw [decide_eq_true h16, if_pos h16]
      rfl
    · rw [decide_eq_false h16, if_neg h16, Nat.add_zero]
  have hlength := h.length
  have hfits := h.fits
  rw [hoffs] at hlength
  unfold rxPktLength calcRxPacketLength
  rw [BitVec.toNat_ofNat, Nat.mod_eq_of_lt (by omega)]
  omega

/-- What is read from the start of a packet does not depend on what follows it. -/
theorem WellFormed.rxPacket_append (rest : List Byte) :
    rxPacket (p ++ rest) = rxPacket p := by
  have hlength := h.length
  have hget : ∀ i < p.length, (p ++ rest).getD i 0 = p.getD i 0 := fun i hi =>
    List.getD_append _ _ _ _ hi
  obtain ⟨h16, hsize, hlen⟩ := rx_congr (h.getD_append rest)
  have hoffs : offsPayload (rxIs16Bit p) ≤ p.length := by omega
  have hids : offsVendorId (rxIs16Bit p) + 1 < offsPayload (rxIs16Bit p) ∧
      offsCommandId (rxIs16Bit p) + 1 < offsPayload (rxIs16Bit p) := by
    cases rxIs16Bit p <;> decide
  unfold rxPacket
  rw [h16, hsize, hlen, hget _ (by omega), hget _ (by omega), hget _ (by omega),
    hget _ (by omega), drop_append_of_le_length hoffs, take_append_of_le_length]
  rw [length_drop]
  omega

/-- A turn that finds a packet. -/
theorem WellFormed.receiveLoop_append :
    receiveLoop pktCallback (fuel + 1) transport consumed (p ++ rest) =
      if (pktCallback transport (rxPacket p)).1 then
        receiveLoop pktCallback fuel (pktCallback transport (rxPacket p)).2
          (consumed + p.length) rest
      else some ⟨(pktCallback transport (rxPacket p)).2, consumed, none⟩ := by
  have hget := h.getD_append rest
  have hlen : (rxPktLength (p ++ rest)).toNat = p.length := by
    rw [(rx_congr hget).2.2, h.rxPktLength_toNat]
  have hle : p.length ≤ (p ++ rest).length := by
    rw [length_append]
    omega
  have hcheck : (if p.getD offsFlags 0 &&& flagCheck ≠ 0 then checksum p else 0) = 0 := by
    split_ifs with hflag
    · exact h.checked hflag
    · rfl
  have hsof : (p ++ rest).getD 0 0 = Gaia.sof := (hget 0 (by decide)).trans h.sof
  rw [receiveLoop_succ, if_neg (fun hs => hs.2 hsof), if_pos (Nat.le_trans h.offsPayload_le hle),
    hlen, if_pos hle, hget offsFlags (by decide), take_left, drop_left, if_pos hcheck,
    h.rxPacket_append rest]

/-- A turn that finds the start of a packet. -/
theorem WellFormed.receiveLoop_part (hdata : data <+: p) (hlt : data.length < p.length) :
    receiveLoop pktCallback (fuel + 1) transport consumed data =
      some ⟨transport, consumed, none⟩ := by
  obtain ⟨tail, rfl⟩ := hdata
  have hget : ∀ i < data.length, data.getD i 0 = (data ++ tail).getD i 0 := fun i hi =>
    (List.getD_append _ _ _ _ hi).symm
  rw [receiveLoop_succ]
  by_cases h0 : data.length = 0
  · have h8 : ¬ offsPayload false ≤ data.length := by
      rw [h0]
      decide
    rw [if_neg (fun hs => hs.1 h0), if_neg h8]
  · have hsof : data.getD 0 0 = Gaia.sof := (hget 0 (by omega)).trans h.sof
    rw [if_neg (fun hs => hs.2 hsof)]
    by_cases h8 : offsPayload false ≤ data.length
    · have hlen : (rxPktLength data).toNat = (data ++ tail).length := by
        rw [(rx_congr fun i hi => hget i (Nat.lt_of_lt_of_le hi h8)).2.2, h.rxPktLength_toNat]
      rw [if_pos h8, if_neg (by rw [hlen]; exact Nat.not_le.mpr hlt)]
    · rw [if_neg h8]

/-- No packet is the start of another one. -/
theorem WellFormed.eq_of_prefix (h' : WellFormed p') (hp : p <+: p') :
    p = p' := by
  obtain ⟨tail, rfl⟩ := hp
  have hlen := (rx_congr (h.getD_append tail)).2.2
  have hlength : (p ++ tail).length = p.length := by
    rw [← h.rxPktLength_toNat, ← h'.rxPktLength_toNat, hlen]
  rw [length_append] at hlength
  rw [length_eq_zero_iff.mp (by omega : tail.length = 0), append_nil]

end

/-! ### Packets built -/

/-- What the first bytes of a packet say. -/
theorem Request.rx_eq (ha : q.Allowed) (hr : q.Regular) (rest : List Byte) :
    (q.bytes.take 8 ++ rest).getD 0 0 = sof ∧
      (q.bytes.take 8 ++ rest).getD offsFlags 0 &&& flagCheck = 0 ∧
      rxIs16Bit (q.bytes.take 8 ++ rest) = q.is16 ∧
      rxPayloadSize (q.bytes.take 8 ++ rest) = .ofNat 16 q.body.length ∧
      (rxPktLength (q.bytes.take 8 ++ rest)).toNat = q.bytes.length := by
  have hlt := ha.lt
  have hlen := hr.2
  have hrx : ∀ flags : Byte, flags &&& flagCheck = 0 →
      (flags &&& flag16BitLength ≠ 0 ↔ q.is16 = true) →
      (calcRxPacketLength (.ofNat 16 q.body.length) flags).toNat = q.bytes.length := by
    intro flags hcheck h16
    unfold calcRxPacketLength
    rw [BitVec.toNat_ofNat, BitVec.toNat_ofNat, Nat.mod_eq_of_lt hlt, hcheck,
      if_neg (not_not.mpr rfl), Request.bytes_length]
    have hoffs : offsPayload q.is16 = offsPayload false +
        if flags &&& flag16BitLength ≠ 0 then 1 else 0 := by
      cases hq : q.is16 with
      | false =>
        rw [if_neg (by rw [h16, hq]; exact Bool.false_ne_true), Nat.add_zero]
      | true =>
        rw [if_pos (by rw [h16, hq])]
        rfl
    rw [hoffs, Nat.mod_eq_of_lt]
    · omega
    · unfold offsPayload at *
      split_ifs <;> simp_all <;> omega
  cases hq : q.is16 with
  | false =>
    have hsmall : q.body.length ≤ 255 := by
      unfold Request.is16 at hq
      simpa using hq
    have htake : q.bytes.take 8 = [sof, q.protocolVersion, 0, low (.ofNat 16 q.body.length),
        high q.vendorId, low q.vendorId, high q.commandId, low q.commandId] := by
      unfold Request.bytes Request.header
      rw [hq]
      rfl
    have hflags : (q.bytes.take 8 ++ rest).getD offsFlags 0 = 0 := by rw [htake]; rfl
    have h16 : rxIs16Bit (q.bytes.take 8 ++ rest) = false := by
      unfold rxIs16Bit
      rw [hflags]
      decide
    have hsize : rxPayloadSize (q.bytes.take 8 ++ rest) = .ofNat 16 q.body.length := by
      unfold rxPayloadSize
      rw [h16, if_neg Bool.false_ne_true, htake]
      change (low (BitVec.ofNat 16 q.body.length)).setWidth 16 = _
      unfold low
      apply BitVec.eq_of_toNat_eq
      simp
      omega
    refine ⟨by rw [htake]; rfl, by rw [hflags]; decide, h16, hsize, ?_⟩
    unfold rxPktLength
    rw [hsize, hflags]
    exact hrx 0 (by decide) (by rw [hq]; decide)
  | true =>
    have htake : q.bytes.take 8 = [sof, q.protocolVersion, flag16BitLength,
        high (.ofNat 16 q.body.length), low (.ofNat 16 q.body.length),
        high q.vendorId, low q.vendorId, high q.commandId] := by
      unfold Request.bytes Request.header
      rw [hq]
      rfl
    have hflags : (q.bytes.take 8 ++ rest).getD offsFlags 0 = flag16BitLength := by
      rw [htake]; rfl
    have h16 : rxIs16Bit (q.bytes.take 8 ++ rest) = true := by
      unfold rxIs16Bit
      rw [hflags]
      decide
    have hsize : rxPayloadSize (q.bytes.take 8 ++ rest) = .ofNat 16 q.body.length := by
      unfold rxPayloadSize
      rw [h16, if_pos rfl, htake]
      exact w16_high_low _
    refine ⟨by rw [htake]; rfl, by rw [hflags]; decide, h16, hsize, ?_⟩
    unfold rxPktLength
    rw [hsize, hflags]
    exact hrx _ (by decide) (by rw [hq]; decide)

/-- The bytes of a regular request are those of a packet. -/
theorem Request.wellFormed (ha : q.Allowed) (hr : q.Regular) : WellFormed q.bytes := by
  obtain ⟨hsof, hcheck, h16, hsize, hlen⟩ := q.rx_eq ha hr (q.bytes.drop 8)
  rw [take_append_drop] at hsof hcheck h16 hsize hlen
  refine ⟨hsof, ?_, ?_, fun hflag => (hflag hcheck).elim⟩
  · rw [h16, hsize, hcheck, if_neg (not_not.mpr rfl), BitVec.toNat_ofNat, Nat.mod_eq_of_lt ha.lt,
      q.bytes_length, Nat.add_zero]
  · rw [← hlen]
    exact BitVec.isLt _

/-- The arguments for a packet that is there. -/
theorem rxPacket_eq (ha : q.Allowed) (hr : q.Regular) : rxPacket q.bytes = q.packet := by
  obtain ⟨-, -, h16, hsize, hlen⟩ := q.rx_eq ha hr (q.bytes.drop 8)
  rw [take_append_drop] at h16 hsize hlen
  have hpkt : rxPktLength q.bytes = q.txLength := by
    rw [← hr.ofNat_length ha, ← hlen, BitVec.ofNat_toNat, BitVec.setWidth_eq]
  have hbody : (q.bytes.drop (offsPayload q.is16)).take
      (BitVec.ofNat 16 q.body.length).toNat = q.body := by
    rw [BitVec.toNat_ofNat, Nat.mod_eq_of_lt ha.lt, Request.bytes, ← q.header_length,
      drop_left, take_length]
  unfold rxPacket
  rw [h16, hsize, hpkt, hbody]
  have hids : w16 (q.bytes.getD (offsVendorId q.is16) 0)
        (q.bytes.getD (offsVendorId q.is16 + 1) 0) = q.vendorId ∧
      w16 (q.bytes.getD (offsCommandId q.is16) 0)
        (q.bytes.getD (offsCommandId q.is16 + 1) 0) = q.commandId := by
    unfold Request.bytes Request.header
    cases q.is16 with
    | false | true => exact ⟨w16_high_low _, w16_high_low _⟩
  rw [hids.1, hids.2]
  rfl

end Reception

/-! ## Rows of packets -/

/-- The bytes of a row of packets. -/
def stream (qs : List Request) : List Byte := (qs.map Request.bytes).flatten

section Rows

variable {σ : Type} {deliver : σ → Packet → σ} {qs : List Request} {data : List Byte}
  {transport : σ}

theorem stream_cons (q : Request) (qs : List Request) : stream (q :: qs) = q.bytes ++ stream qs :=
  rfl

/-- What a piece of a row holds: complete packets, and a part of the next one. -/
structure Cut (qs : List Request) (data : List Byte) (done rest : List Request)
    (tail : List Byte) : Prop where
  requests : qs = done ++ rest
  data_eq : data = stream done ++ tail
  tail_prefix : tail <+: stream rest
  incomplete : ∀ q ∈ rest.head?, tail.length < q.bytes.length

variable {done rest done' rest' : List Request} {tail tail' : List Byte}

theorem Cut.frames (h : Cut qs data done rest tail) :
    Frames.Cut Request.bytes qs data done rest tail :=
  ⟨h.requests, h.data_eq, h.tail_prefix, h.incomplete⟩

theorem Cut.of_frames (h : Frames.Cut Request.bytes qs data done rest tail) :
    Cut qs data done rest tail :=
  ⟨h.frames, h.data_eq, h.tail_prefix, h.incomplete⟩

theorem exists_cut (h : data <+: stream qs) : ∃ done rest tail, Cut qs data done rest tail := by
  obtain ⟨done, rest, tail, hcut⟩ := Frames.exists_cut Request.bytes h
  exact ⟨done, rest, tail, Cut.of_frames hcut⟩

/-- Where a piece of a row is cut. -/
theorem Cut.unique (h : Cut qs data done rest tail) (h' : Cut qs data done' rest' tail') :
    done = done' ∧ tail = tail' :=
  h.frames.unique h'.frames

variable (deliver transport) in
/-- **Reception.** The complete packets of a piece are delivered, in order, and consumed. -/
theorem receiveLoop_cut (consumed : ℕ) (hall : ∀ q ∈ qs, q.Allowed ∧ q.Regular)
    (hcut : Cut qs data done rest tail) {fuel : ℕ} (hfuel : data.length < fuel) :
    receiveLoop (fun s p => (true, deliver s p)) fuel transport consumed data =
      some ⟨(done.map Request.packet).foldl deliver transport,
        consumed + (stream done).length, none⟩ := by
  obtain ⟨rfl, rfl, htail, hincomplete⟩ := hcut
  induction done generalizing transport consumed fuel with
  | nil =>
    obtain ⟨fuel, rfl⟩ : ∃ n, fuel = n + 1 := ⟨fuel - 1, by omega⟩
    cases rest with
    | nil =>
      obtain rfl := prefix_nil.mp htail
      rfl
    | cons q rest =>
      have hlt := hincomplete q rfl
      have hq := hall q mem_cons_self
      rw [stream_cons] at htail
      exact (q.wellFormed hq.1 hq.2).receiveLoop_part
        (prefix_of_prefix_length_le htail (prefix_append ..) hlt.le) hlt
  | cons q done ih =>
    obtain ⟨fuel, rfl⟩ : ∃ n, fuel = n + 1 := ⟨fuel - 1, by omega⟩
    have hq := hall q mem_cons_self
    have hwf := q.wellFormed hq.1 hq.2
    have h8 : 8 ≤ q.bytes.length := hwf.offsPayload_le
    rw [stream_cons, append_assoc] at hfuel ⊢
    rw [length_append] at hfuel
    rw [hwf.receiveLoop_append, rxPacket_eq hq.1 hq.2, if_pos rfl,
      ih _ _ (fun q' hq' => hall q' (mem_cons_of_mem q hq')) (by omega)]
    rw [length_append, Nat.add_assoc]
    rfl

variable (deliver) in
/-- A piece that arrives: what is not consumed waits for the next one. -/
def receiveChunk (s : σ × List Byte) (chunk : List Byte) : Option (σ × List Byte) :=
  (receivePacket (fun s p => (true, deliver s p)) s.1 (s.2 ++ chunk)).map fun r =>
    (r.transport, (s.2 ++ chunk).drop r.consumed)

variable (deliver) in
/-- The number of bytes that are consumed of a piece. -/
def receiveLength (transport : σ) (data : List Byte) : Option (σ × ℕ) :=
  (receivePacket (fun s p => (true, deliver s p)) transport data).map fun r =>
    (r.transport, r.consumed)

theorem receiveChunk_eq_feed :
    receiveChunk deliver = Frames.feed (receiveLength deliver) := by
  funext s chunk
  unfold receiveChunk Frames.feed receiveLength
  rw [Option.map_map]
  rfl

variable (deliver transport) in
/-- A row that arrives in pieces. -/
theorem receiveChunk_foldlM {chunks : List (List Byte)}
    (hall : ∀ q ∈ qs, q.Allowed ∧ q.Regular) (h : chunks.flatten <+: stream qs) :
    ∃ done rest tail, Cut qs chunks.flatten done rest tail ∧
      chunks.foldlM (receiveChunk deliver) (transport, []) =
        some ((done.map Request.packet).foldl deliver transport, tail) := by
  have hpart : ∀ q ∈ qs.head?, ([] : List Byte).length < q.bytes.length := fun q hq =>
    Nat.lt_of_lt_of_le (by decide)
      (q.wellFormed (hall q (mem_of_mem_head? hq)).1
        (hall q (mem_of_mem_head? hq)).2).offsPayload_le
  obtain ⟨done, rest, tail, hcut, hrun⟩ :=
    Frames.feed_foldlM (receiveLength deliver) (fun s (q : Request) => deliver s q.packet)
      (fun s qs data done rest tail hall hcut => by
        unfold receiveLength receivePacket
        rw [receiveLoop_cut deliver s 0 hall (Cut.of_frames hcut) (Nat.lt_succ_self _),
          Option.map_some, Nat.zero_add, foldl_map]
        rfl)
      transport hall hpart h
  refine ⟨done, rest, tail, Cut.of_frames hcut, ?_⟩
  rw [receiveChunk_eq_feed, foldl_map]
  exact hrun

end Rows

/-- What should hold of a row of packets: each fills its buffer, and of any piece of the row the
complete packets are delivered and consumed, in one call or as the pieces of the piece arrive. -/
def Framed (qs : List Request) : Prop :=
  (∀ q ∈ qs, q.Fills) ∧ ∀ chunks : List (List Byte), chunks.flatten <+: stream qs →
    ∃ done rest tail, Cut qs chunks.flatten done rest tail ∧
      ∀ (σ : Type) (deliver : σ → Packet → σ) (transport : σ),
        receivePacket (fun s p => (true, deliver s p)) transport chunks.flatten =
          some ⟨(done.map Request.packet).foldl deliver transport, (stream done).length, none⟩ ∧
        chunks.foldlM (receiveChunk deliver) (transport, []) =
          some ((done.map Request.packet).foldl deliver transport, tail)

/-- **Framing.** A row of packets that their versions allow is built and received as it should be
exactly when each of them is regular. -/
theorem framing_iff {qs : List Request} (hall : ∀ q ∈ qs, q.Allowed) :
    Framed qs ↔ ∀ q ∈ qs, q.Regular := by
  constructor
  · intro h q hq
    exact (q.fills_iff (hall q hq)).mp (h.1 q hq)
  · intro hr
    have hboth : ∀ q ∈ qs, q.Allowed ∧ q.Regular := fun q hq => ⟨hall q hq, hr q hq⟩
    refine ⟨fun q hq => (q.fills_iff (hall q hq)).mpr (hr q hq), fun chunks hchunks => ?_⟩
    obtain ⟨done, rest, tail, hcut⟩ := exists_cut hchunks
    refine ⟨done, rest, tail, hcut, fun σ deliver transport => ⟨?_, ?_⟩⟩
    · have hrec := receiveLoop_cut deliver transport 0 hboth hcut (Nat.lt_succ_self _)
      rw [Nat.zero_add] at hrec
      exact hrec
    · obtain ⟨done', rest', tail', hcut', hrun⟩ :=
        receiveChunk_foldlM deliver transport hboth hchunks
      obtain ⟨rfl, rfl⟩ := hcut.unique hcut'
      exact hrun

/-- A command without payload, and a long answer. -/
def sampleRequests : List Request :=
  [⟨3, 0x1D, 0x0001, statusNone, [], by decide⟩,
    ⟨4, 0x1D, 0x0102, 0, List.replicate 300 7, by decide +kernel⟩]

theorem framing_iff_sampleRequests :
    Framed sampleRequests ↔ ∀ q ∈ sampleRequests, q.Regular :=
  framing_iff (by decide +kernel)

/-- A status before 255 bytes of payload. -/
def statusRequest : Request := ⟨4, 0x1D, 0x0102, 0, List.replicate 255 0, by decide +kernel⟩

/-- Version 4 allows the request, and building its packet panics. -/
theorem not_framed_statusRequest :
    statusRequest.Allowed ∧ statusRequest.built = none ∧ ¬ Framed [statusRequest] := by
  have hnone : statusRequest.built = none := by decide +kernel
  refine ⟨by decide +kernel, hnone, fun h => ?_⟩
  have hfills := (h.1 statusRequest List.mem_cons_self).1
  rw [hnone] at hfills
  cases hfills

end Mh40.Gaia
