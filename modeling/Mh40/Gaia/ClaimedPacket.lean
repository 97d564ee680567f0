import Mh40.Gaia.Framing

/-!
# Claimed packets

`gaiaTransport_RfcommCreatePacket` and `gaiaTransport_RfcommFlushPacket`: a packet is claimed for a
size of payload, filled, and sent with a final size. The claim of the space and the sending succeed.

* `createPacket`, `updatePacketLength`, `flushPacket`: `none` for a panic, or a write outside of the
  claimed space.
* **`claimed_right_iff`**: what is sent is the packet exactly when the size has not changed, or has
  become zero from one that the length of the empty packet does not exceed.
-/

namespace Mh40.Gaia

open List Option BitVec

/-! ## Model -/

/-- `tx_pkt_claimed_size`, and the header at the start of the claimed space. -/
structure Claimed where
  size : Uint16
  header : List Byte
  deriving DecidableEq, Repr

/-- `gaiaTransport_RfcommCreatePacket`. -/
def createPacket (protocolVersion : Byte) (vendorId commandId sizePayload : Uint16) :
    Option Claimed := do
  let size := calcTxPacketLength sizePayload statusNone
  let header ← setPacketHeader protocolVersion size vendorId commandId sizePayload false
  if header.length ≤ size.toNat then some ⟨size, header⟩ else none

/-- The claimed space after the payload has been written behind the header. -/
def Claimed.fill (claimed : Claimed) (payload : List Byte) : Option (List Byte) :=
  if claimed.header.length + payload.length ≤ claimed.size.toNat then
    some (claimed.header ++ payload)
  else none

/-- `Gaia_TransportCommonUpdatePacketLength`. -/
def updatePacketLength (pkt : List Byte) (sizePayload : Uint16) : Option (List Byte) := do
  let protocolVersion ← pkt[offsVersion]?
  let flags ← pkt[offsFlags]?
  if 4 ≤ protocolVersion.toNat ∧ flags &&& flag16BitLength ≠ 0 then do
    let x ← pkt[offsPayloadLength]?
    let y ← pkt[offsPayloadLength + 1]?
    if sizePayload.toNat ≤ (w16 x y).toNat then
      some ((pkt.set 3 (high sizePayload)).set 4 (low sizePayload))
    else none
  else do
    let length ← pkt[offsPayloadLength]?
    if sizePayload.toNat ≤ length.toNat ∧ sizePayload.toNat ≤ 255 then
      some (pkt.set 3 (high sizePayload))
    else none

/-- `gaiaTransport_RfcommFlushPacket`: the bytes that are sent. -/
def flushPacket (claimedSize : Uint16) (pkt : List Byte) (sizePayload : Uint16) :
    Option (List Byte) :=
  let pktLength := calcTxPacketLength sizePayload statusNone
  if pktLength ≠ claimedSize then
    if pktLength.toNat < claimedSize.toNat then
      (updatePacketLength pkt pktLength).map fun pkt => pkt.take pktLength.toNat
    else none
  else some (pkt.take pktLength.toNat)

/-! ## Statement -/

/-- A packet that is claimed for a payload and sent with the first bytes of it. -/
structure ClaimedPacket where
  protocolVersion : Byte
  vendorId : Uint16
  commandId : Uint16
  payload : List Byte
  finalSize : ℕ
  fits : payload.length < 2 ^ 16
  final_le : finalSize ≤ payload.length

namespace ClaimedPacket

variable (q : ClaimedPacket)

/-- What is sent. -/
def sent : Option (List Byte) := do
  let claimed ← createPacket q.protocolVersion q.vendorId q.commandId (.ofNat 16 q.payload.length)
  let pkt ← claimed.fill q.payload
  flushPacket claimed.size pkt (.ofNat 16 q.finalSize)

/-- What is sent is received as one packet, and nothing else. -/
def Right : Prop := ∃ bytes, q.sent = some bytes ∧
  receivePacket (fun packets p => (true, packets ++ [p])) [] bytes =
    some ⟨[⟨.ofNat 16 bytes.length, q.vendorId, q.commandId, q.payload.take q.finalSize⟩],
      bytes.length, none⟩

/-- The size is the claimed one and the version and 16 bits allow it, or it is zero and the claimed
one is at least the length of an empty packet and has 8 bits. -/
def Permits : Prop :=
  (q.finalSize = q.payload.length ∧
    (q.payload.length ≤ 255 ∨ 4 ≤ q.protocolVersion.toNat ∧ q.payload.length ≤ 65526)) ∨
  (q.finalSize = 0 ∧ 8 ≤ q.payload.length ∧ q.payload.length ≤ 255)

instance : Decidable q.Permits := inferInstanceAs (Decidable (_ ∨ _))

/-! ## Packets that are sent -/

/-- The request for the same packet. -/
def request (payload : List Byte) (fits : payload.length < 2 ^ 16) : Request :=
  ⟨q.protocolVersion, q.vendorId, q.commandId, statusNone, payload, fits⟩

variable {q} {payload : List Byte} {fits : payload.length < 2 ^ 16}

theorem body_request : (q.request payload fits).body = payload := rfl

theorem allowed_request (h : payload.length ≤ 255 ∨ 4 ≤ q.protocolVersion.toNat) :
    (q.request payload fits).Allowed :=
  h.imp_right fun h => ⟨h, fits⟩

theorem regular_request (h : payload.length ≤ 65526) : (q.request payload fits).Regular := by
  refine ⟨fun hs => hs.2 rfl, ?_⟩
  rw [body_request]
  unfold offsPayload
  rw [if_pos rfl]
  omega

/-- A regular request is received as its packet. -/
theorem receive_request {r : Request} (ha : r.Allowed) (hr : r.Regular) :
    receivePacket (fun packets p => (true, packets ++ [p])) [] r.bytes =
      some ⟨[r.packet], r.bytes.length, none⟩ := by
  have hcut : Cut [r] r.bytes [r] [] [] :=
    ⟨rfl, by simp [stream], prefix_refl _, fun _ h => absurd h (by simp)⟩
  have h := receiveLoop_cut (fun packets p => packets ++ [p]) [] 0
    (fun q hq => mem_singleton.mp hq ▸ ⟨ha, hr⟩) hcut (Nat.lt_succ_self _)
  rw [Nat.zero_add] at h
  rw [receivePacket, h]
  simp [stream]

/-- The received packets come one after the other. -/
theorem prefix_receiveLoop : ∀ {fuel : ℕ} {packets : List Packet} {consumed : ℕ}
    {data : List Byte} {r : Received (List Packet)},
    receiveLoop (fun packets p => (true, packets ++ [p])) fuel packets consumed data = some r →
      packets <+: r.transport
  | 0, _, _, _, _, h => absurd h.symm (some_ne_none _)
  | fuel + 1, packets, consumed, data, r, h => by
    rw [receiveLoop_succ] at h
    by_cases hsof : data.length ≠ 0 ∧ data.getD 0 0 ≠ sof
    · rw [if_pos hsof] at h
      cases h
      exact prefix_refl _
    rw [if_neg hsof] at h
    by_cases h8 : offsPayload false ≤ data.length ∧ (rxPktLength data).toNat ≤ data.length
    · by_cases hcheck : (if data.getD offsFlags 0 &&& flagCheck ≠ 0 then
          checksum (data.take (rxPktLength data).toNat) else 0) = 0
      · rw [if_pos h8.1, if_pos h8.2, if_pos hcheck, if_pos rfl] at h
        exact (prefix_append _ _).trans (prefix_receiveLoop h)
      · rw [if_pos h8.1, if_pos h8.2, if_neg hcheck] at h
        cases h
        exact prefix_refl _
    · rw [← ite_and, if_neg h8] at h
      cases h
      exact prefix_refl _

/-- The length that is calculated for a size. -/
theorem calcTx_toNat {n : ℕ} (h : n ≤ 65526) :
    (calcTxPacketLength (.ofNat 16 n) statusNone).toNat = 8 + n + if n > 255 then 1 else 0 := by
  have hn : (BitVec.ofNat 16 n).toNat = n := by
    rw [toNat_ofNat]
    exact Nat.mod_eq_of_lt (by omega)
  unfold calcTxPacketLength offsPayload
  rw [hn, toNat_ofNat, if_neg Bool.false_ne_true,
    if_neg (not_not_intro rfl : ¬ statusNone ≠ statusNone), Nat.add_zero]
  refine Nat.mod_eq_of_lt ?_
  split_ifs <;> omega

/-- The claimed space of a size that is allowed. -/
theorem sent_eq (hversion : q.payload.length ≤ 255 ∨ 4 ≤ q.protocolVersion.toNat)
    (hsize : q.payload.length ≤ 65526) :
    q.sent = flushPacket (q.request q.payload q.fits).txLength (q.request q.payload q.fits).bytes
      (.ofNat 16 q.finalSize) := by
  have ha : (q.request q.payload q.fits).Allowed := allowed_request hversion
  have hr : (q.request q.payload q.fits).Regular := regular_request hsize
  have hlength := ((q.request q.payload q.fits).length_iff ha).mpr hr
  have hheader := (q.request q.payload q.fits).setPacketHeader_eq ha
  rw [if_pos (hr.ofNat_length ha)] at hheader
  have hbytes : (q.request q.payload q.fits).bytes.length =
      (q.request q.payload q.fits).header.length + q.payload.length := by
    rw [Request.bytes, length_append, body_request]
  have hcreate : createPacket q.protocolVersion q.vendorId q.commandId
      (.ofNat 16 q.payload.length) =
        some ⟨(q.request q.payload q.fits).txLength, (q.request q.payload q.fits).header⟩ := by
    unfold createPacket
    dsimp only [bind]
    have hset : setPacketHeader q.protocolVersion
        (calcTxPacketLength (.ofNat 16 q.payload.length) statusNone) q.vendorId q.commandId
        (.ofNat 16 q.payload.length) false = some (q.request q.payload q.fits).header := hheader
    rw [hset, bind_some]
    exact if_pos (by
      have htx : (q.request q.payload q.fits).txLength =
        calcTxPacketLength (.ofNat 16 q.payload.length) statusNone := rfl
      rw [← htx]
      omega)
  rw [sent, hcreate]
  dsimp only [bind]
  rw [bind_some, Claimed.fill, if_pos (by dsimp only; omega), bind_some]
  rfl

/-! ## A final size below the claimed one -/

variable (q) in
/-- The ids in the header. -/
def ids : List Byte := [high q.vendorId, low q.vendorId, high q.commandId, low q.commandId]

theorem bytes_short (h : payload.length ≤ 255) : (q.request payload fits).bytes =
    sof :: q.protocolVersion :: 0 :: low (.ofNat 16 payload.length) :: (q.ids ++ payload) := by
  have his16 : (q.request payload fits).is16 = false := decide_eq_false (Nat.not_lt.mpr h)
  rw [Request.bytes, Request.header, his16]
  rfl

theorem bytes_long (h : 255 < payload.length) : (q.request payload fits).bytes =
    sof :: q.protocolVersion :: flag16BitLength :: high (.ofNat 16 payload.length) ::
      low (.ofNat 16 payload.length) :: (q.ids ++ payload) := by
  have his16 : (q.request payload fits).is16 = true := decide_eq_true h
  rw [Request.bytes, Request.header, his16]
  rfl

/-- With 8 bits of length, the size becomes zero and the payload stays. -/
theorem sent_short (hc : q.payload.length ≤ 255) (hn : q.finalSize < q.payload.length) :
    q.sent = if 8 + q.finalSize ≤ q.payload.length then
      some ((q.request [] (by decide)).bytes ++ q.payload.take q.finalSize) else none := by
  have hlength := calcTx_toNat (n := q.finalSize) (by omega)
  have hclaimed := calcTx_toNat (n := q.payload.length) (by omega)
  rw [if_neg (by omega), Nat.add_zero] at hlength hclaimed
  have hlow : (low (BitVec.ofNat 16 q.payload.length)).toNat = q.payload.length := by
    rw [low, toNat_setWidth, toNat_ofNat]
    omega
  rw [sent_eq (.inl hc) (by omega), flushPacket, bytes_short hc]
  have htx : (q.request q.payload q.fits).txLength =
      calcTxPacketLength (.ofNat 16 q.payload.length) statusNone := rfl
  rw [htx, if_pos fun h => by have := congrArg BitVec.toNat h; omega, if_pos (by omega)]
  generalize calcTxPacketLength (.ofNat 16 q.finalSize) statusNone = length at hlength ⊢
  have hhigh : 8 + q.finalSize ≤ 255 → high length = 0 := fun h => by
    refine eq_of_toNat_eq ?_
    rw [high, toNat_setWidth, toNat_ushiftRight, hlength, Nat.shiftRight_eq_div_pow,
      Nat.div_eq_of_lt (by omega)]
    rfl
  have hupdate : updatePacketLength (sof :: q.protocolVersion :: 0 ::
      low (.ofNat 16 q.payload.length) :: (q.ids ++ q.payload)) length =
        if 8 + q.finalSize ≤ q.payload.length then some (sof :: q.protocolVersion :: 0 :: 0 ::
          (q.ids ++ q.payload)) else none := by
    have hflags : ¬ (4 ≤ q.protocolVersion.toNat ∧ (0 : Byte) &&& flag16BitLength ≠ 0) := fun h =>
      h.2 (by decide)
    rw [updatePacketLength]
    simp only [offsVersion, offsFlags, offsPayloadLength, getElem?_cons_succ,
      getElem?_cons_zero, bind_eq_bind, bind_some]
    rw [if_neg hflags, hlow, hlength]
    by_cases hle : 8 + q.finalSize ≤ q.payload.length
    · rw [if_pos ⟨hle, by omega⟩, if_pos hle, hhigh (by omega)]
      rfl
    · rw [if_neg fun h => hle h.1, if_neg hle]
  rw [hupdate]
  by_cases hle : 8 + q.finalSize ≤ q.payload.length
  · have htake : (sof :: q.protocolVersion :: 0 :: 0 :: (q.ids ++ q.payload)).take
        (8 + q.finalSize) = sof :: q.protocolVersion :: 0 :: 0 ::
          (q.ids ++ q.payload.take q.finalSize) := by
      rw [Nat.add_comm]
      rfl
    rw [if_pos hle, if_pos hle, map_some, hlength, htake,
      bytes_short (by decide : ([] : List Byte).length ≤ 255)]
    rfl
  · rw [if_neg hle, if_neg hle]
    rfl

/-- With 16 bits of length, the size becomes the length of the whole packet. -/
theorem sent_long (h255 : 255 < q.payload.length) (hc : q.payload.length ≤ 65526)
    (hversion : 4 ≤ q.protocolVersion.toNat) (hn : q.finalSize < q.payload.length) :
    ∃ length : Uint16, 8 ≤ length.toNat ∧ q.sent = if length.toNat ≤ q.payload.length then
      some ((sof :: q.protocolVersion :: flag16BitLength :: high length :: low length ::
        (q.ids ++ q.payload)).take length.toNat) else none := by
  have hlength := calcTx_toNat (n := q.finalSize) (by omega)
  have hclaimed := calcTx_toNat (n := q.payload.length) (by omega)
  rw [if_pos h255] at hclaimed
  refine ⟨calcTxPacketLength (.ofNat 16 q.finalSize) statusNone, by omega, ?_⟩
  have hlt : (calcTxPacketLength (.ofNat 16 q.finalSize) statusNone).toNat <
      (calcTxPacketLength (.ofNat 16 q.payload.length) statusNone).toNat := by
    rw [hlength, hclaimed]
    split_ifs <;> omega
  rw [sent_eq (.inr hversion) hc, flushPacket, bytes_long h255]
  have htx : (q.request q.payload q.fits).txLength =
      calcTxPacketLength (.ofNat 16 q.payload.length) statusNone := rfl
  rw [htx, if_pos fun h => by have := congrArg BitVec.toNat h; omega, if_pos hlt]
  generalize calcTxPacketLength (.ofNat 16 q.finalSize) statusNone = length
  have hsize : (w16 (high (.ofNat 16 q.payload.length)) (low (.ofNat 16 q.payload.length))).toNat =
      q.payload.length := by
    rw [w16_high_low, toNat_ofNat]
    omega
  rw [updatePacketLength]
  simp only [offsVersion, offsFlags, offsPayloadLength, getElem?_cons_succ,
    getElem?_cons_zero, bind_eq_bind, bind_some]
  rw [if_pos ⟨hversion, by decide⟩, hsize]
  by_cases hle : length.toNat ≤ q.payload.length
  · rw [if_pos hle, if_pos hle]
    rfl
  · rw [if_neg hle, if_neg hle]
    rfl

/-! ## What is received -/

theorem sent_eq_none (h : 65526 < q.payload.length ∨
    255 < q.payload.length ∧ ¬ 4 ≤ q.protocolVersion.toNat) : q.sent = none := by
  have hcreate : createPacket q.protocolVersion q.vendorId q.commandId
      (.ofNat 16 q.payload.length) = none := by
    have h255 : 255 < (BitVec.ofNat 16 q.payload.length).toNat := by
      have := q.fits
      rw [toNat_ofNat]
      omega
    unfold createPacket setPacketHeader
    dsimp only [bind]
    rw [if_pos h255]
    by_cases hversion : 4 ≤ q.protocolVersion.toNat
    · -- the claimed size wraps, and the header does not fit into it
      have hlarge := h.resolve_right fun h => h.2 hversion
      have hsize : (calcTxPacketLength (.ofNat 16 q.payload.length) statusNone).toNat < 9 := by
        have hfits := q.fits
        have hn : (BitVec.ofNat 16 q.payload.length).toNat = q.payload.length := by
          rw [toNat_ofNat]
          exact Nat.mod_eq_of_lt hfits
        unfold calcTxPacketLength offsPayload
        rw [hn, toNat_ofNat, if_neg Bool.false_ne_true,
          if_neg (not_not_intro rfl : ¬ statusNone ≠ statusNone), if_pos (by omega)]
        omega
      have hflags : (0 ||| flag16BitLength) &&& flag16BitLength ≠ 0 := by decide
      rw [if_pos hversion, if_neg Bool.false_ne_true, if_neg Bool.false_ne_true, bind_some,
        if_pos hflags]
      split
      · rfl
      · exact if_neg (Nat.not_le.mpr hsize)
    · rw [if_neg hversion]
      rfl
  rw [sent, hcreate]
  rfl

theorem right_same (hn : q.finalSize = q.payload.length)
    (hversion : q.payload.length ≤ 255 ∨ 4 ≤ q.protocolVersion.toNat)
    (hc : q.payload.length ≤ 65526) : q.Right := by
  have ha : (q.request q.payload q.fits).Allowed := allowed_request hversion
  have hr : (q.request q.payload q.fits).Regular := regular_request hc
  have hlength := ((q.request q.payload q.fits).length_iff ha).mpr hr
  refine ⟨(q.request q.payload q.fits).bytes, ?_, ?_⟩
  · have htx : calcTxPacketLength (.ofNat 16 q.payload.length) statusNone =
        (q.request q.payload q.fits).txLength := rfl
    rw [sent_eq hversion hc, flushPacket, hn, htx, if_neg (not_not_intro rfl), ← hlength,
      take_length]
  · rw [receive_request ha hr, hr.ofNat_length ha, hn, take_length]
    rfl

theorem right_short_iff (hc : q.payload.length ≤ 255) (hn : q.finalSize < q.payload.length) :
    q.Right ↔ q.finalSize = 0 ∧ 8 ≤ q.payload.length := by
  have ha : (q.request [] (by decide)).Allowed := allowed_request (.inl (by decide))
  have hr : (q.request [] (by decide)).Regular := regular_request (by decide)
  have hsent := sent_short hc hn
  constructor
  · rintro ⟨bytes, hbytes, hreceive⟩
    by_cases hle : 8 + q.finalSize ≤ q.payload.length
    · rw [hsent, if_pos hle] at hbytes
      cases hbytes
      -- an empty packet comes first
      rw [receivePacket, (Request.wellFormed ha hr).receiveLoop_append, if_pos rfl,
        rxPacket_eq ha hr] at hreceive
      obtain ⟨rest, hrest⟩ := prefix_receiveLoop hreceive
      obtain ⟨hpacket, -⟩ := cons.inj hrest
      have hpayload : [] = q.payload.take q.finalSize := congrArg Packet.payload hpacket
      have hlength := congrArg List.length hpayload
      rw [length_take, length_nil] at hlength
      omega
    · rw [hsent, if_neg hle] at hbytes
      cases hbytes
  · rintro ⟨h0, h8⟩
    refine ⟨(q.request [] (by decide)).bytes, ?_, ?_⟩
    · rw [hsent, h0, if_pos (by omega), take_zero, append_nil]
    · rw [receive_request ha hr, hr.ofNat_length ha, h0, take_zero]
      rfl

/-- The length in a header with 16 bits of it. -/
theorem rxPktLength_long (version : Byte) (length : Uint16) (rest : List Byte) :
    rxPktLength (sof :: version :: flag16BitLength :: high length :: low length :: rest) =
      calcRxPacketLength length flag16BitLength := by
  have hsize : rxPayloadSize
      (sof :: version :: flag16BitLength :: high length :: low length :: rest) = length := by
    have h16 : rxIs16Bit
        (sof :: version :: flag16BitLength :: high length :: low length :: rest) = true :=
      (by decide : decide (flag16BitLength &&& flag16BitLength ≠ 0) = true)
    rw [rxPayloadSize, h16, if_pos rfl]
    exact w16_high_low length
  rw [rxPktLength, hsize]
  rfl

theorem not_right_long (h255 : 255 < q.payload.length) (hc : q.payload.length ≤ 65526)
    (hversion : 4 ≤ q.protocolVersion.toNat) (hn : q.finalSize < q.payload.length) :
    ¬ q.Right := by
  rintro ⟨bytes, hbytes, hreceive⟩
  obtain ⟨length, h8, hsent⟩ := sent_long h255 hc hversion hn
  by_cases hle : length.toNat ≤ q.payload.length
  swap
  · rw [hsent, if_neg hle] at hbytes
    cases hbytes
  rw [hsent, if_pos hle] at hbytes
  cases hbytes
  obtain ⟨m, hm⟩ : ∃ m, length.toNat = m + 8 := ⟨length.toNat - 8, by omega⟩
  have hlength : ((sof :: q.protocolVersion :: flag16BitLength :: high length :: low length ::
      (q.ids ++ q.payload)).take length.toNat).length = length.toNat := by
    rw [length_take_of_le]
    simp only [length_cons, length_append]
    omega
  rw [hm, take_succ_cons, take_succ_cons, take_succ_cons, take_succ_cons, take_succ_cons]
    at hlength hreceive
  rw [← hm] at hlength
  generalize (q.ids ++ q.payload).take (m + 3) = rest at hlength hreceive
  -- the packet claims the header once more than there are bytes
  have hrx : (rxPktLength (sof :: q.protocolVersion :: flag16BitLength :: high length ::
      low length :: rest)).toNat = 9 + length.toNat := by
    have hcalc : (calcRxPacketLength length flag16BitLength).toNat =
        (8 + length.toNat + 0 + 1) % 2 ^ 16 := by
      unfold calcRxPacketLength
      rw [toNat_ofNat, if_neg (by decide), if_pos (by decide)]
      rfl
    rw [rxPktLength_long, hcalc]
    omega
  rw [receivePacket, receiveLoop_succ, if_neg fun h => h.2 rfl,
    if_pos (by rw [hlength]; exact h8), if_neg (by rw [hrx, hlength]; omega)] at hreceive
  cases hreceive

/-- **A claimed packet is sent right** exactly with the size that was claimed, or without payload
when the claimed size has 8 bits and is at least the length of an empty packet. -/
theorem claimed_right_iff (q : ClaimedPacket) : q.Right ↔ q.Permits := by
  have hfinal := q.final_le
  unfold Permits
  by_cases hnone : 65526 < q.payload.length ∨
      255 < q.payload.length ∧ ¬ 4 ≤ q.protocolVersion.toNat
  · refine iff_of_false ?_ ?_
    · rintro ⟨bytes, hbytes, -⟩
      rw [sent_eq_none hnone] at hbytes
      cases hbytes
    · omega
  by_cases hn : q.finalSize = q.payload.length
  · exact iff_of_true (right_same hn (by omega) (by omega)) (.inl ⟨hn, by omega⟩)
  by_cases hc : q.payload.length ≤ 255
  · rw [right_short_iff hc (by omega)]
    omega
  · refine iff_of_false (not_right_long (by omega) (by omega) (by omega) (by omega)) ?_
    omega

/-- A byte of payload, of which nine were claimed. -/
def shrunkPacket : ClaimedPacket :=
  ⟨4, 0x1D, 0x0001, List.replicate 9 7, 1, by decide, by decide⟩

/-- It is received as an empty packet, and the byte of payload is left over. -/
theorem not_claimed_right : ¬ ∀ q : ClaimedPacket, q.Right := by
  intro h
  obtain ⟨bytes, hbytes, hreceive⟩ := h shrunkPacket
  have hsent : shrunkPacket.sent = some [0xFF, 4, 0, 0, 0, 0x1D, 0, 1, 7] := by decide +kernel
  rw [hsent] at hbytes
  cases hbytes
  revert hreceive
  decide +kernel

end ClaimedPacket

end Mh40.Gaia
