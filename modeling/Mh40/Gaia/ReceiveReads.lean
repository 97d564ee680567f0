import Mh40.Gaia.Framing

/-!
# What the reception reads

`Gaia_TransportCommonReceivePacket` once more, with every read of the buffer and with the arguments
of the callback as they are: a payload is a place in the buffer.

* `receiveTurns`: the calls and how they end, where `outside` is a read outside of the buffer, and
  `none` says that the turns were not enough.
* `Handed`, `Wrapped`: what makes a turn call the callback, and where the length of the packet does
  not fit its 16 bits.
* **`received_inside_iff`**: the reception stays inside exactly when no such packet is handed over.
-/

namespace Mh40.Gaia

open List Option

/-! ## Model -/

/-- The arguments of the callback, where the payload is a place in the buffer or `NULL`. -/
structure PacketArgs where
  pktSize : Uint16
  vendorId : Uint16
  commandId : Uint16
  sizePayload : Uint16
  payload : Option ℕ
  deriving DecidableEq, Repr

inductive Turn where
  | stop (error : Option TransportError)
  | call (args : PacketArgs)
  deriving DecidableEq, Repr

inductive Outcome where
  | outside
  | ended (consumed : ℕ) (error : Option TransportError)
  deriving DecidableEq, Repr

/-- The test for the start of a frame. -/
def startsFrame (data : List Byte) : Option Bool :=
  if data.length ≠ 0 then data[0]?.map fun first => decide (first = sof) else some true

/-- `W16` at a place. -/
def readW16 (data : List Byte) (i : ℕ) : Option Uint16 := do
  let x ← data[i]?
  let y ← data[i + 1]?
  some (w16 x y)

def readPayloadSize (is16Bit : Bool) (data : List Byte) : Option Uint16 :=
  if is16Bit then readW16 data offsPayloadLength
  else data[offsPayloadLength]?.map fun size => size.setWidth 16

/-- The loop over the bytes of a packet with a checksum. -/
def readChecksum (flags : Byte) (data : List Byte) (pktLength : ℕ) : Option Byte :=
  if flags &&& flagCheck ≠ 0 then
    (List.range pktLength).foldlM (fun chksum i => data[i]?.map fun x => chksum ^^^ x) 0
  else some 0

/-- A turn of the loop, `pos` bytes into the buffer. -/
def readTurn (pos : ℕ) (data : List Byte) : Option Turn := do
  let framed ← startsFrame data
  if !framed then some (.stop (some .framingError))
  else if offsPayload false ≤ data.length then do
    let _ ← data[offsVersion]?
    let flags ← data[offsFlags]?
    let is16Bit := decide (flags &&& flag16BitLength ≠ 0)
    let payloadSize ← readPayloadSize is16Bit data
    let pktLength := calcRxPacketLength payloadSize flags
    if pktLength.toNat ≤ data.length then do
      let chksum ← readChecksum flags data pktLength.toNat
      if chksum = 0 then do
        let vendorId ← readW16 data (offsVendorId is16Bit)
        let commandId ← readW16 data (offsCommandId is16Bit)
        let payload := if payloadSize ≠ 0 then some (pos + offsPayload is16Bit) else none
        some (.call ⟨pktLength, vendorId, commandId, payloadSize, payload⟩)
      else some (.stop (some .checksumError))
    else some (.stop none)
  else some (.stop none)

/-- `Gaia_TransportCommonReceivePacket`: the calls of the callback, and the end. -/
def receiveTurns {σ : Type} (pktCallback : σ → PacketArgs → Bool × σ) :
    ℕ → σ → ℕ → List Byte → Option (List PacketArgs × Outcome)
  | 0, _, _, _ => none
  | turns + 1, transport, pos, data =>
    match readTurn pos data with
    | none => some ([], .outside)
    | some (.stop error) => some ([], .ended pos error)
    | some (.call args) =>
      let (morePkts, transport) := pktCallback transport args
      if morePkts then
        (receiveTurns pktCallback turns transport (pos + args.pktSize.toNat)
          (data.drop args.pktSize.toNat)).map fun r => (args :: r.1, r.2)
      else some ([args], .ended pos none)

/-! ## One turn -/

section Turns

variable {data p : List Byte} {pos i : ℕ}

/-- A turn calls the callback. -/
structure Handed (data : List Byte) : Prop where
  sof : data.getD 0 0 = sof
  header : offsPayload false ≤ data.length
  complete : (rxPktLength data).toNat ≤ data.length
  checked : data.getD offsFlags 0 &&& flagCheck ≠ 0 →
    checksum (data.take (rxPktLength data).toNat) = 0

/-- It does for a packet whose length does not fit its 16 bits. -/
structure Wrapped (data : List Byte) : Prop extends Handed data where
  long : 2 ^ 16 ≤ offsPayload (rxIs16Bit data) + (rxPayloadSize data).toNat +
    if data.getD offsFlags 0 &&& flagCheck ≠ 0 then 1 else 0

/-- The arguments for the packet at the start of the bytes, with the ids that have been read. -/
def callArgs (pos : ℕ) (data : List Byte) (vendorId commandId : Uint16) : PacketArgs :=
  ⟨rxPktLength data, vendorId, commandId, rxPayloadSize data,
    if rxPayloadSize data ≠ 0 then some (pos + offsPayload (rxIs16Bit data)) else none⟩

def packetArgs (pos : ℕ) (data : List Byte) : PacketArgs :=
  callArgs pos data (rxPacket data).vendorId (rxPacket data).commandId

theorem getElem?_eq_getD (h : i < data.length) : data[i]? = some (data.getD i 0) := by
  rw [getElem?_eq_getElem h, getD_eq_getElem _ _ h]

theorem readW16_eq (h : i + 1 < data.length) :
    readW16 data i = some (w16 (data.getD i 0) (data.getD (i + 1) 0)) := by
  rw [readW16, getElem?_eq_getD (Nat.lt_of_succ_lt h), getElem?_eq_getD h]
  rfl

theorem readW16_none (h : data.length ≤ i + 1) : readW16 data i = none := by
  rw [readW16, getElem?_eq_none h]
  cases data[i]? <;> rfl

theorem foldlM_checksum (data : List Byte) : ∀ n ≤ data.length,
    (List.range n).foldlM (fun chksum i => data[i]?.map fun x => chksum ^^^ x) (0 : Byte) =
      some (checksum (data.take n))
  | 0, _ => rfl
  | n + 1, h => by
    have hn : n < data.length := h
    rw [range_succ, foldlM_append, foldlM_checksum data n (Nat.le_of_lt hn)]
    simp only [bind_eq_bind, bind_some, foldlM_cons, foldlM_nil,
      getElem?_eq_getElem hn, map_some, Option.pure_def]
    rw [take_add_one, getElem?_eq_getElem hn, checksum, checksum, foldl_append]
    rfl

theorem readChecksum_eq {flags : Byte} {n : ℕ} (h : n ≤ data.length) : readChecksum flags data n =
    some (if flags &&& flagCheck ≠ 0 then checksum (data.take n) else 0) := by
  unfold readChecksum
  split_ifs
  · exact foldlM_checksum data n h
  · rfl

/-- A turn behind the checks of the header. -/
theorem readTurn_eq (pos : ℕ) (data : List Byte) : readTurn pos data =
    if data.length ≠ 0 ∧ data.getD 0 0 ≠ sof then some (.stop (some .framingError))
    else if offsPayload false ≤ data.length then
      if (rxPktLength data).toNat ≤ data.length then
        if (if data.getD offsFlags 0 &&& flagCheck ≠ 0 then
            checksum (data.take (rxPktLength data).toNat) else 0) = 0 then
          (readW16 data (offsVendorId (rxIs16Bit data))).bind fun vendorId =>
            (readW16 data (offsCommandId (rxIs16Bit data))).bind fun commandId =>
              some (.call (callArgs pos data vendorId commandId))
        else some (.stop (some .checksumError))
      else some (.stop none)
    else some (.stop none) := by
  have hframed : startsFrame data = some (decide ¬ (data.length ≠ 0 ∧ data.getD 0 0 ≠ sof)) := by
    unfold startsFrame
    by_cases h0 : data.length ≠ 0
    · rw [if_pos h0, getElem?_eq_getD (Nat.pos_of_ne_zero h0), map_some]
      simp [h0]
    · rw [if_neg h0, decide_eq_true (p := ¬ (_ ∧ _)) fun h => h0 h.1]
  rw [readTurn, hframed]
  simp only [bind_eq_bind, bind_some]
  by_cases hsof : data.length ≠ 0 ∧ data.getD 0 0 ≠ sof
  · rw [if_pos hsof, decide_eq_false (not_not_intro hsof)]
    rfl
  rw [if_neg hsof, decide_eq_true (p := ¬ (_ ∧ _)) hsof, if_neg (by decide)]
  by_cases h8 : offsPayload false ≤ data.length
  · have h8' : 8 ≤ data.length := h8
    have hsize : readPayloadSize (rxIs16Bit data) data = some (rxPayloadSize data) := by
      unfold readPayloadSize rxPayloadSize
      cases rxIs16Bit data with
      | true => exact readW16_eq (Nat.lt_of_lt_of_le (by decide) h8')
      | false =>
        rw [if_neg Bool.false_ne_true, if_neg Bool.false_ne_true,
          getElem?_eq_getD (Nat.lt_of_lt_of_le (by decide) h8')]
        rfl
    rw [if_pos h8, if_pos h8, getElem?_eq_getD (Nat.lt_of_lt_of_le (by decide) h8'),
      getElem?_eq_getD (Nat.lt_of_lt_of_le (by decide : offsFlags < 8) h8')]
    simp only [bind_some]
    rw [← rxIs16Bit, hsize, bind_some, ← rxPktLength]
    by_cases hlen : (rxPktLength data).toNat ≤ data.length
    · rw [if_pos hlen, if_pos hlen, readChecksum_eq hlen, bind_some]
      rfl
    · rw [if_neg hlen, if_neg hlen]
  · rw [if_neg h8, if_neg h8]

theorem not_handed_turn (h : ¬ Handed data) : ∃ error, readTurn pos data = some (.stop error) := by
  rw [readTurn_eq]
  by_cases hsof : data.length ≠ 0 ∧ data.getD 0 0 ≠ sof
  · exact ⟨_, if_pos hsof⟩
  rw [if_neg hsof]
  by_cases h8 : offsPayload false ≤ data.length
  · rw [if_pos h8]
    by_cases hlen : (rxPktLength data).toNat ≤ data.length
    · rw [if_pos hlen]
      refine ⟨_, if_neg fun hcheck => h ⟨?_, h8, hlen, fun hflag => ?_⟩⟩
      · have h0 : data.length ≠ 0 := by
          have : 8 ≤ data.length := h8
          omega
        exact Decidable.not_not.mp fun hne => hsof ⟨h0, hne⟩
      · rw [if_pos hflag] at hcheck
        exact hcheck
    · exact ⟨_, if_neg hlen⟩
  · exact ⟨_, if_neg h8⟩

theorem Handed.turn (h : Handed data) : readTurn pos data =
    (readW16 data (offsVendorId (rxIs16Bit data))).bind fun vendorId =>
      (readW16 data (offsCommandId (rxIs16Bit data))).bind fun commandId =>
        some (.call (callArgs pos data vendorId commandId)) := by
  have hcheck : (if data.getD offsFlags 0 &&& flagCheck ≠ 0 then
      checksum (data.take (rxPktLength data).toNat) else 0) = 0 := by
    split_ifs with hflag
    · exact h.checked hflag
    · rfl
  rw [readTurn_eq, if_neg fun hs => hs.2 h.sof, if_pos h.header, if_pos h.complete, if_pos hcheck]

/-- The length of a packet, in 16 bits. -/
theorem rxPktLength_toNat (data : List Byte) : (rxPktLength data).toNat =
    (offsPayload (rxIs16Bit data) + (rxPayloadSize data).toNat +
      if data.getD offsFlags 0 &&& flagCheck ≠ 0 then 1 else 0) % 2 ^ 16 := by
  have hoffs : offsPayload (rxIs16Bit data) = offsPayload false +
      if data.getD offsFlags 0 &&& flag16BitLength ≠ 0 then 1 else 0 := by
    unfold rxIs16Bit
    by_cases h16 : data.getD offsFlags 0 &&& flag16BitLength ≠ 0
    · rw [decide_eq_true h16, if_pos h16]
      rfl
    · rw [decide_eq_false h16, if_neg h16, Nat.add_zero]
  rw [hoffs, rxPktLength, calcRxPacketLength, BitVec.toNat_ofNat]
  congr 1
  omega

/-- A packet that is handed over, with a length that fits. -/
theorem Handed.wellFormed (h : Handed data) (hw : ¬ Wrapped data) :
    WellFormed (data.take (rxPktLength data).toNat) ∧
      readTurn pos data = some (.call (packetArgs pos data)) := by
  have hlong := rxPktLength_toNat data
  have hfits : ¬ 2 ^ 16 ≤ _ := fun hlong => hw ⟨h, hlong⟩
  rw [Nat.mod_eq_of_lt (Nat.not_le.mp hfits)] at hlong
  have hoffs : offsPayload (rxIs16Bit data) ≤ (rxPktLength data).toNat := by omega
  have h8 : offsPayload false ≤ offsPayload (rxIs16Bit data) := by
    cases rxIs16Bit data <;> decide
  have htake : (data.take (rxPktLength data).toNat).length = (rxPktLength data).toNat :=
    length_take_of_le h.complete
  have hget : ∀ i < offsPayload false, (data.take (rxPktLength data).toNat).getD i 0 =
      data.getD i 0 := fun i hi => by
    have hlt : i < (data.take (rxPktLength data).toNat).length := by
      rw [htake]
      omega
    rw [← take_append_drop (rxPktLength data).toNat data, getD_append _ _ _ _ hlt,
      take_append_drop]
  obtain ⟨h16, hsize, -⟩ := rx_congr hget
  refine ⟨⟨(hget 0 (by decide)).trans h.sof, ?_, ?_, ?_⟩, ?_⟩
  · rw [htake, h16, hsize, hget offsFlags (by decide), hlong]
  · rw [htake]
    exact BitVec.isLt _
  · rw [hget offsFlags (by decide)]
    exact h.checked
  · have hids : offsVendorId (rxIs16Bit data) + 1 < offsPayload (rxIs16Bit data) ∧
        offsCommandId (rxIs16Bit data) + 1 < offsPayload (rxIs16Bit data) := by
      cases rxIs16Bit data <;> decide
    have hcomplete := h.complete
    have hvendor : offsVendorId (rxIs16Bit data) + 1 < data.length := by omega
    have hcommand : offsCommandId (rxIs16Bit data) + 1 < data.length := by omega
    rw [h.turn, readW16_eq hvendor, readW16_eq hcommand]
    rfl

/-- What is handed over of a packet that does not fit. -/
theorem Wrapped.turn (h : Wrapped data) : readTurn pos data = none ∨
    ∃ args, readTurn pos data = some (.call args) ∧ args.sizePayload = rxPayloadSize data ∧
      args.pktSize = rxPktLength data ∧ args.payload = some (pos + offsPayload true) := by
  have h16 : rxIs16Bit data = true := by
    have hlong := h.long
    have hcheck : (if data.getD offsFlags 0 &&& flagCheck ≠ 0 then 1 else 0) ≤ 1 := by
      split_ifs <;> decide
    cases hbit : rxIs16Bit data with
    | true => rfl
    | false =>
      have hsize : (rxPayloadSize data).toNat < 2 ^ 8 := by
        unfold rxPayloadSize
        rw [hbit, if_neg Bool.false_ne_true, BitVec.toNat_setWidth]
        exact Nat.lt_of_le_of_lt (Nat.mod_le _ _) (BitVec.isLt _)
      rw [hbit] at hlong
      unfold offsPayload at hlong
      rw [if_neg Bool.false_ne_true] at hlong
      omega
  have hpos : rxPayloadSize data ≠ 0 := fun h0 => by
    have hlong := h.long
    rw [h0, h16] at hlong
    revert hlong
    split_ifs <;> decide
  rw [h.toHanded.turn, h16]
  cases readW16 data (offsVendorId true) with
  | none => exact .inl rfl
  | some vendorId =>
    cases readW16 data (offsCommandId true) with
    | none => exact .inl rfl
    | some commandId => exact .inr ⟨_, rfl, rfl, rfl, by rw [callArgs, h16, if_pos hpos]⟩

end Turns

/-! ## The packets of the calls -/

section Packets

variable {σ : Type} {pktCallback : σ → Packet → Bool × σ} {buf data : List Byte} {pos : ℕ}

/-- The packet that a call is about. -/
def packetOf (buf : List Byte) (args : PacketArgs) : Packet :=
  ⟨args.pktSize, args.vendorId, args.commandId, match args.payload with
    | none => []
    | some place => (buf.drop place).take args.sizePayload.toNat⟩

theorem packetOf_packetArgs (hdata : data = buf.drop pos) :
    packetOf buf (packetArgs pos data) = rxPacket data := by
  unfold packetOf packetArgs callArgs
  by_cases h0 : rxPayloadSize data ≠ 0
  · simp only [if_pos h0, ← drop_drop, ← hdata]
    rfl
  · rw [if_neg h0, rxPacket, Decidable.not_not.mp h0]
    rfl

/-- **The calls hand over the packets** that the reception finds, as long as it stays inside. -/
theorem receiveLoop_of_receiveTurns : ∀ {turns : ℕ} {s : σ} {pos : ℕ} {data : List Byte}
    {calls : List PacketArgs} {consumed : ℕ} {error : Option TransportError},
    data = buf.drop pos →
      receiveTurns (fun s args => pktCallback s (packetOf buf args)) turns s pos data =
        some (calls, .ended consumed error) →
          receiveLoop pktCallback turns s pos data = some
            ⟨calls.foldl (fun s args => (pktCallback s (packetOf buf args)).2) s, consumed, error⟩
  | 0, _, _, _, _, _, _, _, h => absurd h.symm (some_ne_none _)
  | turns + 1, s, pos, data, calls, consumed, error, hdata, h => by
    rw [receiveTurns, readTurn_eq] at h
    rw [receiveLoop_succ]
    by_cases hsof : data.length ≠ 0 ∧ data.getD 0 0 ≠ sof
    · rw [if_pos hsof] at h ⊢
      cases h
      rfl
    rw [if_neg hsof] at h ⊢
    by_cases h8 : offsPayload false ≤ data.length
    swap
    · rw [if_neg h8] at h ⊢
      cases h
      rfl
    rw [if_pos h8] at h ⊢
    by_cases hlen : (rxPktLength data).toNat ≤ data.length
    swap
    · rw [if_neg hlen] at h ⊢
      cases h
      rfl
    rw [if_pos hlen] at h ⊢
    by_cases hcheck : (if data.getD offsFlags 0 &&& flagCheck ≠ 0 then
        checksum (data.take (rxPktLength data).toNat) else 0) = 0
    swap
    · rw [if_neg hcheck] at h ⊢
      cases h
      rfl
    rw [if_pos hcheck] at h ⊢
    -- both ids are inside, or the reception would have left the buffer
    by_cases hids : offsVendorId (rxIs16Bit data) + 1 < data.length ∧
        offsCommandId (rxIs16Bit data) + 1 < data.length
    · rw [readW16_eq hids.1, readW16_eq hids.2, bind_some, bind_some] at h
      have hpacket : packetOf buf (callArgs pos data
          (w16 (data.getD (offsVendorId (rxIs16Bit data)) 0)
            (data.getD (offsVendorId (rxIs16Bit data) + 1) 0))
          (w16 (data.getD (offsCommandId (rxIs16Bit data)) 0)
            (data.getD (offsCommandId (rxIs16Bit data) + 1) 0))) = rxPacket data :=
        packetOf_packetArgs hdata
      dsimp only at h
      rw [hpacket] at h
      by_cases hmore : (pktCallback s (rxPacket data)).1 = true
      · rw [if_pos hmore] at h ⊢
        obtain ⟨⟨calls', outcome⟩, hrest, heq⟩ := map_eq_some_iff.mp h
        obtain ⟨rfl, rfl⟩ := Prod.mk.inj heq
        rw [foldl_cons, hpacket]
        exact receiveLoop_of_receiveTurns (by rw [hdata, drop_drop]) hrest
      · rw [if_neg hmore] at h ⊢
        cases h
        rw [foldl_cons, foldl_nil, hpacket]
    · have hnone : ((readW16 data (offsVendorId (rxIs16Bit data))).bind fun vendorId =>
          (readW16 data (offsCommandId (rxIs16Bit data))).bind fun commandId =>
            some (Turn.call (callArgs pos data vendorId commandId))) = none := by
        obtain hout | hout := not_and_or.mp hids
        · rw [readW16_none (Nat.not_lt.mp hout)]
          rfl
        · rw [readW16_none (Nat.not_lt.mp hout)]
          cases readW16 data (offsVendorId (rxIs16Bit data)) <;> rfl
      rw [hnone] at h
      cases h

/-- A packet with one byte of payload, and one with none. -/
theorem receiveLoop_of_receiveTurns_packets :
    receiveLoop (fun ids p => (true, ids ++ [(p.commandId, p.payload)])) 3 [] 0
        [0xFF, 4, 0, 1, 0, 0x1D, 0, 1, 7, 0xFF, 4, 0, 0, 0, 0x1D, 0, 2] =
      some ⟨[(1, [7]), (2, [])], 17, none⟩ :=
  @receiveLoop_of_receiveTurns _ (fun ids p => (true, ids ++ [(p.commandId, p.payload)]))
    [0xFF, 4, 0, 1, 0, 0x1D, 0, 1, 7, 0xFF, 4, 0, 0, 0, 0x1D, 0, 2] 3 [] 0 _
    [⟨9, 0x1D, 1, 1, some 8⟩, ⟨8, 0x1D, 2, 0, none⟩] 17 none rfl rfl

end Packets

/-! ## All turns -/

/-- A buffer whose length has 16 bits. -/
structure RxBuffer where
  bytes : List Byte
  length_lt : bytes.length < 2 ^ 16

/-- The payload lies inside of a buffer of this length. -/
def PacketArgs.Inside (args : PacketArgs) (n : ℕ) : Prop :=
  match args.payload with
  | none => args.sizePayload = 0
  | some place => place + args.sizePayload.toNat ≤ n

section Runs

variable {σ : Type} {pktCallback : σ → PacketArgs → Bool × σ} {s : σ} {pos n : ℕ}
  {data p : List Byte} {ps : List (List Byte)}

variable (pktCallback) in
/-- The reception from here on ends, and reads and hands over only bytes of the buffer. -/
def InsideFrom (n : ℕ) (s : σ) (pos : ℕ) (data : List Byte) : Prop :=
  ∃ turns calls consumed error,
    receiveTurns pktCallback turns s pos data = some (calls, .ended consumed error) ∧
      (∀ args ∈ calls, args.Inside n ∧ offsPayload false ≤ args.pktSize.toNat) ∧
      (calls.map fun args => args.pktSize.toNat).sum ≤ data.length

/-- **What the reception of a buffer should do.** -/
def ReceivedInside (pktCallback : σ → PacketArgs → Bool × σ) (s : σ) (buf : RxBuffer) : Prop :=
  InsideFrom pktCallback buf.bytes.length s 0 buf.bytes

variable (pktCallback) in
/-- The callback is called with these packets, one after the other, and asks for more. -/
def AsksForMore : σ → ℕ → List (List Byte) → Prop
  | _, _, [] => True
  | s, pos, p :: ps => (pktCallback s (packetArgs pos p)).1 = true ∧
      AsksForMore (pktCallback s (packetArgs pos p)).2 (pos + p.length) ps

variable (pktCallback) in
/-- No packet with a length that does not fit follows packets after which more is asked for. -/
def NoneWrapped (s : σ) (pos : ℕ) (data : List Byte) : Prop :=
  ∀ ps rest, data = ps.flatten ++ rest → (∀ p ∈ ps, WellFormed p) →
    AsksForMore pktCallback s pos ps → ¬ Wrapped rest

/-- A packet at the start of the bytes is the one that is handed over. -/
theorem WellFormed.handed (h : WellFormed p) (hp : p <+: data) :
    Handed data ∧ data.take (rxPktLength data).toNat = p := by
  obtain ⟨rest, rfl⟩ := hp
  have hget := h.getD_append rest
  have hlen : (rxPktLength (p ++ rest)).toNat = p.length := by
    rw [(rx_congr hget).2.2, h.rxPktLength_toNat]
  have hle : p.length ≤ (p ++ rest).length := by
    rw [length_append]
    exact Nat.le_add_right _ _
  have htake : (p ++ rest).take (rxPktLength (p ++ rest)).toNat = p := by
    rw [hlen, take_left]
  refine ⟨⟨(hget 0 (by decide)).trans h.sof, Nat.le_trans h.offsPayload_le hle, hlen ▸ hle, ?_⟩,
    htake⟩
  rw [htake, hget offsFlags (by decide)]
  exact h.checked

/-- The bytes of the first packet give its arguments. -/
theorem packetArgs_take (h : WellFormed p) (hp : p <+: data) :
    packetArgs pos data = packetArgs pos p ∧ (packetArgs pos data).pktSize.toNat = p.length := by
  obtain ⟨rest, rfl⟩ := hp
  obtain ⟨h16, hsize, hlen⟩ := rx_congr (h.getD_append rest)
  refine ⟨?_, ?_⟩
  · rw [packetArgs, packetArgs, callArgs, callArgs, h.rxPacket_append rest, h16, hsize, hlen]
  · rw [packetArgs, callArgs, hlen, h.rxPktLength_toNat]

theorem WellFormed.inside (h : WellFormed p) (hle : pos + p.length ≤ n) :
    (packetArgs pos p).Inside n := by
  have hlength := h.length
  unfold packetArgs callArgs PacketArgs.Inside
  by_cases h0 : rxPayloadSize p ≠ 0
  · rw [if_pos h0]
    dsimp only
    omega
  · rw [if_neg h0]
    exact Decidable.not_not.mp h0

/-- A packet that does not fit is not handed over inside of the buffer. -/
theorem Wrapped.not_insideFrom (h : Wrapped data) (hn : n < 2 ^ 16) :
    ¬ InsideFrom pktCallback n s pos data := by
  rintro ⟨turns, calls, consumed, error, hrun, hinside, -⟩
  cases turns with
  | zero => exact absurd hrun.symm (some_ne_none _)
  | succ turns =>
    rw [receiveTurns] at hrun
    obtain hnone | ⟨args, hcall, hsize, hpkt, hpayload⟩ := @Wrapped.turn data pos h
    · rw [hnone] at hrun
      cases (Prod.ext_iff.mp (some.inj hrun)).2
    · -- the packet or its payload is out of bounds, whatever comes after it
      have hargs : ¬ (args.Inside n ∧ offsPayload false ≤ args.pktSize.toNat) := by
        have hlong := h.long
        have hlength := rxPktLength_toNat data
        have hlt := BitVec.isLt (rxPayloadSize data)
        have hcheck : (if data.getD offsFlags 0 &&& flagCheck ≠ 0 then 1 else 0) ≤ 1 := by
          split_ifs <;> decide
        have hoffs : offsPayload (rxIs16Bit data) ≤ 9 := by cases rxIs16Bit data <;> decide
        rw [PacketArgs.Inside, hpayload, hpkt, hsize, hlength]
        have h9 : offsPayload true = 9 := rfl
        have h8 : offsPayload false = 8 := rfl
        dsimp only
        rw [h9, h8]
        omega
      have hmem : args ∈ calls := by
        rw [hcall] at hrun
        dsimp only at hrun
        split at hrun
        · obtain ⟨r, -, hr⟩ := map_eq_some_iff.mp hrun
          rw [← (Prod.mk.inj hr).1]
          exact mem_cons_self
        · rw [← (Prod.mk.inj (some.inj hrun)).1]
          exact mem_cons_self
      exact hargs (hinside args hmem)

/-- A turn that hands over a packet and is asked for more. -/
theorem insideFrom_more (h : WellFormed p) (hle : pos + p.length ≤ n)
    (hturn : readTurn pos (p ++ data) = some (.call (packetArgs pos p)))
    (hmore : (pktCallback s (packetArgs pos p)).1 = true) :
    InsideFrom pktCallback n s pos (p ++ data) ↔
      InsideFrom pktCallback n (pktCallback s (packetArgs pos p)).2 (pos + p.length) data := by
  have hsize : (packetArgs pos p).pktSize.toNat = p.length :=
    (packetArgs_take h (prefix_refl p)).2
  have hstep : ∀ turns, receiveTurns pktCallback (turns + 1) s pos (p ++ data) =
      (receiveTurns pktCallback turns (pktCallback s (packetArgs pos p)).2 (pos + p.length)
        data).map fun r => (packetArgs pos p :: r.1, r.2) := fun turns => by
    rw [receiveTurns, hturn]
    dsimp only
    rw [if_pos hmore, hsize, drop_left]
  constructor
  · rintro ⟨turns, calls, consumed, error, hrun, hinside, hsum⟩
    cases turns with
    | zero => exact absurd hrun.symm (some_ne_none _)
    | succ turns =>
      rw [hstep] at hrun
      obtain ⟨⟨calls', outcome⟩, hrest, heq⟩ := map_eq_some_iff.mp hrun
      obtain ⟨rfl, rfl⟩ := Prod.mk.inj heq
      rw [map_cons, sum_cons, hsize, length_append] at hsum
      exact ⟨turns, calls', consumed, error, hrest,
        fun args hargs => hinside args (mem_cons_of_mem _ hargs), Nat.le_of_add_le_add_left hsum⟩
  · rintro ⟨turns, calls, consumed, error, hrun, hinside, hsum⟩
    refine ⟨turns + 1, packetArgs pos p :: calls, consumed, error, by rw [hstep, hrun]; rfl, ?_, ?_⟩
    · exact forall_mem_cons.mpr ⟨⟨h.inside hle, by rw [hsize]; exact h.offsPayload_le⟩, hinside⟩
    · rw [map_cons, sum_cons, hsize, length_append]
      omega

theorem insideFrom_iff (hn : n < 2 ^ 16) : ∀ (len : ℕ) (s : σ) (pos : ℕ) (data : List Byte),
    data.length = len → pos + data.length = n →
      (InsideFrom pktCallback n s pos data ↔ NoneWrapped pktCallback s pos data) := by
  intro len
  induction len using Nat.strongRecOn with
  | ind len ih =>
    intro s pos data hlen hpos
    by_cases hhanded : Handed data
    · by_cases hwrapped : Wrapped data
      · refine iff_of_false (hwrapped.not_insideFrom hn) fun h => ?_
        exact h [] data rfl (fun p hp => absurd hp not_mem_nil) trivial hwrapped
      · obtain ⟨hp, hturn⟩ := @Handed.wellFormed _ pos hhanded hwrapped
        obtain ⟨p, hpdef⟩ : ∃ p, data.take (rxPktLength data).toNat = p := ⟨_, rfl⟩
        obtain ⟨rest, hrest⟩ : ∃ rest, data.drop (rxPktLength data).toNat = rest := ⟨_, rfl⟩
        have hdata : data = p ++ rest := by rw [← hpdef, ← hrest, take_append_drop]
        rw [hpdef] at hp
        have hargs : packetArgs pos data = packetArgs pos p :=
          (packetArgs_take hp ⟨rest, hdata.symm⟩).1
        rw [hargs, hdata] at hturn
        have h8 : 0 < p.length := Nat.lt_of_lt_of_le (by decide) hp.offsPayload_le
        have hlength := congrArg List.length hdata
        rw [length_append] at hlength
        -- the packets of the condition begin with this one
        have hfirst : ∀ ps rest', data = ps.flatten ++ rest' → (∀ p ∈ ps, WellFormed p) → ps ≠ [] →
            ∃ ps', ps = p :: ps' ∧ rest = ps'.flatten ++ rest' := by
          intro ps rest' hps hall hne
          obtain ⟨p', ps', rfl⟩ := exists_cons_of_ne_nil hne
          rw [flatten_cons, append_assoc] at hps
          have hp' := hall p' mem_cons_self
          obtain rfl : p = p' :=
            hpdef.symm.trans (hp'.handed ⟨ps'.flatten ++ rest', hps.symm⟩).2
          exact ⟨ps', rfl, append_cancel_left (hdata.symm.trans hps)⟩
        by_cases hmore : (pktCallback s (packetArgs pos p)).1 = true
        · have hnone : NoneWrapped pktCallback s pos data ↔
              NoneWrapped pktCallback (pktCallback s (packetArgs pos p)).2 (pos + p.length) rest := by
            constructor
            · intro h ps rest' hps hall hasks
              refine h (p :: ps) rest' ?_ (forall_mem_cons.mpr ⟨hp, hall⟩) ⟨hmore, hasks⟩
              rw [hdata, hps, flatten_cons, append_assoc]
            · intro h ps rest' hps hall hasks
              by_cases hne : ps = []
              · obtain rfl := hne
                rw [flatten_nil, nil_append] at hps
                exact hps ▸ hwrapped
              · obtain ⟨ps', rfl, hrest'⟩ := hfirst ps rest' hps hall hne
                exact h ps' rest' hrest' (fun q hq => hall q (mem_cons_of_mem _ hq)) hasks.2
          rw [hnone, hdata, insideFrom_more hp (by omega) hturn hmore]
          exact ih rest.length (by omega) _ _ rest rfl (by omega)
        · refine iff_of_true ⟨1, [packetArgs pos p], pos, none, ?_, ?_, ?_⟩ ?_
          · rw [hdata, receiveTurns, hturn]
            exact if_neg hmore
          · rw [forall_mem_singleton, (packetArgs_take hp (prefix_refl p)).2]
            exact ⟨hp.inside (by omega), hp.offsPayload_le⟩
          · rw [map_singleton, sum_singleton, (packetArgs_take hp (prefix_refl p)).2]
            omega
          · intro ps rest' hps hall hasks
            by_cases hne : ps = []
            · obtain rfl := hne
              rw [flatten_nil, nil_append] at hps
              exact hps ▸ hwrapped
            · obtain ⟨ps', rfl, -⟩ := hfirst ps rest' hps hall hne
              exact absurd hasks.1 hmore
    · obtain ⟨error, hturn⟩ := @not_handed_turn _ pos hhanded
      refine iff_of_true ⟨1, [], pos, error, ?_, fun _ h => absurd h not_mem_nil,
        Nat.zero_le _⟩ ?_
      · rw [receiveTurns, hturn]
      · intro ps rest hps hall _ hwrapped
        cases ps with
        | nil =>
          rw [flatten_nil, nil_append] at hps
          exact hhanded (hps ▸ hwrapped.toHanded)
        | cons p ps =>
          refine hhanded ((hall p mem_cons_self).handed ⟨ps.flatten ++ rest, ?_⟩).1
          rw [hps, flatten_cons, append_assoc]

/-- **The reception of any bytes stays inside of them**, whatever the callback answers, exactly
when no packet is handed over whose length does not fit its 16 bits. -/
theorem received_inside_iff (pktCallback : σ → PacketArgs → Bool × σ) (s : σ) (buf : RxBuffer) :
    ReceivedInside pktCallback s buf ↔ NoneWrapped pktCallback s 0 buf.bytes :=
  insideFrom_iff buf.length_lt _ s 0 buf.bytes rfl (Nat.zero_add _)

/-- A header for 65527 bytes of payload, of which none is there: the length of the packet is 0. -/
def wrappedBuffer : RxBuffer := ⟨[0xFF, 4, 0x02, 0xFF, 0xF7, 0x00, 0x1D, 0x00, 0x01], by decide⟩

/-- The callback is called for the same packet without end, and its payload is not there. -/
theorem not_received_inside : ¬ ∀ (pktCallback : Unit → PacketArgs → Bool × Unit)
    (buf : RxBuffer), ReceivedInside pktCallback () buf := by
  intro h
  refine Wrapped.not_insideFrom ⟨⟨?_, ?_, ?_, ?_⟩, ?_⟩ wrappedBuffer.length_lt
    (h (fun _ _ => (true, ())) wrappedBuffer)
  all_goals decide +kernel

end Runs

end Mh40.Gaia
