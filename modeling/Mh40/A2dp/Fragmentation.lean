import Mathlib.Tactic.Ring
import Mh40.A2dp.PacketHandler

/-!
# Fragmentation and reassembly

What `sendPacket` flushes, and what a peer makes of it.

* `Fragments`: the continue packets and the end packet of a payload; `sendFragments_eq` shows that
  the loop flushes them, `count_fragments` that the closed formula of the start packet counts them.
* `receive_fragments`: the peer puts them together while `received_packet_length` can hold the
  length.
* `send_packet_right_iff`: a message is sent and received as it should be exactly when it is a
  single packet, or 8 bits hold the number of its packets and 12 bits its length.
-/

namespace Mh40.A2dp

open List

/-! ## The header byte -/

/-- The four packet types. -/
def packetTypes : List Byte :=
  [avdtpPacketTypeSingle, avdtpPacketTypeStart, avdtpPacketTypeContinue, avdtpPacketTypeEnd]

/-- The packet type takes its two bits, and the label and the message type keep theirs. -/
theorem packetHeader_spec : ∀ t ∈ packetTypes, ∀ h : Byte,
    packetHeader h t >>> 2 &&& 3 = t ∧ packetHeader h t >>> 4 = h >>> 4 ∧
      packetHeader h t &&& 0xF0 = h &&& 0xF0 ∧ packetHeader h t &&& 3 = h &&& 3 := by
  decide +kernel

section Header

variable (h : Byte) (bytes : List Byte) {t : Byte}

theorem packetType_packetHeader (ht : t ∈ packetTypes) :
    packetType (packetHeader h t :: bytes) = t := (packetHeader_spec t ht h).1

theorem labelBits_packetHeader (ht : t ∈ packetTypes) :
    labelBits (packetHeader h t :: bytes) = h &&& 0xF0 := (packetHeader_spec t ht h).2.2.1

end Header

/-! ## What is sent -/

/-- The continue packets of the chunks and the end packet with what is left. -/
def fragmentPackets (h : Byte) (chunks : List (List Byte)) (last : List Byte) : List (List Byte) :=
  chunks.map (packetHeader h avdtpPacketTypeContinue :: ·) ++
    [packetHeader h avdtpPacketTypeEnd :: last]

/-- The chunks cut the rest of a payload: they fill their packets, and the last one is not empty. -/
structure Cuts (mtu : ℕ) (rest : List Byte) (chunks : List (List Byte)) (last : List Byte) :
    Prop where
  flatten : chunks.flatten ++ last = rest
  full : ∀ c ∈ chunks, c.length = mtu - 1
  last_pos : 0 < last.length
  last_le : last.length ≤ mtu - 1

variable {mtu fuel n : ℕ} {h signalId : Byte} {rest payload last : List Byte}
  {chunks : List (List Byte)} {sink sink' : Sink}

theorem sinkInsert_ok {amount : ℕ} {header : List Byte}
    (hs : sinkInsertHeaderAndFlushData sink amount header = (true, sink')) :
    sink'.claimed = sink.claimed.drop amount ∧
      sink'.packets = sink.packets ++ [header ++ sink.claimed.take amount] := by
  unfold sinkInsertHeaderAndFlushData at hs
  split_ifs at hs with hroom
  · obtain rfl := (Prod.mk.inj hs).2
    dsimp only
    rw [Nat.add_comm, drop_append, take_append, take_of_length_le (by omega),
      drop_of_length_le (by omega), Nat.add_sub_cancel_left]
    exact ⟨rfl, rfl⟩
  · cases (Prod.mk.inj hs).1

/-- The loop flushes the fragments of what is claimed. -/
theorem sendFragments_eq (hmtu : 4 ≤ mtu) (hfuel : sink.claimed.length < fuel)
    (hpos : 0 < sink.claimed.length)
    (hs : sendFragments mtu h fuel sink.claimed.length sink = (true, sink')) :
    ∃ chunks last, Cuts mtu sink.claimed chunks last ∧
      sink'.packets = sink.packets ++ fragmentPackets h chunks last := by
  induction fuel generalizing sink with
  | zero => omega
  | succ fuel ih =>
    rw [sendFragments] at hs
    split_ifs at hs with hlong
    · cases hi : sinkInsertHeaderAndFlushData sink (mtu - 1)
        [packetHeader h avdtpPacketTypeContinue] with
      | mk ok mid =>
        rw [hi] at hs
        cases ok with
        | false => cases (Prod.mk.inj hs).1
        | true =>
          obtain ⟨hclaimed, hpackets⟩ := sinkInsert_ok hi
          have hlen : mid.claimed.length = sink.claimed.length - (mtu - 1) := by
            rw [hclaimed, length_drop]
          rw [← hlen] at hs
          obtain ⟨chunks, last, hcuts, hsent⟩ := ih (by omega) (by omega) hs
          refine ⟨sink.claimed.take (mtu - 1) :: chunks, last, ⟨?_, ?_, hcuts.last_pos,
            hcuts.last_le⟩, ?_⟩
          · rw [flatten_cons, append_assoc, hcuts.flatten, hclaimed,
              take_append_drop]
          · intro c hc
            rcases mem_cons.mp hc with rfl | hc
            · rw [length_take]
              omega
            · exact hcuts.full c hc
          · rw [hsent, hpackets, fragmentPackets, fragmentPackets, append_assoc]
            rfl
    · obtain ⟨-, hpackets⟩ := sinkInsert_ok hs
      rw [take_of_length_le (le_refl _)] at hpackets
      exact ⟨[], sink.claimed, ⟨rfl, by simp, hpos, by omega⟩, hpackets⟩

/-- The closed formula counts the start packet and the fragments. -/
theorem count_fragments (hmtu : 4 ≤ mtu) (_ : mtu - 1 ≤ payload.length)
    (hcuts : Cuts mtu (payload.drop (mtu - 3)) chunks last) :
    (payload.length + mtu) / (mtu - 1) = (fragmentPackets h chunks last).length + 1 := by
  have hsum : chunks.length * (mtu - 1) + last.length = payload.length - (mtu - 3) := by
    have hlen := congrArg List.length hcuts.flatten
    have hmap : chunks.map List.length = List.replicate chunks.length (mtu - 1) :=
      eq_replicate_iff.mpr ⟨by simp, by simpa using hcuts.full⟩
    rw [length_append, length_flatten, hmap, sum_replicate_nat, length_drop] at hlen
    exact hlen
  have hlast := hcuts.last_pos
  have hle := hcuts.last_le
  simp only [fragmentPackets, length_append, length_map, length_singleton]
  have hsplit : payload.length + mtu =
      last.length - 1 + (chunks.length + 1 + 1) * (mtu - 1) := by
    rw [Nat.add_mul, Nat.add_mul]
    omega
  rw [hsplit, Nat.add_mul_div_right _ _ (by omega), Nat.div_eq_of_lt (by omega), Nat.zero_add]

/-- What `sendPacket` flushes: one packet, or the start packet and the fragments. -/
theorem sendPacket_eq (hmtu : 4 ≤ mtu) (hsink : sink.claimed = payload)
    (hs : sendPacket mtu sink h signalId payload.length = (true, sink')) :
    (payload.length + 2 ≤ mtu ∧ sink'.packets =
      sink.packets ++ [packetHeader h avdtpPacketTypeSingle :: signalId :: payload]) ∨
    (mtu < payload.length + 2 ∧ ∃ chunks last, Cuts mtu (payload.drop (mtu - 3)) chunks last ∧
      sink'.packets = sink.packets ++ (packetHeader h avdtpPacketTypeStart ::
        BitVec.ofNat 8 ((payload.length + mtu) / (mtu - 1)) :: signalId ::
          payload.take (mtu - 3)) :: fragmentPackets h chunks last) := by
  subst hsink
  rw [sendPacket] at hs
  split_ifs at hs with hfits
  · obtain ⟨-, hpackets⟩ := sinkInsert_ok hs
    rw [take_of_length_le (le_refl _)] at hpackets
    exact .inl ⟨by omega, hpackets⟩
  · cases hi : sinkInsertHeaderAndFlushData sink (mtu - 3)
      [packetHeader h avdtpPacketTypeStart,
        BitVec.ofNat 8 ((sink.claimed.length + mtu) / (mtu - 1)), signalId] with
    | mk ok mid =>
      dsimp only at hs
      rw [hi] at hs
      cases ok with
      | false => cases (Prod.mk.inj hs).1
      | true =>
        obtain ⟨hclaimed, hpackets⟩ := sinkInsert_ok hi
        have hlen : mid.claimed.length = sink.claimed.length - (mtu - 3) := by
          rw [hclaimed, length_drop]
        dsimp only at hs
        rw [← hlen] at hs
        obtain ⟨chunks, last, hcuts, hsent⟩ := sendFragments_eq hmtu (by omega) (by omega) hs
        rw [hclaimed] at hcuts
        refine .inr ⟨by omega, chunks, last, hcuts, ?_⟩
        rw [hsent, hpackets, append_assoc]
        rfl

/-! ## What is received -/

section Receive

variable {s : SignalConn} {turns : ℕ → Turn} {t : Turn} {b : HeapBuffer}

theorem handed_processSignalPacket (t : Turn) (m : Message) (s : SignalConn) :
    (processSignalPacket t m s).2.handed = s.handed ++ [m] := by
  obtain ⟨_, _, hs⟩ := processSignalPacket_spec t m s
  rw [hs]

theorem bits12_lt (n : ℕ) : bits12 n < 2 ^ 12 := Nat.mod_lt _ (by decide)

/-- No message is handed over with a length that 12 bits cannot hold. -/
theorem handed_signalPacket (t : Turn) (ptr : List Byte) (s : SignalConn) :
    ∃ ms, (signalPacket t ptr s).2.handed = s.handed ++ ms ∧ ∀ m ∈ ms, m.length < 2 ^ 12 := by
  have hfree : (freeReceivedPacket s).handed = s.handed := by rw [freeReceivedPacket_eq]
  have hnone : ∃ ms, s.handed = s.handed ++ ms ∧ ∀ m ∈ ms, m.length < 2 ^ 12 :=
    ⟨[], (append_nil _).symm, by simp⟩
  unfold signalPacket
  split_ifs with hsingle hstart
  · -- the packet is the message
    refine ⟨[⟨ptr, bits12 ptr.length⟩], ?_, by simpa using bits12_lt _⟩
    have hp := handed_processSignalPacket t ⟨ptr, bits12 ptr.length⟩
      { freeReceivedPacket s with receivedPacketLength := bits12 ptr.length }
    rw [← hfree]
    unfold singlePacket
    dsimp only
    rcases h : processSignalPacket t ⟨ptr, bits12 ptr.length⟩
      { freeReceivedPacket s with receivedPacketLength := bits12 ptr.length } with ⟨ok, s'⟩
    rw [h] at hp
    cases ok <;> exact hp
  · unfold startPacket sourceDrop
    dsimp only
    split_ifs <;> exact hfree.symm ▸ hnone
  · unfold continuePacket sourceDrop
    dsimp only
    split
    · exact hnone
    · split_ifs
      · exact hnone
      · next b _ _ _ _ =>
        refine ⟨[⟨b.bytes.take s.receivedPacketLength ++ ptr.drop 1,
          bits12 (s.receivedPacketLength + (ptr.length - 1))⟩], ?_, by simpa using bits12_lt _⟩
        rw [freeReceivedPacket_eq]
        exact handed_processSignalPacket ..
      · exact hnone
      · exact hfree.symm ▸ hnone

theorem handed_signalPackets (turns : ℕ → Turn) (n : ℕ) (s : SignalConn) :
    ∃ ms, (signalPackets turns n s).handed = s.handed ++ ms ∧ ∀ m ∈ ms, m.length < 2 ^ 12 := by
  induction n generalizing s with
  | zero => exact ⟨[], (append_nil _).symm, by simp⟩
  | succ n ih =>
    rw [signalPackets]
    split
    · exact ⟨[], (append_nil _).symm, by simp⟩
    · next ptr _ _ =>
      obtain ⟨ms, hms, hlt⟩ := handed_signalPacket (turns n) ptr s
      rcases hp : signalPacket (turns n) ptr s with ⟨again, s'⟩
      rw [hp] at hms
      cases again with
      | false => exact ⟨ms, hms, hlt⟩
      | true =>
        obtain ⟨ms', hms', hlt'⟩ := ih s'
        refine ⟨ms ++ ms', by rw [hms', hms, append_assoc], fun m hm => ?_⟩
        exact (mem_append.mp hm).elim (hlt m) (hlt' m)

/-- A message in reassembly: its length is known, and its label is that of the header. -/
structure Assembling (h : Byte) (s : SignalConn) (b : HeapBuffer) : Prop where
  packet : s.receivedPacket = some b
  length : s.receivedPacketLength = b.bytes.length
  label : labelBits b.bytes = h &&& 0xF0
  nonempty : b.bytes ≠ []

/-- The tests on a fragment of the message in reassembly. -/
theorem continuePacket_assembling {p : Byte} (halloc : t.alloc = true) (hb : Assembling h s b)
    (hp : p ∈ packetTypes) {data : List Byte} (hlen : b.bytes.length + data.length < 2 ^ 12) :
    ∃ id heap, continuePacket t (packetHeader h p :: data) s =
      let s := { s with
        heap
        receivedPacket := some ⟨id, b.bytes ++ data⟩
        receivedPacketLength := b.bytes.length + data.length }
      if p = avdtpPacketTypeEnd then
        freeReceivedPacket (processSignalPacket t
          ⟨b.bytes ++ data, b.bytes.length + data.length⟩ s).2
      else s := by
  have hbits : bits12 (b.bytes.length + data.length) = b.bytes.length + data.length :=
    Nat.mod_eq_of_lt hlen
  refine ⟨(s.heap.free b.id).malloc.1, (s.heap.free b.id).malloc.2, ?_⟩
  unfold continuePacket
  rw [hb.packet]
  simp only [labelBits_packetHeader h data hp, packetType_packetHeader h data hp, hb.label,
    ne_eq, not_true_eq_false, if_false, halloc, if_true, hb.length, length_cons,
    Nat.add_sub_cancel, hbits, take_length, drop_one, tail_cons]

/-- A continue packet makes the message longer. -/
theorem receive_continue (halloc : t.alloc = true) (hb : Assembling h s b) (data : List Byte)
    (hlen : b.bytes.length + data.length < 2 ^ 12) :
    ∃ s', signalPacket t (packetHeader h avdtpPacketTypeContinue :: data) s = (true, s') ∧
      s'.source = s.source.tail ∧ s'.handed = s.handed ∧
      ∃ b', Assembling h s' b' ∧ b'.bytes = b.bytes ++ data := by
  have hmem : avdtpPacketTypeContinue ∈ packetTypes := by decide
  obtain ⟨id, heap, hs⟩ := continuePacket_assembling halloc hb hmem hlen
  rw [if_neg (by decide)] at hs
  refine ⟨sourceDrop (continuePacket t (packetHeader h avdtpPacketTypeContinue :: data) s), ?_,
    ?_, ?_, ⟨id, b.bytes ++ data⟩, ⟨?_, ?_, ?_, ?_⟩, rfl⟩
  · rw [signalPacket, packetType_packetHeader h data hmem, if_neg (by decide),
      if_neg (by decide)]
  · rw [hs]
    rfl
  · rw [hs]
    rfl
  · rw [hs]
    rfl
  · rw [hs]
    exact (length_append ..).symm
  · have := hb.label
    obtain ⟨x, xs, hx⟩ := exists_cons_of_ne_nil hb.nonempty
    rw [hx] at this ⊢
    exact this
  · exact fun h => hb.nonempty (append_eq_nil_iff.mp h).1

/-- The end packet completes it. -/
theorem receive_end (halloc : t.alloc = true) (hb : Assembling h s b) {data : List Byte}
    (hlen : b.bytes.length + data.length < 2 ^ 12) :
    ∃ s', signalPacket t (packetHeader h avdtpPacketTypeEnd :: data) s = (true, s') ∧
      s'.source = s.source.tail ∧
      s'.handed = s.handed ++ [⟨b.bytes ++ data, b.bytes.length + data.length⟩] := by
  have hmem : avdtpPacketTypeEnd ∈ packetTypes := by decide
  obtain ⟨id, heap, hs⟩ := continuePacket_assembling halloc hb hmem hlen
  rw [if_pos rfl] at hs
  obtain ⟨label, pending, hp⟩ := processSignalPacket_spec t
    ⟨b.bytes ++ data, b.bytes.length + data.length⟩
    { s with
      heap
      receivedPacket := some ⟨id, b.bytes ++ data⟩
      receivedPacketLength := b.bytes.length + data.length }
  refine ⟨sourceDrop (continuePacket t (packetHeader h avdtpPacketTypeEnd :: data) s), ?_, ?_, ?_⟩
  · rw [signalPacket, packetType_packetHeader h data hmem, if_neg (by decide),
      if_neg (by decide)]
  · rw [hs, hp, sourceDrop, freeReceivedPacket_eq]
  · rw [hs, hp, sourceDrop, freeReceivedPacket_eq]

/-- The peer puts the fragments together. -/
theorem receive_fragments (halloc : ∀ n, (turns n).alloc = true) (hb : Assembling h s b)
    (hsource : s.source = fragmentPackets h chunks last)
    (hlen : b.bytes.length + (chunks.flatten ++ last).length < 2 ^ 12) :
    (signalPackets turns s.source.length s).handed = s.handed ++
      [⟨b.bytes ++ (chunks.flatten ++ last),
        b.bytes.length + (chunks.flatten ++ last).length⟩] := by
  induction chunks generalizing s b with
  | nil =>
    obtain ⟨s', hs, -, hhanded⟩ := receive_end (halloc 0) hb hlen
    rw [hsource]
    exact (congrArg SignalConn.handed (signalPackets_again hsource hs)).trans hhanded
  | cons c chunks ih =>
    have hsource' : s.source = (packetHeader h avdtpPacketTypeContinue :: c) ::
        fragmentPackets h chunks last := hsource
    rw [flatten_cons, append_assoc, length_append] at hlen
    obtain ⟨s', hs, htail, hhanded, b', hb', hbytes⟩ :=
      receive_continue (halloc (fragmentPackets h chunks last).length) hb c (by omega)
    have htail' : s'.source = fragmentPackets h chunks last := by
      rw [htail, hsource']
      rfl
    rw [hsource', length_cons, signalPackets_again hsource' hs, ← htail',
      ih hb' htail' (by rw [hbytes, length_append]; omega), hhanded, hbytes]
    simp only [flatten_cons, append_assoc, length_append, Nat.add_assoc]

/-- A start packet begins a message without its number of fragments. -/
theorem receive_start (halloc : t.alloc = true) (count signalId : Byte) (data : List Byte)
    (hlen : data.length + 2 < 2 ^ 12) :
    ∃ s', signalPacket t (packetHeader h avdtpPacketTypeStart :: count :: signalId :: data) s =
        (true, s') ∧ s'.source = s.source.tail ∧ s'.handed = s.handed ∧
      ∃ b, Assembling h s' b ∧ b.bytes = packetHeader h avdtpPacketTypeStart :: signalId :: data := by
  have hmem : avdtpPacketTypeStart ∈ packetTypes := by decide
  have hbits : bits12 (data.length + 2) = data.length + 2 := Nat.mod_eq_of_lt hlen
  have hfree := freeReceivedPacket_eq s
  refine ⟨sourceDrop (startPacket t
    (packetHeader h avdtpPacketTypeStart :: count :: signalId :: data) s), ?_, ?_, ?_,
    ⟨(freeReceivedPacket s).heap.malloc.1,
      packetHeader h avdtpPacketTypeStart :: signalId :: data⟩, ⟨?_, ?_, ?_, ?_⟩, rfl⟩
  · rw [signalPacket, packetType_packetHeader h _ hmem, if_neg (by decide), if_pos rfl]
  · rw [startPacket, if_pos halloc, hfree]
    rfl
  · rw [startPacket, if_pos halloc, hfree]
    rfl
  · rw [startPacket, if_pos halloc, hfree]
    simp [sourceDrop]
  · rw [startPacket, if_pos halloc]
    simpa [sourceDrop] using hbits
  · exact labelBits_packetHeader h _ hmem
  · exact cons_ne_nil _ _

/-- A single packet is handed over as it is. -/
theorem receive_single (signalId : Byte) (data : List Byte) (hlen : data.length + 2 < 2 ^ 12) :
    (signalPacket t (packetHeader h avdtpPacketTypeSingle :: signalId :: data) s).2.handed =
      s.handed ++ [⟨packetHeader h avdtpPacketTypeSingle :: signalId :: data, data.length + 2⟩] ∧
    ((signalPacket t (packetHeader h avdtpPacketTypeSingle :: signalId :: data) s).1 = true →
      (signalPacket t (packetHeader h avdtpPacketTypeSingle :: signalId :: data) s).2.source =
        s.source.tail) := by
  have hmem : avdtpPacketTypeSingle ∈ packetTypes := by decide
  set ptr := packetHeader h avdtpPacketTypeSingle :: signalId :: data with hptr
  have hbits : bits12 ptr.length = data.length + 2 := Nat.mod_eq_of_lt hlen
  obtain ⟨label, pending, hs⟩ := processSignalPacket_spec t ⟨ptr, data.length + 2⟩
    { freeReceivedPacket s with receivedPacketLength := data.length + 2 }
  rw [signalPacket, packetType_packetHeader h _ hmem, if_pos rfl, singlePacket]
  dsimp only
  rw [hbits]
  rcases hr : processSignalPacket t ⟨ptr, data.length + 2⟩
    { freeReceivedPacket s with receivedPacketLength := data.length + 2 } with ⟨ok, s'⟩
  rw [hr] at hs
  dsimp only at hs
  rw [hs, freeReceivedPacket_eq]
  cases ok with
  | false => exact ⟨rfl, fun h => absurd h Bool.false_ne_true⟩
  | true => exact ⟨rfl, fun _ => rfl⟩

end Receive

/-! ## A message on its way -/

/-- The packets that `sendPacket` added to those of the sink. -/
def emitted (sink sink' : Sink) : List (List Byte) := sink'.packets.drop sink.packets.length

/-- The peer, with the packets in its source, hands over one message: that with the label, the
message type, the signal and the payload that were sent, and their length. -/
def Delivered (h signalId : Byte) (payload : List Byte) (packets : List (List Byte))
    (turns : ℕ → Turn) (peer : SignalConn) : Prop :=
  ∃ header : Byte, header >>> 4 = h >>> 4 ∧ header &&& 3 = h &&& 3 ∧
    (handleSignalPacket turns { peer with source := packets }).handed =
      peer.handed ++ [⟨header :: signalId :: payload, payload.length + 2⟩]

/-- No packet is longer than the MTU, a start packet has the number of packets, and the message is
delivered. -/
structure SentRight (mtu : ℕ) (h signalId : Byte) (payload : List Byte)
    (packets : List (List Byte)) (turns : ℕ → Turn) (peer : SignalConn) : Prop where
  fits : ∀ p ∈ packets, p.length ≤ mtu
  count : ∀ p ∈ packets.head?, packetType p = avdtpPacketTypeStart →
    (p.getD 1 0).toNat = packets.length
  delivered : Delivered h signalId payload packets turns peer

section Sent

variable {peer : SignalConn} {turns : ℕ → Turn}

theorem delivered_single (hversion : peer.profileVersion ≠ avdtpVersionNotRequested)
    (hlen : payload.length + 2 < 2 ^ 12) :
    Delivered h signalId payload [packetHeader h avdtpPacketTypeSingle :: signalId :: payload]
      turns peer := by
  obtain ⟨-, hlabel, -, htype⟩ := packetHeader_spec avdtpPacketTypeSingle (by decide) h
  refine ⟨_, hlabel, htype, ?_⟩
  set s : SignalConn := { peer with
    source := [packetHeader h avdtpPacketTypeSingle :: signalId :: payload] } with hs
  obtain ⟨hhanded, -⟩ := receive_single (h := h) (s := s) (t := turns 0) signalId payload hlen
  rw [handleSignalPacket, if_pos hversion]
  change (signalPackets turns 1 s).handed = _
  rcases hr : signalPacket (turns 0)
    (packetHeader h avdtpPacketTypeSingle :: signalId :: payload) s with ⟨again, s'⟩
  rw [hr] at hhanded
  cases again with
  | true => rw [signalPackets_again rfl hr]; exact hhanded
  | false => rw [signalPackets_stop rfl hr]; exact hhanded

/-- The fragments arrive while 12 bits hold the length. -/
theorem delivered_fragments (hversion : peer.profileVersion ≠ avdtpVersionNotRequested)
    (halloc : ∀ n, (turns n).alloc = true) (count : Byte) {k : ℕ}
    (hcuts : chunks.flatten ++ last = payload.drop k) (hlen : payload.length + 2 < 2 ^ 12) :
    Delivered h signalId payload ((packetHeader h avdtpPacketTypeStart :: count :: signalId ::
      payload.take k) :: fragmentPackets h chunks last) turns peer := by
  obtain ⟨-, hlabel, -, htype⟩ := packetHeader_spec avdtpPacketTypeStart (by decide) h
  refine ⟨_, hlabel, htype, ?_⟩
  set s : SignalConn := { peer with source := (packetHeader h avdtpPacketTypeStart :: count ::
    signalId :: payload.take k) :: fragmentPackets h chunks last } with hs
  have htotal : (payload.take k).length + (payload.drop k).length = payload.length := by
    rw [← length_append, take_append_drop]
  obtain ⟨s', hstart, htail, hhanded, b, hb, hbytes⟩ :=
    receive_start (h := h) (s := s) (halloc (fragmentPackets h chunks last).length) count signalId
      (payload.take k) (by omega)
  have hsource : s'.source = fragmentPackets h chunks last := htail
  have hblen : b.bytes.length + (chunks.flatten ++ last).length = payload.length + 2 := by
    rw [hbytes, hcuts, length_cons, length_cons]
    omega
  have hmessage : b.bytes ++ (chunks.flatten ++ last) =
      packetHeader h avdtpPacketTypeStart :: signalId :: payload := by
    rw [hbytes, hcuts, cons_append, cons_append, take_append_drop]
  rw [handleSignalPacket, if_pos hversion]
  change (signalPackets turns ((fragmentPackets h chunks last).length + 1) s).handed = _
  rw [signalPackets_again rfl hstart, ← hsource,
    receive_fragments halloc hb hsource (by omega), hhanded, hmessage, hblen]

/-- A length that 12 bits cannot hold is never handed over. -/
theorem length_of_delivered {packets : List (List Byte)}
    (hd : Delivered h signalId payload packets turns peer) : payload.length + 2 < 2 ^ 12 := by
  obtain ⟨header, -, -, hhanded⟩ := hd
  unfold handleSignalPacket at hhanded
  split_ifs at hhanded
  · obtain ⟨ms, hms, hlt⟩ := handed_signalPackets turns packets.length
      { peer with source := packets }
    dsimp only at hhanded
    rw [hms] at hhanded
    have := append_cancel_left hhanded
    exact hlt _ (by rw [this]; exact mem_singleton.mpr rfl)
  · exact absurd hhanded.symm (by simp)

end Sent

/-- **Fragmentation.** For every MTU and payload, and whatever state the peer is in: a message that
`sendPacket` sends is sent and delivered as it should be if and only if it fits into a single
packet, or 8 bits hold the number of its packets and 12 bits the length of the message. -/
theorem send_packet_right_iff {mtu : ℕ} (hmin : 4 ≤ mtu) (hmax : mtu ≤ 4095) (h signalId : Byte)
    (payload : List Byte) (sink sink' : Sink) (hsink : sink.claimed = payload)
    (hsent : sendPacket mtu sink h signalId payload.length = (true, sink'))
    (peer : SignalConn) (hversion : peer.profileVersion ≠ avdtpVersionNotRequested)
    (turns : ℕ → Turn) (halloc : ∀ n, (turns n).alloc = true) :
    SentRight mtu h signalId payload (emitted sink sink') turns peer ↔
      payload.length + 2 ≤ mtu ∨
        (payload.length + mtu) / (mtu - 1) < 2 ^ 8 ∧ payload.length + 2 < 2 ^ 12 := by
  obtain ⟨hfits, hpackets⟩ | ⟨hlong, chunks, last, hcuts, hpackets⟩ :=
    sendPacket_eq hmin hsink hsent
  · -- one packet
    rw [emitted, hpackets, List.drop_left]
    refine iff_of_true ⟨?_, ?_, delivered_single hversion (by omega)⟩ (.inl hfits)
    · intro p hp
      obtain rfl := List.mem_singleton.mp hp
      simp only [List.length_cons]
      exact hfits
    · intro p hp htype
      obtain rfl := Option.some.inj hp
      rw [packetType_packetHeader h _ (by decide)] at htype
      exact absurd htype (by decide)
  · rw [emitted, hpackets, List.drop_left, or_iff_right (by omega)]
    have hcount := count_fragments (h := h) hmin (by omega) hcuts
    constructor
    · intro hr
      refine ⟨?_, length_of_delivered hr.delivered⟩
      have := hr.count _ rfl (packetType_packetHeader h _ (by decide))
      rw [List.length_cons, ← hcount] at this
      rw [← this]
      exact BitVec.isLt _
    · rintro ⟨hsmall, hlen⟩
      refine ⟨?_, ?_, delivered_fragments hversion halloc _ hcuts.flatten hlen⟩
      · intro p hp
        rcases List.mem_cons.mp hp with rfl | hp
        · simp only [List.length_cons, List.length_take]
          omega
        · rcases List.mem_append.mp hp with hp | hp
          · obtain ⟨c, hc, rfl⟩ := List.mem_map.mp hp
            have := hcuts.full c hc
            simp only [List.length_cons]
            omega
          · obtain rfl := List.mem_singleton.mp hp
            have := hcuts.last_le
            simp only [List.length_cons]
            omega
      · intro p hp _
        obtain rfl := Option.some.inj hp
        rw [List.length_cons, ← hcount]
        exact (BitVec.toNat_ofNat ..).trans (Nat.mod_eq_of_lt hsmall)

/-- A get capabilities response of 20 bytes, in four packets. -/
def samplePayload : List Byte := [1, 0, 7, 6, 0, 0, 255, 255, 2, 53, 4, 2, 2, 0, 8, 0, 9, 2, 1, 7]

def sampleSink : Sink := ⟨samplePayload, 50, []⟩

/-- A peer with a message in reassembly, which is given up. -/
def samplePeer : SignalConn where
  profileVersion := avdtpVersion13
  source := []
  receivedPacket := some ⟨3, [0x10, 1]⟩
  receivedPacketLength := 2
  receivedTransactionLabel := 0
  pendingReceivedTransaction := false
  heap := ⟨4, [3], false⟩
  overrun := false
  handed := []
  processed := []

def sampleTurn : Turn := ⟨true, true, false, true, 0⟩

theorem send_packet_right_iff_sampleSink :
    SentRight 8 0x52 2 samplePayload (emitted sampleSink (sendPacket 8 sampleSink 0x52 2 20).2)
      (fun _ => sampleTurn) samplePeer ↔
      samplePayload.length + 2 ≤ 8 ∨
        (samplePayload.length + 8) / (8 - 1) < 2 ^ 8 ∧ samplePayload.length + 2 < 2 ^ 12 :=
  send_packet_right_iff (by decide) (by decide) 0x52 2 samplePayload sampleSink _ rfl
    (Prod.ext (by decide +kernel) rfl) samplePeer (by decide) _ fun _ => rfl

/-- 88 packets of 48 bytes bring 4096 bytes, for which the peer has a length of 0. -/
theorem not_sentRight_longMessage :
    let sink : Sink := ⟨List.replicate 4094 0, 200, []⟩
    (sendPacket 48 sink 0x52 2 4094).1 = true ∧
      ¬ SentRight 48 0x52 2 sink.claimed (emitted sink (sendPacket 48 sink 0x52 2 4094).2)
        (fun _ => sampleTurn) samplePeer := by
  refine ⟨by decide +kernel, fun h => ?_⟩
  have hlen := length_of_delivered h.delivered
  rw [List.length_replicate] at hlen
  exact absurd hlen (by decide)

end Mh40.A2dp
