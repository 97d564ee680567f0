import Mathlib.Algebra.Order.Ring.Nat
import Mathlib.Data.List.Basic

/-!
# The packets of the A2DP signalling channel

`a2dp_packet_handler.c`: messages leave through a sink, cut into packets no longer than the MTU,
and arrive in a source, where fragments are put together before a message is processed.

* `sendPacket`: one message into the sink, with `sinkInsertHeaderAndFlushData` for each packet.
* `processSignalPacket`: a complete message, with the transaction that a command opens.
* `signalPacket`, `handleSignalPacket`: the body and the loop of `a2dpHandleSignalPacket`.

The channel is connected, so its sink and its source are valid, and what is sent in answer to a
message is left out but for the transaction that it closes. `Turn` has what one turn of the loop
meets outside of this file. The fields of `SignalConn` from `heap` on are a record of the run.
-/

namespace Mh40.A2dp

abbrev Byte := BitVec 8

/-- `avdtp_packet_type_single` and the others. -/
def avdtpPacketTypeSingle : Byte := 0

def avdtpPacketTypeStart : Byte := 1

def avdtpPacketTypeContinue : Byte := 2

def avdtpPacketTypeEnd : Byte := 3

/-- `avdtp_message_type_command` and the others. -/
def avdtpMessageTypeCommand : Byte := 0

def avdtpMessageTypeGeneralReject : Byte := 1

/-- The members of `avdtp_signal_id` that the handler tells apart. -/
def avdtpNull : Byte := 0x00

def avdtpDiscover : Byte := 0x01

def avdtpStart : Byte := 0x07

def avdtpClose : Byte := 0x08

def avdtpSecurityControl : Byte := 0x0B

def avdtpMaxSignalId : Byte := 0x0D

/-- `avdtp_version`, in order. -/
def avdtpVersionNotRequested : ℕ := 0

def avdtpVersion13 : ℕ := 5

/-- `avdtp_min_pdu_length`. -/
def avdtpMinPduLength : List ℕ := [2, 2, 3, 5, 3, 5, 3, 3, 3, 3, 3, 3, 3, 5]

/-! ## Sending -/

/-- A sink: what is claimed and written, the space left to claim, and the packets that were
flushed. -/
structure Sink where
  claimed : List Byte
  room : ℕ
  packets : List (List Byte)
deriving Repr

/-- `sinkInsertHeaderAndFlushData`: `SinkClaim` of the header, the data moved behind it, and
`SinkFlush`. -/
def sinkInsertHeaderAndFlushData (sink : Sink) (amountToFlush : ℕ) (header : List Byte) :
    Bool × Sink :=
  if header.length ≤ sink.room then
    let data := header ++ sink.claimed
    (true, {
      claimed := data.drop (amountToFlush + header.length)
      room := sink.room - header.length
      packets := sink.packets ++ [data.take (amountToFlush + header.length)] })
  else (false, sink)

/-- The first byte of a packet: the packet type between the label and the message type. -/
def packetHeader (signallingHeader packetType : Byte) : Byte :=
  signallingHeader &&& 0xF3 ||| packetType <<< 2

/-- The loop of the continuation packets and the end packet. The size gets smaller on every turn,
so a fuel of `payload_size` is enough. -/
def sendFragments (mtu : ℕ) (signallingHeader : Byte) : ℕ → ℕ → Sink → Bool × Sink
  | fuel + 1, payloadSize, sink =>
    if payloadSize > mtu - 1 then
      match sinkInsertHeaderAndFlushData sink (mtu - 1)
          [packetHeader signallingHeader avdtpPacketTypeContinue] with
      | (true, sink) => sendFragments mtu signallingHeader fuel (payloadSize - (mtu - 1)) sink
      | (false, sink) => (false, sink)
    else sinkInsertHeaderAndFlushData sink payloadSize
      [packetHeader signallingHeader avdtpPacketTypeEnd]
  | 0, _, sink => (false, sink)

/-- `sendPacket`. -/
def sendPacket (mtu : ℕ) (sink : Sink) (signallingHeader signalId : Byte) (payloadSize : ℕ) :
    Bool × Sink :=
  if payloadSize < mtu - 1 then
    sinkInsertHeaderAndFlushData sink payloadSize
      [packetHeader signallingHeader avdtpPacketTypeSingle, signalId]
  else
    -- total number of fragments, including the start packet, in 8 bits
    let fragments := BitVec.ofNat 8 ((payloadSize + mtu) / (mtu - 1))
    match sinkInsertHeaderAndFlushData sink (mtu - 3)
        [packetHeader signallingHeader avdtpPacketTypeStart, fragments, signalId] with
    | (true, sink) => sendFragments mtu signallingHeader payloadSize (payloadSize - (mtu - 3)) sink
    | (false, sink) => (false, sink)

/-! ## The channel -/

/-- What one turn of the loop meets: whether memory is there, whether a reject fits into the sink,
whether the stream defers a start or a close, whether the handler of the message answers it (or
resets the stream) before it returns, and the byte behind the message. -/
structure Turn where
  alloc : Bool
  grab : Bool
  deferred : Bool
  answered : Bool
  past : Byte
deriving DecidableEq, Repr

/-- A message for `processSignalPacket`: the bytes behind `received_packet`, and
`received_packet_length`. -/
structure Message where
  bytes : List Byte
  length : ℕ
deriving DecidableEq, Repr

/-- A block on the heap. -/
structure HeapBuffer where
  id : ℕ
  bytes : List Byte
deriving DecidableEq, Repr

/-- The blocks that are allocated; `doubleFree` tells that one was freed that was not. -/
structure Heap where
  next : ℕ
  live : List ℕ
  doubleFree : Bool
deriving DecidableEq, Repr

namespace Heap

def malloc (h : Heap) : ℕ × Heap :=
  (h.next, { h with next := h.next + 1, live := h.next :: h.live })

def free (h : Heap) (id : ℕ) : Heap :=
  if id ∈ h.live then { h with live := h.live.erase id } else { h with doubleFree := true }

end Heap

/-- `signalling_channel` of a remote device, with its source. -/
structure SignalConn where
  profileVersion : ℕ
  source : List (List Byte)
  receivedPacket : Option HeapBuffer
  receivedPacketLength : ℕ
  receivedTransactionLabel : Byte
  pendingReceivedTransaction : Bool
  heap : Heap
  /-- Bytes were copied that are not in the packet. -/
  overrun : Bool
  /-- The messages that `processSignalPacket` was called for. -/
  handed : List Message
  /-- The commands among them that were processed. -/
  processed : List (List Byte)
deriving DecidableEq, Repr

/-- `(ptr[0] >> 2) & 3`. -/
def packetType (ptr : List Byte) : Byte := ptr.headD 0 >>> 2 &&& 3

/-- `*received_packet & 0x03`. -/
def messageType (bytes : List Byte) : Byte := bytes.headD 0 &&& 3

/-- `received_packet[0] & 0xf0`: the transaction label. -/
def labelBits (bytes : List Byte) : Byte := bytes.headD 0 &&& 0xF0

/-- The width of `received_packet_length`. -/
def bits12 (n : ℕ) : ℕ := n % 2 ^ 12

/-! ## Complete messages -/

/-- `a2dpSendReject`: without space for the reject the transaction stays open. -/
def sendReject (t : Turn) (s : SignalConn) : SignalConn :=
  if t.grab then { s with pendingReceivedTransaction := false } else s

/-- `a2dpSendGeneralReject`. -/
def sendGeneralReject (s : SignalConn) : SignalConn :=
  { s with pendingReceivedTransaction := false }

/-- A handler that may answer. -/
def handlerDone (t : Turn) (s : SignalConn) : SignalConn :=
  { s with pendingReceivedTransaction := s.pendingReceivedTransaction && !t.answered }

/-- `handleReceiveCommand`. -/
def handleReceiveCommand (t : Turn) (m : Message) (s : SignalConn) : Bool × SignalConn :=
  if s.pendingReceivedTransaction then (false, s)
  else
    let signalId := m.bytes.getD 1 t.past
    let s := { s with
      receivedTransactionLabel := m.bytes.headD 0 >>> 4 &&& 0xF
      pendingReceivedTransaction := true }
    if signalId > avdtpMaxSignalId then (true, sendGeneralReject s)
    else if m.length < avdtpMinPduLength.getD signalId.toNat 0 then (true, sendReject t s)
    else if signalId = avdtpNull then
      (true, if s.profileVersion < avdtpVersion13 then handlerDone t s else sendGeneralReject s)
    else if (signalId = avdtpStart ∨ signalId = avdtpClose) ∧ t.deferred then
      (false, { s with pendingReceivedTransaction := false })
    else if signalId = avdtpSecurityControl then (true, sendGeneralReject s)
    else (true, handlerDone t s)

/-- `handleBadHeader`. -/
def handleBadHeader (t : Turn) (m : Message) (s : SignalConn) : SignalConn :=
  if m.length < 2 then s
  else if m.bytes.getD 1 t.past = avdtpDiscover then s
  else sendReject t { s with
    receivedTransactionLabel := m.bytes.headD 0 >>> 4 &&& 0xF
    pendingReceivedTransaction := true }

/-- `processSignalPacket`: false when the command is deferred. -/
def processSignalPacket (t : Turn) (m : Message) (s : SignalConn) : Bool × SignalConn :=
  let s := { s with handed := s.handed ++ [m] }
  if messageType m.bytes = avdtpMessageTypeCommand then
    match handleReceiveCommand t m s with
    | (true, s) => (true, { s with processed := s.processed ++ [m.bytes] })
    | (false, s) => (false, s)
  else if messageType m.bytes = avdtpMessageTypeGeneralReject ∧
      s.profileVersion < avdtpVersion13 then
    (true, handleBadHeader t m s)
  else (true, handlerDone t s)

/-- Only the transaction differs. -/
def SameButTransaction (s s' : SignalConn) : Prop :=
  ∃ label pending, s' = { s with
    receivedTransactionLabel := label
    pendingReceivedTransaction := pending }

theorem sameButTransaction_handleReceiveCommand (t : Turn) (m : Message) (s : SignalConn) :
    SameButTransaction s (handleReceiveCommand t m s).2 := by
  unfold handleReceiveCommand sendReject handlerDone sendGeneralReject
  dsimp only
  split_ifs <;> exact ⟨_, _, rfl⟩

theorem sameButTransaction_handleBadHeader (t : Turn) (m : Message) (s : SignalConn) :
    SameButTransaction s (handleBadHeader t m s) := by
  unfold handleBadHeader sendReject
  split_ifs <;> exact ⟨_, _, rfl⟩

/-- What a message changes: it is handed over, and a command that is not deferred is processed. -/
theorem processSignalPacket_spec (t : Turn) (m : Message) (s : SignalConn) :
    SameButTransaction { s with
        handed := s.handed ++ [m]
        processed := s.processed ++
          if messageType m.bytes = avdtpMessageTypeCommand ∧ (processSignalPacket t m s).1 = true
          then [m.bytes] else [] }
      (processSignalPacket t m s).2 := by
  unfold processSignalPacket
  by_cases hc : messageType m.bytes = avdtpMessageTypeCommand
  · simp only [hc, if_true, true_and]
    obtain ⟨label, pending, hs⟩ :=
      sameButTransaction_handleReceiveCommand t m { s with handed := s.handed ++ [m] }
    rcases hr : handleReceiveCommand t m { s with handed := s.handed ++ [m] } with ⟨ok, s'⟩
    rw [hr] at hs
    dsimp only at hs
    cases ok with
    | true | false => exact ⟨label, pending, by simp [hs]⟩
  · simp only [hc, if_false, false_and, List.append_nil]
    split_ifs with hb
    · exact sameButTransaction_handleBadHeader t m _
    · exact ⟨_, _, rfl⟩

/-! ## Packets -/

/-- `free(received_packet)`, where it is not `NULL`. -/
def freeReceivedPacket (s : SignalConn) : SignalConn :=
  match s.receivedPacket with
  | none => s
  | some b => { s with heap := s.heap.free b.id, receivedPacket := none }

@[simp] theorem receivedPacket_freeReceivedPacket (s : SignalConn) :
    (freeReceivedPacket s).receivedPacket = none := by
  unfold freeReceivedPacket
  split <;> simp_all

/-- `free` changes the pointer and the heap. -/
theorem freeReceivedPacket_eq (s : SignalConn) :
    freeReceivedPacket s =
      { s with receivedPacket := none, heap := (freeReceivedPacket s).heap } := by
  obtain ⟨_, _, r, _, _, _, _, _, _, _⟩ := s
  cases r <;> rfl

/-- `SourceDrop(source, packet_size)`. -/
def sourceDrop (s : SignalConn) : SignalConn := { s with source := s.source.tail }

/-- A single packet: `received_packet` refers to the source while it is processed. -/
def singlePacket (t : Turn) (ptr : List Byte) (s : SignalConn) : Bool × SignalConn :=
  let s := { freeReceivedPacket s with receivedPacketLength := bits12 ptr.length }
  match processSignalPacket t ⟨ptr, s.receivedPacketLength⟩ s with
  | (true, s) => (true, sourceDrop s)
  | (false, s) => (false, s)

/-- A start packet, copied without the number of fragments. `packet_size - 2` is the size of the
copy, so a packet of one byte makes it as large as it can be. -/
def startPacket (t : Turn) (ptr : List Byte) (s : SignalConn) : SignalConn :=
  let s := freeReceivedPacket s
  if t.alloc then
    let (id, heap) := s.heap.malloc
    { s with
      heap
      receivedPacket := some ⟨id, if ptr.length < 2 then [] else ptr.take 1 ++ ptr.drop 2⟩
      receivedPacketLength := bits12 (ptr.length - 1)
      overrun := s.overrun || decide (ptr.length < 2) }
  else s

/-- A continue or an end packet. -/
def continuePacket (t : Turn) (ptr : List Byte) (s : SignalConn) : SignalConn :=
  match s.receivedPacket with
  | none => s
  | some b =>
    if labelBits b.bytes ≠ labelBits ptr then s
    else if t.alloc then
      let (id, heap) := (s.heap.free b.id).malloc
      let bytes := b.bytes.take s.receivedPacketLength ++ ptr.drop 1
      let s := { s with
        heap
        receivedPacket := some ⟨id, bytes⟩
        receivedPacketLength := bits12 (s.receivedPacketLength + (ptr.length - 1)) }
      if packetType ptr = avdtpPacketTypeEnd then
        freeReceivedPacket (processSignalPacket t ⟨bytes, s.receivedPacketLength⟩ s).2
      else s
    else freeReceivedPacket s

/-- The body of the loop of `a2dpHandleSignalPacket`: whether the loop goes on. -/
def signalPacket (t : Turn) (ptr : List Byte) (s : SignalConn) : Bool × SignalConn :=
  if packetType ptr = avdtpPacketTypeSingle then singlePacket t ptr s
  else if packetType ptr = avdtpPacketTypeStart then (true, sourceDrop (startPacket t ptr s))
  else (true, sourceDrop (continuePacket t ptr s))

/-- The loop, for at most `n` packets. -/
def signalPackets (turns : ℕ → Turn) : ℕ → SignalConn → SignalConn
  | 0, s => s
  | n + 1, s =>
    match s.source with
    | [] => s
    | ptr :: _ =>
      match signalPacket (turns n) ptr s with
      | (true, s) => signalPackets turns n s
      | (false, s) => s

theorem signalPackets_again {turns : ℕ → Turn} {n : ℕ} {s s' : SignalConn} {ptr : List Byte}
    {rest : List (List Byte)} (hsource : s.source = ptr :: rest)
    (h : signalPacket (turns n) ptr s = (true, s')) :
    signalPackets turns (n + 1) s = signalPackets turns n s' := by
  simp only [signalPackets, hsource, h]

theorem signalPackets_stop {turns : ℕ → Turn} {n : ℕ} {s s' : SignalConn} {ptr : List Byte}
    {rest : List (List Byte)} (hsource : s.source = ptr :: rest)
    (h : signalPacket (turns n) ptr s = (false, s')) : signalPackets turns (n + 1) s = s' := by
  simp only [signalPackets, hsource, h]

/-- `a2dpHandleSignalPacket`: every packet of the source, each with its turn. -/
def handleSignalPacket (turns : ℕ → Turn) (s : SignalConn) : SignalConn :=
  if s.profileVersion ≠ avdtpVersionNotRequested then signalPackets turns s.source.length s else s

end Mh40.A2dp
