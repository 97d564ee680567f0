import Mh40.A2dp.PacketHandler
import Mh40.Lib.Run

/-!
# Reception on the signalling channel

Packets arrive, turns of the loop of `a2dpHandleSignalPacket` take them, and local responses close
the transaction that a command opened, in any order.

* `commands`: the complete commands of a stream of packets, by label and packet type alone.
* `Sound`: what reception must keep; every complete command is processed or still to come.
* `Allowed`: what a turn must not meet. An end packet completes a command while another transaction
  is pending, or a deferred one: it is dropped, where a single packet stays in the source. A start
  packet of one byte, a message of 2 ^ 12 bytes, and no memory for a command are the others.
* `reception_sound`: every run of allowed turns is sound.
-/

namespace Mh40.A2dp

open Lib List Option

/-! ## The commands of a stream -/

/-- What a packet does to the message in reassembly, and the message that it completes. -/
def assemble (m : Option (List Byte)) (ptr : List Byte) : Option (List Byte) × Option (List Byte) :=
  if packetType ptr = avdtpPacketTypeSingle then (none, some ptr)
  else if packetType ptr = avdtpPacketTypeStart then (some (ptr.take 1 ++ ptr.drop 2), none)
  else match m with
    | none => (none, none)
    | some m =>
      if labelBits m ≠ labelBits ptr then (some m, none)
      else if packetType ptr = avdtpPacketTypeEnd then (none, some (m ++ ptr.drop 1))
      else (some (m ++ ptr.drop 1), none)

/-- A message that opens a transaction. -/
def IsCommand (m : List Byte) : Prop := messageType m = avdtpMessageTypeCommand

instance (m : List Byte) : Decidable (IsCommand m) := inferInstanceAs (Decidable (_ = _))

/-- The commands that the packets complete, `m` being in reassembly before them. -/
def commands : Option (List Byte) → List (List Byte) → List (List Byte)
  | _, [] => []
  | m, ptr :: ptrs =>
    (assemble m ptr).2.toList.filter (fun c => IsCommand c) ++ commands (assemble m ptr).1 ptrs

/-- A longer message has the same type. -/
theorem IsCommand.of_append {m more : List Byte} (h : IsCommand (m ++ more)) : IsCommand m := by
  cases m with
  | nil => decide
  | cons x xs => exact h

/-- A message that is no command may as well be lost. -/
theorem commands_some {m : List Byte} (hm : ¬ IsCommand m) (ptrs : List (List Byte)) :
    commands (some m) ptrs = commands none ptrs := by
  induction ptrs generalizing m with
  | nil => rfl
  | cons ptr ptrs ih =>
    have happend : ¬ IsCommand (m ++ ptr.drop 1) := fun h => hm h.of_append
    rw [commands, commands, assemble, assemble]
    by_cases hsingle : packetType ptr = avdtpPacketTypeSingle
    · rw [if_pos hsingle, if_pos hsingle]
    by_cases hstart : packetType ptr = avdtpPacketTypeStart
    · rw [if_neg hsingle, if_pos hstart, if_neg hsingle, if_pos hstart]
    rw [if_neg hsingle, if_neg hstart, if_neg hsingle, if_neg hstart]
    dsimp only
    by_cases hlabel : labelBits m ≠ labelBits ptr
    · rw [if_pos hlabel]
      exact ih hm
    rw [if_neg hlabel]
    by_cases hend : packetType ptr = avdtpPacketTypeEnd
    · rw [if_pos hend, toList_some, filter_cons_of_neg (by simpa using happend)]
      rfl
    · rw [if_neg hend]
      exact ih happend

/-! ## Runs -/

/-- The channel, and all the packets that ever arrived. -/
structure Channel where
  conn : SignalConn
  arrived : List (List Byte)

inductive Event where
  | arrive (ptr : List Byte)
  | turn (t : Turn)
  | respond
deriving DecidableEq, Repr

/-- One event. An L2CAP packet has at least one byte. -/
def step (c : Channel) : Event → Option Channel
  | .arrive ptr =>
    if ptr = [] then none
    else some ⟨{ c.conn with source := c.conn.source ++ [ptr] }, c.arrived ++ [ptr]⟩
  | .turn t =>
    match c.conn.source with
    | [] => some c
    | ptr :: _ =>
      if c.conn.profileVersion ≠ avdtpVersionNotRequested then
        some { c with conn := (signalPacket t ptr c.conn).2 }
      else some c
  | .respond => some { c with conn := { c.conn with pendingReceivedTransaction := false } }

/-- A channel that was just connected. -/
def connected (profileVersion : ℕ) : Channel where
  conn := {
    profileVersion
    source := []
    receivedPacket := none
    receivedPacketLength := 0
    receivedTransactionLabel := 0
    pendingReceivedTransaction := false
    heap := ⟨0, [], false⟩
    overrun := false
    handed := []
    processed := [] }
  arrived := []

/-- Copies stay inside of the packets, lengths are those of the messages, the heap holds the message
in reassembly and nothing else, and every complete command was processed or is still there. -/
structure Sound (c : Channel) : Prop where
  inside : c.conn.overrun = false
  length : ∀ b, c.conn.receivedPacket = some b → c.conn.receivedPacketLength = b.bytes.length
  handed : ∀ m ∈ c.conn.handed, m.length = m.bytes.length
  freed_once : c.conn.heap.doubleFree = false
  live : c.conn.heap.live = (c.conn.receivedPacket.map HeapBuffer.id).toList
  commands : commands none c.arrived =
    c.conn.processed ++ commands (c.conn.receivedPacket.map HeapBuffer.bytes) c.conn.source

/-- A command that the handler puts off: a transaction is pending, or the stream defers it. -/
def Refused (t : Turn) (m : Message) (s : SignalConn) : Prop :=
  s.pendingReceivedTransaction = true ∨
    (m.bytes.getD 1 t.past = avdtpStart ∨ m.bytes.getD 1 t.past = avdtpClose) ∧ 3 ≤ m.length ∧
      t.deferred = true

instance (t : Turn) (m : Message) (s : SignalConn) : Decidable (Refused t m s) :=
  inferInstanceAs (Decidable (_ ∨ _))

/-- A turn of the loop that keeps reception sound. -/
def AllowedPacket (t : Turn) (ptr : List Byte) (s : SignalConn) : Prop :=
  if packetType ptr = avdtpPacketTypeSingle then ptr.length < 2 ^ 12
  else if packetType ptr = avdtpPacketTypeStart then
    if t.alloc then 2 ≤ ptr.length ∧ ptr.length ≤ 2 ^ 12 else ¬ IsCommand ptr
  else match s.receivedPacket with
    | none => True
    | some b =>
      labelBits b.bytes = labelBits ptr →
        if t.alloc then
          b.bytes.length + (ptr.length - 1) < 2 ^ 12 ∧
            (packetType ptr = avdtpPacketTypeEnd → IsCommand b.bytes →
              ¬ Refused t ⟨b.bytes ++ ptr.drop 1, b.bytes.length + (ptr.length - 1)⟩ s)
        else ¬ IsCommand b.bytes

instance (t : Turn) (ptr : List Byte) (s : SignalConn) : Decidable (AllowedPacket t ptr s) := by
  unfold AllowedPacket
  cases s.receivedPacket <;> infer_instance

/-- Only the turns are bound by anything: packets and responses come as they come. -/
def Allowed (c : Channel) : Event → Prop
  | .turn t => ∀ ptr ∈ c.conn.source.head?, AllowedPacket t ptr c.conn
  | _ => True

instance (c : Channel) : ∀ e, Decidable (Allowed c e)
  | .turn _ => inferInstanceAs (Decidable (∀ _ ∈ _, _))
  | .arrive _ => .isTrue trivial
  | .respond => .isTrue trivial

/-! ## One packet -/

/-- The buffer of the message in reassembly is the one that is allocated. -/
structure HeapOk (s : SignalConn) : Prop where
  freed_once : s.heap.doubleFree = false
  live : s.heap.live = (s.receivedPacket.map HeapBuffer.id).toList

theorem HeapOk.free {s : SignalConn} (h : HeapOk s) : HeapOk (freeReceivedPacket s) := by
  obtain ⟨hd, hl⟩ := h
  unfold freeReceivedPacket
  cases hr : s.receivedPacket with
  | none => exact ⟨hd, hl⟩
  | some b =>
    rw [hr] at hl
    dsimp only at hl ⊢
    have hmem : b.id ∈ s.heap.live := by simp [hl]
    refine ⟨?_, ?_⟩
    · rw [Heap.free, if_pos hmem]
      exact hd
    · rw [Heap.free, if_pos hmem]
      simp [hl]

/-- A handler takes a command unless it is refused. -/
theorem handleReceiveCommand_ok (t : Turn) (m : Message) (s : SignalConn) :
    (handleReceiveCommand t m s).1 = true ↔ ¬ Refused t m s := by
  unfold handleReceiveCommand Refused
  generalize m.bytes.getD 1 t.past = signalId
  by_cases hp : s.pendingReceivedTransaction = true
  · simp [hp]
  rw [if_neg hp]
  dsimp only
  -- the least length of a start and of a close is 3, so a short one is rejected at once
  have hmin : (signalId = avdtpStart ∨ signalId = avdtpClose) →
      avdtpMinPduLength.getD signalId.toNat 0 = 3 ∧ ¬ signalId > avdtpMaxSignalId ∧
        ¬ signalId = avdtpNull := by
    rintro (rfl | rfl) <;> decide
  by_cases hs : signalId = avdtpStart ∨ signalId = avdtpClose
  · obtain ⟨hlen, hmax, hnull⟩ := hmin hs
    rw [if_neg hmax, hlen]
    by_cases hshort : m.length < 3
    · rw [if_pos hshort]
      have : ¬ 3 ≤ m.length := by omega
      simp [hp, this]
    · rw [if_neg hshort, if_neg hnull]
      have : 3 ≤ m.length := by omega
      by_cases hd : t.deferred = true
      · rw [if_pos ⟨hs, hd⟩]
        simp [hs, hd, this]
      · rw [if_neg fun h => hd h.2]
        have hfree : ¬ (s.pendingReceivedTransaction = true ∨
            (signalId = avdtpStart ∨ signalId = avdtpClose) ∧ 3 ≤ m.length ∧ t.deferred = true) :=
          fun h => h.elim hp fun h => hd h.2.2
        refine iff_of_true ?_ hfree
        split_ifs <;> rfl
  · have hfree : ¬ (s.pendingReceivedTransaction = true ∨
        (signalId = avdtpStart ∨ signalId = avdtpClose) ∧ 3 ≤ m.length ∧ t.deferred = true) :=
      fun h => h.elim hp fun h => hs h.1
    have hgo : ¬ ((signalId = avdtpStart ∨ signalId = avdtpClose) ∧ t.deferred = true) :=
      fun h => hs h.1
    refine iff_of_true ?_ hfree
    simp only [if_neg hgo]
    split_ifs <;> rfl

/-- A message is processed unless it is a command that is refused. -/
theorem processSignalPacket_ok (t : Turn) (m : Message) (s : SignalConn) :
    (processSignalPacket t m s).1 = true ↔ (IsCommand m.bytes → ¬ Refused t m s) := by
  have hok := handleReceiveCommand_ok t m { s with handed := s.handed ++ [m] }
  unfold processSignalPacket
  by_cases hc : messageType m.bytes = avdtpMessageTypeCommand
  · rw [if_pos hc]
    have himp : (IsCommand m.bytes → ¬ Refused t m s) ↔ ¬ Refused t m s :=
      ⟨fun h => h hc, fun h _ => h⟩
    rw [himp]
    refine Iff.trans ?_ hok
    rcases handleReceiveCommand t m { s with handed := s.handed ++ [m] } with ⟨ok, s'⟩
    cases ok <;> simp
  · rw [if_neg hc]
    refine iff_of_true ?_ fun h => absurd h hc
    split_ifs <;> rfl

/-- What the turns keep of the channel. -/
structure ConnInv (s : SignalConn) : Prop where
  inside : s.overrun = false
  length : ∀ b, s.receivedPacket = some b → s.receivedPacketLength = b.bytes.length
  handed : ∀ m ∈ s.handed, m.length = m.bytes.length
  heap : HeapOk s

/-- The message in reassembly. -/
def partialMessage (s : SignalConn) : Option (List Byte) := s.receivedPacket.map HeapBuffer.bytes

/-- Nothing is lost between two states: what was processed and what can still be made of the source
and of the packets to come. -/
def Keeps (s s' : SignalConn) : Prop :=
  ∀ more, s.processed ++ commands (partialMessage s) (s.source ++ more) =
    s'.processed ++ commands (partialMessage s') (s'.source ++ more)

section Packet

variable {s : SignalConn} {t : Turn} {ptr : List Byte} {rest : List (List Byte)}

theorem ConnInv.free (h : ConnInv s) : ConnInv (freeReceivedPacket s) := by
  have hheap := h.heap.free
  rw [freeReceivedPacket_eq] at hheap ⊢
  exact ⟨h.inside, fun b hb => absurd hb (by simp), h.handed, hheap⟩

/-- A message of the right length keeps the channel in order. -/
theorem ConnInv.process (h : ConnInv s) {m : Message} (hm : m.length = m.bytes.length) :
    ConnInv (processSignalPacket t m s).2 := by
  obtain ⟨label, pending, hs⟩ := processSignalPacket_spec t m s
  rw [hs]
  refine ⟨h.inside, h.length, fun m' hm' => ?_, ⟨h.heap.freed_once, h.heap.live⟩⟩
  rcases mem_append.mp hm' with hm' | hm'
  · exact h.handed m' hm'
  · rwa [mem_singleton.mp hm']

theorem ConnInv.drop (h : ConnInv s) : ConnInv (sourceDrop s) :=
  ⟨h.inside, h.length, h.handed, ⟨h.heap.freed_once, h.heap.live⟩⟩

/-- The command that a message is. -/
def commandOf (m : List Byte) : List (List Byte) := if IsCommand m then [m] else []

theorem filter_commandOf (m : List Byte) :
    (some m).toList.filter (fun c => IsCommand c) = commandOf m := by
  by_cases hc : IsCommand m
  · rw [toList_some, filter_cons_of_pos (by simpa using hc), commandOf, if_pos hc]
    rfl
  · rw [toList_some, filter_cons_of_neg (by simpa using hc), commandOf, if_neg hc]
    rfl

/-- A single packet, whatever is in reassembly. -/
theorem commands_single (m : Option (List Byte)) (hp : packetType ptr = avdtpPacketTypeSingle) :
    commands m (ptr :: rest) = commandOf ptr ++ commands none rest := by
  conv_lhs => unfold commands assemble
  rw [if_pos hp, filter_commandOf]

/-- A start packet, whatever is in reassembly. -/
theorem commands_start (m : Option (List Byte)) (hs : packetType ptr ≠ avdtpPacketTypeSingle)
    (hp : packetType ptr = avdtpPacketTypeStart) :
    commands m (ptr :: rest) = commands (some (ptr.take 1 ++ ptr.drop 2)) rest := by
  conv_lhs => unfold commands assemble
  rw [if_neg hs, if_pos hp]
  rfl

/-- A fragment with nothing in reassembly. -/
theorem commands_stray (hs : packetType ptr ≠ avdtpPacketTypeSingle)
    (hp : packetType ptr ≠ avdtpPacketTypeStart) :
    commands none (ptr :: rest) = commands none rest := by
  conv_lhs => unfold commands assemble
  rw [if_neg hs, if_neg hp]
  rfl

/-- A fragment of the message in reassembly or of another one. -/
theorem commands_fragment (m : List Byte) (hs : packetType ptr ≠ avdtpPacketTypeSingle)
    (hp : packetType ptr ≠ avdtpPacketTypeStart) :
    commands (some m) (ptr :: rest) =
      if labelBits m ≠ labelBits ptr then commands (some m) rest
      else if packetType ptr = avdtpPacketTypeEnd then
        commandOf (m ++ ptr.drop 1) ++ commands none rest
      else commands (some (m ++ ptr.drop 1)) rest := by
  conv_lhs => unfold commands assemble
  rw [if_neg hs, if_neg hp]
  dsimp only
  by_cases hl : labelBits m ≠ labelBits ptr
  · rw [if_pos hl, if_pos hl]
    rfl
  · rw [if_neg hl, if_neg hl]
    by_cases he : packetType ptr = avdtpPacketTypeEnd
    · rw [if_pos he, if_pos he, filter_commandOf]
    · rw [if_neg he, if_neg he]
      rfl

theorem ConnInv.single (h : ConnInv s) (hp : packetType ptr = avdtpPacketTypeSingle)
    (hsource : s.source = ptr :: rest) (hlen : ptr.length < 2 ^ 12) :
    ConnInv (singlePacket t ptr s).2 ∧ Keeps s (singlePacket t ptr s).2 := by
  have hbits : bits12 ptr.length = ptr.length := Nat.mod_eq_of_lt hlen
  set s0 : SignalConn := { freeReceivedPacket s with receivedPacketLength := ptr.length } with hs0
  have h0 : ConnInv s0 :=
    ⟨h.free.inside, fun b hb => by simp [hs0] at hb, h.free.handed,
      ⟨h.free.heap.freed_once, h.free.heap.live⟩⟩
  have hprocess := h0.process (t := t) (m := ⟨ptr, ptr.length⟩) rfl
  obtain ⟨label, pending, hs⟩ := processSignalPacket_spec t ⟨ptr, ptr.length⟩ s0
  have hnone : s0.receivedPacket = none := receivedPacket_freeReceivedPacket s
  have hsame : s0.source = s.source ∧ s0.processed = s.processed := by
    rw [hs0, freeReceivedPacket_eq]
    exact ⟨rfl, rfl⟩
  have hok := processSignalPacket_ok t ⟨ptr, ptr.length⟩ s0
  rw [singlePacket]
  dsimp only
  rw [hbits, ← hs0]
  rcases hr : processSignalPacket t ⟨ptr, ptr.length⟩ s0 with ⟨ok, s'⟩
  rw [hr] at hprocess hs hok
  cases ok with
  | true =>
    refine ⟨hprocess.drop, fun more => ?_⟩
    dsimp only at hs
    rw [hs, hsource, cons_append, commands_single _ hp]
    simp only [sourceDrop, partialMessage, hnone, hsame, hsource, and_true, append_assoc,
      tail_cons, map_none]
    rfl
  | false =>
    -- a command that is refused stays in the source
    refine ⟨hprocess, fun more => ?_⟩
    dsimp only at hs
    rw [hs, hsource, cons_append, commands_single _ hp]
    simp only [partialMessage, hnone, hsame, hsource, and_false, if_false, append_nil,
      map_none, cons_append, commands_single _ hp, Bool.false_eq_true]

theorem ConnInv.start (h : ConnInv s) (hs : packetType ptr ≠ avdtpPacketTypeSingle)
    (hp : packetType ptr = avdtpPacketTypeStart) (hsource : s.source = ptr :: rest)
    (ha : if t.alloc then 2 ≤ ptr.length ∧ ptr.length ≤ 2 ^ 12 else ¬ IsCommand ptr) :
    ConnInv (sourceDrop (startPacket t ptr s)) ∧ Keeps s (sourceDrop (startPacket t ptr s)) := by
  have hfree := h.free
  have heq := freeReceivedPacket_eq s
  unfold startPacket
  dsimp only
  by_cases halloc : t.alloc = true
  · rw [if_pos halloc] at ha ⊢
    have hlen : bits12 (ptr.length - 1) = (ptr.take 1 ++ ptr.drop 2).length := by
      rw [length_append, length_take, length_drop]
      have : ptr.length - 1 < 2 ^ 12 := by omega
      rw [bits12, Nat.mod_eq_of_lt this]
      omega
    have hlong : ¬ ptr.length < 2 := by omega
    rw [if_neg hlong, decide_eq_false hlong, Bool.or_false]
    refine ⟨⟨hfree.inside, fun b hb => ?_, hfree.handed, ?_⟩, fun more => ?_⟩
    · obtain rfl := some.inj hb
      exact hlen
    · refine ⟨hfree.heap.freed_once, ?_⟩
      have hl := hfree.heap.live
      rw [receivedPacket_freeReceivedPacket] at hl
      exact congrArg _ hl
    · rw [hsource, cons_append, commands_start _ hs hp]
      simp only [sourceDrop, partialMessage]
      rw [heq]
      simp only [hsource, tail_cons]
      rfl
  · rw [if_neg halloc] at ha ⊢
    refine ⟨hfree.drop, fun more => ?_⟩
    have hlost : ¬ IsCommand (ptr.take 1 ++ ptr.drop 2) := by
      cases ptr with
      | nil => exact absurd (by decide) ha
      | cons x xs => exact ha
    rw [hsource, cons_append, commands_start _ hs hp, commands_some hlost]
    simp only [sourceDrop, partialMessage]
    rw [heq]
    simp only [hsource, tail_cons]
    rfl

theorem ConnInv.continue (h : ConnInv s) (hs : packetType ptr ≠ avdtpPacketTypeSingle)
    (hp : packetType ptr ≠ avdtpPacketTypeStart) (hsource : s.source = ptr :: rest)
    (ha : AllowedPacket t ptr s) :
    ConnInv (sourceDrop (continuePacket t ptr s)) ∧
      Keeps s (sourceDrop (continuePacket t ptr s)) := by
  rw [AllowedPacket, if_neg hs, if_neg hp] at ha
  unfold continuePacket
  cases hr : s.receivedPacket with
  | none =>
    refine ⟨h.drop, fun more => ?_⟩
    simp only [sourceDrop, partialMessage, hr, hsource, tail_cons, map_none,
      cons_append, commands_stray hs hp]
  | some b =>
    rw [hr] at ha
    dsimp only at ha ⊢
    by_cases hl : labelBits b.bytes ≠ labelBits ptr
    · rw [if_pos hl]
      refine ⟨h.drop, fun more => ?_⟩
      simp only [sourceDrop, partialMessage, hr, hsource, tail_cons, map_some,
        cons_append, commands_fragment _ hs hp, if_pos hl]
    have ha := ha (not_not.mp hl)
    rw [if_neg hl]
    by_cases halloc : t.alloc = true
    · rw [if_pos halloc] at ha ⊢
      have hbytes : b.bytes.take s.receivedPacketLength = b.bytes := by
        rw [h.length b hr, take_length]
      have hlen : bits12 (s.receivedPacketLength + (ptr.length - 1)) =
          (b.bytes ++ ptr.drop 1).length := by
        rw [h.length b hr, length_append, length_drop, bits12, Nat.mod_eq_of_lt ha.1]
      rw [hbytes, hlen]
      set s0 : SignalConn := { s with
        heap := (s.heap.free b.id).malloc.2
        receivedPacket := some ⟨(s.heap.free b.id).malloc.1, b.bytes ++ ptr.drop 1⟩
        receivedPacketLength := (b.bytes ++ ptr.drop 1).length } with hs0
      have h0 : ConnInv s0 := by
        refine ⟨h.inside, fun b' hb' => ?_, h.handed, ?_⟩
        · obtain rfl := some.inj hb'
          rfl
        · have hfree := h.heap.free
          rw [freeReceivedPacket, hr] at hfree
          refine ⟨hfree.freed_once, congrArg _ hfree.live⟩
      by_cases hend : packetType ptr = avdtpPacketTypeEnd
      · rw [if_pos hend]
        set m : Message := ⟨b.bytes ++ ptr.drop 1, (b.bytes ++ ptr.drop 1).length⟩ with hm
        have hmlen : b.bytes.length + (ptr.length - 1) = m.length := by
          rw [hm, length_append, length_drop]
        have hok : (processSignalPacket t m s0).1 = true := by
          refine (processSignalPacket_ok t m s0).mpr fun hc => ?_
          have := ha.2 hend hc.of_append
          rwa [hmlen] at this
        have hprocess := (h0.process (t := t) (m := m) rfl).free
        obtain ⟨label, pending, hs1⟩ := processSignalPacket_spec t m s0
        simp only [hok, and_true] at hs1
        refine ⟨hprocess.drop, fun more => ?_⟩
        rw [freeReceivedPacket_eq, hs1]
        simp only [sourceDrop, partialMessage, hr, hsource, tail_cons, map_some,
          cons_append, commands_fragment _ hs hp, if_neg hl, if_pos hend, append_assoc,
          hs0, map_none]
        rfl
      · rw [if_neg hend]
        refine ⟨h0.drop, fun more => ?_⟩
        simp only [sourceDrop, partialMessage, hr, hsource, tail_cons, map_some,
          cons_append, commands_fragment _ hs hp, if_neg hl, if_neg hend, hs0]
    · -- no memory: what is lost is no command
      rw [if_neg halloc] at ha ⊢
      refine ⟨h.free.drop, fun more => ?_⟩
      have happend : ¬ IsCommand (b.bytes ++ ptr.drop 1) := fun hc => ha hc.of_append
      rw [freeReceivedPacket_eq]
      simp only [sourceDrop, partialMessage, hr, hsource, tail_cons, map_some,
        cons_append, commands_fragment _ hs hp, if_neg hl, commands_some happend, commandOf,
        if_neg happend, nil_append, ite_self, map_none]

/-- **One packet.** An allowed turn keeps the channel in order and loses nothing. -/
theorem ConnInv.packet (h : ConnInv s) (hsource : s.source = ptr :: rest)
    (ha : AllowedPacket t ptr s) :
    ConnInv (signalPacket t ptr s).2 ∧ Keeps s (signalPacket t ptr s).2 := by
  have ha' := ha
  unfold AllowedPacket at ha'
  unfold signalPacket
  by_cases hs : packetType ptr = avdtpPacketTypeSingle
  · rw [if_pos hs] at ha' ⊢
    exact h.single hs hsource ha'
  rw [if_neg hs] at ha' ⊢
  by_cases hp : packetType ptr = avdtpPacketTypeStart
  · rw [if_pos hp] at ha' ⊢
    exact h.start hs hp hsource ha'
  · rw [if_neg hp]
    exact h.continue hs hp hsource ha

end Packet

/-! ## Whole runs -/

/-- The channel is in order, whatever packets still come. -/
structure Inv (c : Channel) : Prop where
  conn : ConnInv c.conn
  commands : ∀ more, A2dp.commands none (c.arrived ++ more) =
    c.conn.processed ++ A2dp.commands (partialMessage c.conn) (c.conn.source ++ more)

theorem Inv.sound {c : Channel} (h : Inv c) : Sound c where
  inside := h.conn.inside
  length := h.conn.length
  handed := h.conn.handed
  freed_once := h.conn.heap.freed_once
  live := h.conn.heap.live
  commands := by
    have := h.commands []
    rwa [append_nil, append_nil] at this

theorem Inv.step {c c' : Channel} {e : Event} (h : Inv c) (ha : Allowed c e)
    (hs : step c e = some c') : Inv c' := by
  cases e with
  | arrive ptr =>
    rw [A2dp.step] at hs
    split_ifs at hs
    obtain rfl := some.inj hs
    refine ⟨⟨h.conn.inside, h.conn.length, h.conn.handed,
      ⟨h.conn.heap.freed_once, h.conn.heap.live⟩⟩, fun more => ?_⟩
    have := h.commands (ptr :: more)
    simp only [append_assoc, singleton_append]
    exact this
  | turn t =>
    rw [A2dp.step] at hs
    cases hsource : c.conn.source with
    | nil =>
      rw [hsource] at hs
      obtain rfl := some.inj hs
      exact h
    | cons ptr rest =>
      rw [hsource] at hs
      dsimp only at hs
      split_ifs at hs
      · obtain rfl := some.inj hs
        have ha := ha ptr (by rw [hsource]; rfl)
        obtain ⟨hconn, hkeeps⟩ := h.conn.packet hsource ha
        exact ⟨hconn, fun more => (h.commands more).trans (hkeeps more)⟩
      · obtain rfl := some.inj hs
        exact h
  | respond =>
    obtain rfl := some.inj hs
    exact ⟨⟨h.conn.inside, h.conn.length, h.conn.handed,
      ⟨h.conn.heap.freed_once, h.conn.heap.live⟩⟩, h.commands⟩

theorem inv_connected (profileVersion : ℕ) : Inv (connected profileVersion) :=
  ⟨⟨rfl, fun _ hb => absurd hb (by simp [connected]), fun _ hm => absurd hm (by simp [connected]),
    ⟨rfl, rfl⟩⟩, fun _ => rfl⟩

/-- **Reception.** Whatever packets arrive and whenever they are handled and answered: when no turn
drops a command, copies a start packet of one byte, or puts together a message that is too long,
reception is sound in every state of the run. -/
theorem reception_sound (profileVersion : ℕ) (es : List Event)
    (h : Meets step Allowed (connected profileVersion) es) :
    Throughout step Sound (connected profileVersion) es := by
  intro ks c hks hrun
  have hinv : Inv c := invariant_of_meets (fun _ _ _ hs ha hstep => hs.step ha hstep)
    (inv_connected profileVersion) (h.of_prefix hks) hrun
  exact hinv.sound

/-- A discover command, with nothing to answer it. -/
def sampleDiscover : List Byte := [0x10, 1]

/-- A start command of a stream in two fragments. -/
def sampleStart : List Byte := [0x24, 2, 7]

def sampleEnd : List Byte := [0x2C, 4]

/-- A turn whose message waits for the application. -/
def sampleWait : Turn := ⟨true, true, false, false, 0⟩

theorem reception_sound_sampleStart :
    Throughout step Sound (connected avdtpVersion13)
      [.arrive sampleDiscover, .turn sampleWait, .arrive sampleStart, .turn sampleWait,
        .arrive sampleDiscover, .respond, .arrive sampleEnd, .turn sampleWait, .respond,
        .turn sampleWait] :=
  reception_sound avdtpVersion13 _ (by decide +kernel)

/-- A command in fragments that is complete while a transaction is pending is gone. -/
theorem not_sound_deferredFragments :
    ¬ Throughout step Sound (connected avdtpVersion13)
      [.arrive sampleDiscover, .turn sampleWait, .arrive sampleStart, .arrive sampleEnd,
        .turn sampleWait, .turn sampleWait] := by
  intro h
  have hs := h _ _ (List.prefix_refl _) rfl
  exact absurd hs.commands (by decide +kernel)

end Mh40.A2dp
