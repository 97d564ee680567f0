import Mh40.A2dp.Fragmentation
import Mh40.A2dp.Reception

/-!
# From one end of the signalling channel to the other

The packets that `sendPacket` flushes arrive at the peer in the order in which they were flushed,
while others are still on their way.

* `SentMessage`: a message that `sendPacket` sends, its packets and the message that they are for
  the peer. The number of fragments is not looked at there.
* `commands_packets`: the packets complete this message and no other, whatever is in reassembly.
* **`received_of_sent`**: no command is lost, repeated or overtaken.
-/

namespace Mh40.A2dp

open Lib List

structure SentMessage where
  mtu : ℕ
  header : Byte
  signalId : Byte
  sink : Sink
  mtu_ge : 4 ≤ mtu
  sent : (sendPacket mtu sink header signalId sink.claimed.length).1 = true

namespace SentMessage

def packets (m : SentMessage) : List (List Byte) :=
  emitted m.sink (sendPacket m.mtu m.sink m.header m.signalId m.sink.claimed.length).2

/-- The message with the header of its first packet. -/
def bytes (m : SentMessage) : List Byte :=
  packetHeader m.header (if m.sink.claimed.length + 2 ≤ m.mtu then avdtpPacketTypeSingle
    else avdtpPacketTypeStart) :: m.signalId :: m.sink.claimed

/-- The command that it is. -/
def command (m : SentMessage) : List (List Byte) := commandOf m.bytes

end SentMessage

variable {h : Byte} {m last : List Byte} {r : Option (List Byte)} {rest : List (List Byte)}

/-- The fragments complete the message in reassembly. -/
theorem commands_fragmentPackets {chunks : List (List Byte)} (hm : labelBits m = h &&& 0xF0)
    (hne : m ≠ []) : commands (some m) (fragmentPackets h chunks last ++ rest) =
      commandOf (m ++ (chunks.flatten ++ last)) ++ commands none rest := by
  have hfragment : ∀ t ∈ packetTypes, t ≠ avdtpPacketTypeSingle → t ≠ avdtpPacketTypeStart →
      ∀ (m data : List Byte) (ptrs : List (List Byte)), labelBits m = h &&& 0xF0 →
        commands (some m) ((packetHeader h t :: data) :: ptrs) =
          if t = avdtpPacketTypeEnd then commandOf (m ++ data) ++ commands none ptrs
          else commands (some (m ++ data)) ptrs := by
    intro t ht hsingle hstart m data ptrs hm
    have htype := packetType_packetHeader h data ht
    rw [commands_fragment m (by rwa [htype]) (by rwa [htype]), htype,
      labelBits_packetHeader h data ht, if_neg (not_not_intro hm)]
    rfl
  induction chunks generalizing m with
  | nil => exact hfragment _ (by decide) (by decide) (by decide) m last rest hm
  | cons c chunks ih =>
    have hlabel : labelBits (m ++ c) = labelBits m := by
      obtain ⟨x, xs, rfl⟩ := exists_cons_of_ne_nil hne
      rfl
    have hrest := ih (hlabel.trans hm) (by simp [hne])
    rw [append_assoc, ← append_assoc c, ← flatten_cons] at hrest
    refine (hfragment _ (by decide) (by decide) (by decide) m c _ hm).trans ?_
    rw [if_neg (by decide)]
    exact hrest

/-- **The packets of a message complete it**, whatever is in reassembly. -/
theorem commands_packets (m : SentMessage) :
    commands r (m.packets ++ rest) = m.command ++ commands none rest := by
  unfold SentMessage.packets SentMessage.command SentMessage.bytes emitted
  obtain ⟨hfits, hpackets⟩ | ⟨hlong, chunks, last, hcuts, hpackets⟩ :=
    sendPacket_eq m.mtu_ge rfl (Prod.ext m.sent rfl)
  · rw [hpackets, drop_left, if_pos hfits]
    exact commands_single r (packetType_packetHeader _ _ (by decide))
  · have htype := packetType_packetHeader m.header (BitVec.ofNat 8
      ((m.sink.claimed.length + m.mtu) / (m.mtu - 1)) :: m.signalId ::
        m.sink.claimed.take (m.mtu - 3)) (by decide : avdtpPacketTypeStart ∈ packetTypes)
    rw [hpackets, drop_left, if_neg (by omega), cons_append,
      commands_start r (by rw [htype]; decide) htype]
    refine (commands_fragmentPackets (labelBits_packetHeader m.header _ (by decide))
      (by simp)).trans ?_
    rw [hcuts.flatten]
    simp

theorem commands_flatMap_packets (ms : List SentMessage) :
    commands r (ms.flatMap SentMessage.packets) = ms.flatMap SentMessage.command := by
  induction ms generalizing r with
  | nil => rfl
  | cons m ms ih => rw [flatMap_cons, flatMap_cons, commands_packets, ih]

/-- **What is sent is received.** In every allowed run of the peer, with the packets `inFlight`
still on their way, the commands that were sent are those that were processed, and then those that
the source and the packets on their way still complete. -/
theorem received_of_sent (ms : List SentMessage) (profileVersion : ℕ) {es : List Event}
    (hm : Meets step Allowed (connected profileVersion) es) {c : Channel}
    (hrun : run step (connected profileVersion) es = some c) {inFlight : List (List Byte)}
    (hsent : c.arrived ++ inFlight = ms.flatMap SentMessage.packets) :
    ms.flatMap SentMessage.command = c.conn.processed ++
      commands (partialMessage c.conn) (c.conn.source ++ inFlight) := by
  have hinv : Inv c := invariant_of_meets (fun _ _ _ hs ha hstep => hs.step ha hstep)
    (inv_connected profileVersion) hm hrun
  rw [← hinv.commands, hsent, commands_flatMap_packets]

/-- A discover command, and a configuration command that takes four packets. -/
def sampleMessages : List SentMessage :=
  [⟨8, 0x10, 1, ⟨[], 50, []⟩, by decide, by decide⟩,
    ⟨8, 0x20, 3, sampleSink, by decide, by decide⟩]

/-- The second one is on its way. -/
theorem received_of_sent_sampleMessages :
    ∃ c, run step (connected avdtpVersion13) [.arrive sampleDiscover, .turn sampleTurn] = some c ∧
      sampleMessages.flatMap SentMessage.command = c.conn.processed ++
        commands (partialMessage c.conn) (c.conn.source ++
          (sampleMessages.flatMap SentMessage.packets).tail) := by
  have hm : Meets step Allowed (connected avdtpVersion13)
      [.arrive sampleDiscover, .turn sampleTurn] := by decide +kernel
  exact ⟨_, rfl, received_of_sent sampleMessages avdtpVersion13 hm rfl (by decide +kernel)⟩

end Mh40.A2dp
