import Mh40.Gaia.Framing
import Mh40.Gaia.TransportRfcomm
import Mh40.Lib.Run
import Mathlib.Data.List.Nodup
import Mathlib.Data.List.Perm.Subperm

/-!
# Flow control of the RFCOMM transport

Packets arrive in pieces while the upper layers handle the ones dispatched.

* `receivePacket_eq`: with nothing pending, the first two packets of the source are dispatched.
* `Inv`: the packets of the stream are those consumed, those pending and the rest.
* `flows_of_kept`: packets are dispatched in order and bytes consumed after them, as long as nothing
  arrives after input that was thrown away.
-/

namespace Mh40.Gaia

open Lib List

variable {packets done pending rest fs : List (List Byte)} {tr tr' : Rfcomm} {tail data : List Byte}
  {p : List Byte} {log : List Entry} {e : Entry} {log' : List Entry} {s : System}

/-! ## Reception -/

namespace Rfcomm

/-- Packets are dispatched one after the other. -/
def dispatch (tr : Rfcomm) (ps : List (List Byte)) : Rfcomm :=
  ps.foldl (fun tr p => (tr.processCommand (rxPacket p)).2) tr

@[simp]
theorem dispatch_nil : tr.dispatch [] = tr := rfl

theorem dispatch_cons {ps : List (List Byte)} :
    tr.dispatch (p :: ps) = (tr.processCommand (rxPacket p)).2.dispatch ps := rfl

/-- What dispatching changes. -/
theorem dispatch_eq (ps : List (List Byte)) (hall : ∀ p ∈ ps, WellFormed p) :
    tr.dispatch ps = { tr with
      rxDataPending := tr.rxDataPending + .ofNat 16 (Frames.stream id ps).length
      rxPacketsPending := tr.rxPacketsPending + .ofNat 8 ps.length
      log := tr.log ++ (ps.map rxPacket).map .processCommand } := by
  induction ps generalizing tr with
  | nil =>
    rw [dispatch_nil, Frames.stream_nil, map_nil, map_nil, append_nil]
    exact (congrArg₂ (fun a b => { tr with rxPacketsPending := a, rxDataPending := b })
      (BitVec.add_zero _) (BitVec.add_zero _)).symm
  | cons p ps ih =>
    have hsize : (rxPacket p).pktSize = .ofNat 16 p.length := by
      rw [← (hall p mem_cons_self).rxPktLength_toNat, BitVec.ofNat_toNat, BitVec.setWidth_eq]
      rfl
    have hdata : tr.rxDataPending + (rxPacket p).pktSize +
        .ofNat 16 (Frames.stream id ps).length =
        tr.rxDataPending + .ofNat 16 (Frames.stream id (p :: ps)).length := by
      rw [hsize, BitVec.add_assoc, ← BitVec.ofNat_add, ← length_append]
      rfl
    have hpackets : tr.rxPacketsPending + 1 + .ofNat 8 ps.length =
        tr.rxPacketsPending + .ofNat 8 (p :: ps).length := by
      rw [BitVec.add_assoc, length_cons, Nat.add_comm ps.length 1, BitVec.ofNat_add]
      rfl
    rw [dispatch_cons, ih fun q hq => hall q (mem_cons_of_mem p hq)]
    unfold processCommand
    dsimp only
    rw [hdata, hpackets, append_assoc]
    rfl

/-- The loop stops after the packets that may be pending. -/
theorem receiveLoop_dispatch (hall : ∀ p ∈ fs, WellFormed p)
    (hcut : Frames.Cut id fs data done rest tail) (hlt : tr.rxPacketsPending.toNat < maxRxPendingPkts)
    {fuel consumed : ℕ} (hfuel : data.length < fuel) :
    ∃ consumed', receiveLoop processCommand fuel tr consumed data =
      some ⟨tr.dispatch (done.take (maxRxPendingPkts - tr.rxPacketsPending.toNat)), consumed',
        none⟩ := by
  obtain ⟨rfl, rfl, htail, hincomplete⟩ := hcut
  induction done generalizing tr consumed fuel with
  | nil =>
    obtain ⟨fuel, rfl⟩ : ∃ n, fuel = n + 1 := ⟨fuel - 1, by omega⟩
    rw [take_nil, dispatch_nil]
    refine ⟨consumed, ?_⟩
    cases rest with
    | nil =>
      obtain rfl := prefix_nil.mp htail
      rfl
    | cons q rest =>
      have hlen := hincomplete q rfl
      exact (hall q mem_cons_self).receiveLoop_part
        (prefix_of_prefix_length_le htail (prefix_append ..) hlen.le) hlen
  | cons q done ih =>
    obtain ⟨fuel, rfl⟩ : ∃ n, fuel = n + 1 := ⟨fuel - 1, by omega⟩
    have hq := hall q mem_cons_self
    have h8 : 8 ≤ q.length := hq.offsPayload_le
    have hpending : (tr.processCommand (rxPacket q)).2.rxPacketsPending.toNat =
        tr.rxPacketsPending.toNat + 1 := by
      unfold maxRxPendingPkts at hlt
      change (tr.rxPacketsPending + 1).toNat = _
      rw [BitVec.toNat_add]
      exact Nat.mod_eq_of_lt (by simp; omega)
    have htake : (q :: done).take (maxRxPendingPkts - tr.rxPacketsPending.toNat) =
        q :: done.take (maxRxPendingPkts - (tr.rxPacketsPending.toNat + 1)) := by
      rw [← take_succ_cons]
      congr 1
      omega
    rw [Frames.stream_cons, append_assoc] at hfuel ⊢
    rw [length_append] at hfuel
    rw [id_eq] at hfuel ⊢
    rw [hq.receiveLoop_append, htake, dispatch_cons]
    by_cases hmore : tr.rxPacketsPending.toNat + 1 < maxRxPendingPkts
    · have hflag : (tr.processCommand (rxPacket q)).1 = true := by
        refine decide_eq_true ?_
        rw [← hpending] at hmore
        exact hmore
      rw [if_pos hflag, ← hpending]
      exact ih (hpending ▸ hmore) (fun p hp => hall p (mem_cons_of_mem q hp)) (by omega)
    · have hflag : ¬ (tr.processCommand (rxPacket q)).1 = true := by
        intro h
        have hlt' := of_decide_eq_true h
        exact hmore (hpending ▸ hlt')
      have hzero : maxRxPendingPkts - (tr.rxPacketsPending.toNat + 1) = 0 := by omega
      rw [if_neg hflag, hzero, take_zero, dispatch_nil]
      exact ⟨consumed, rfl⟩

/-- **Reception.** With nothing pending, the first packets of the source are dispatched. -/
theorem receivePacket_eq (hall : ∀ p ∈ fs, WellFormed p)
    (hcut : Frames.Cut id fs tr.source done rest tail) (hpackets : tr.rxPacketsPending = 0)
    (hdata : tr.rxDataPending = 0) :
    tr.receivePacket = some (tr.dispatch (done.take maxRxPendingPkts)) := by
  unfold receivePacket
  rw [if_pos hdata]
  by_cases hsource : tr.source.length ≠ 0
  · obtain ⟨consumed, hloop⟩ := @receiveLoop_dispatch _ _ _ tr _ _ hall hcut
      (by rw [hpackets]; decide) _ 0 (Nat.lt_succ_self _)
    rw [hpackets] at hloop
    rw [if_pos hsource]
    unfold Gaia.receivePacket
    rw [hloop]
    rfl
  · rw [if_neg hsource]
    cases done with
    | nil => rfl
    | cons q done =>
      have h8 : 8 ≤ q.length := (hall q (by rw [hcut.frames]; exact mem_cons_self)).offsPayload_le
      have hdata := congrArg List.length hcut.data_eq
      rw [Frames.stream_cons, id_eq, length_append, length_append] at hdata
      omega

end Rfcomm

/-! ## What has been done -/

/-- The bytes taken off the source behind the packets that covered them. -/
def consumed (log : List Entry) : List Byte :=
  log.flatMap fun
    | .dataConsumed data => data
    | _ => []

/-- Input has been thrown away. -/
def isDropped (log : List Entry) : Bool :=
  log.any fun
    | .inputFlushed _ => true
    | _ => false

/-- The entry takes bytes off the source, or reports a disconnection. -/
def Entry.isFinal : Entry → Bool
  | .dataConsumed _ | .inputFlushed _ | .disconnectCfm true | .disconnectInd => true
  | _ => false

/-- Every packet that has been dispatched has been handled. -/
def Settled (log : List Entry) : Prop := ∀ i < (dispatched log).length, i ∈ handled log

/-- Bytes are consumed, and disconnections reported, when every packet dispatched before has been
handled. -/
def Ordered (log : List Entry) : Prop :=
  ∀ before e, before ++ [e] <+: log → e.isFinal = true → Settled before

theorem ordered_concat : Ordered (log ++ [e]) ↔
    Ordered log ∧ (e.isFinal = true → Settled log) := by
  constructor
  · intro h
    exact ⟨fun before e' hbefore => h before e' (hbefore.trans (prefix_append ..)),
      fun he => h log e prefix_rfl he⟩
  · rintro ⟨h, he⟩ before e' hbefore hfinal
    rcases prefix_concat_iff.mp hbefore with heq | hlog
    · obtain ⟨rfl, hsingle⟩ := append_inj' heq rfl
      obtain rfl := singleton_inj.mp hsingle
      exact he hfinal
    · exact h before e' hlog hfinal

/-- Packets that are dispatched are in order. -/
theorem Ordered.append_processCommand {ps : List Packet} (h : Ordered log) :
    Ordered (log ++ ps.map .processCommand) := by
  induction ps using List.reverseRecOn with
  | nil => rwa [map_nil, append_nil]
  | append_singleton ps q ih =>
    rw [map_append, ← append_assoc]
    exact ordered_concat.mpr ⟨ih, fun hfinal => absurd hfinal Bool.false_ne_true⟩

@[simp]
theorem dispatched_append :
    dispatched (log ++ log') = dispatched log ++ dispatched log' :=
  filterMap_append

@[simp]
theorem handled_append : handled (log ++ log') = handled log ++ handled log' :=
  filterMap_append

@[simp]
theorem consumed_append :
    consumed (log ++ log') = consumed log ++ consumed log' :=
  flatMap_append

@[simp]
theorem isDropped_append :
    isDropped (log ++ log') = (isDropped log || isDropped log') :=
  any_append

/-! The entries of packets that are dispatched. -/

theorem dispatched_processCommand (ps : List Packet) :
    dispatched (ps.map .processCommand) = ps := by
  induction ps with
  | nil => rfl
  | cons q ps ih => exact congrArg (q :: ·) ih

theorem handled_processCommand (ps : List Packet) : handled (ps.map .processCommand) = [] := by
  induction ps with
  | nil => rfl
  | cons q ps ih => exact ih

theorem consumed_processCommand (ps : List Packet) : consumed (ps.map .processCommand) = [] := by
  induction ps with
  | nil => rfl
  | cons q ps ih => exact ih

theorem isDropped_processCommand (ps : List Packet) :
    isDropped (ps.map .processCommand) = false := by
  induction ps with
  | nil => rfl
  | cons q ps ih => exact ih

/-- Numbers below `n`, `n` of them and all different, are all the numbers below `n`. -/
theorem mem_of_lt_of_nodup {l : List ℕ} {n : ℕ} (hnodup : l.Nodup) (hlt : ∀ i ∈ l, i < n)
    (hlength : l.length = n) : ∀ i < n, i ∈ l := by
  intro i hi
  have hsub : l.Subperm (List.range n) :=
    hnodup.subperm fun j hj => mem_range.mpr (hlt j hj)
  have hperm : l.Perm (List.range n) :=
    hsub.perm_of_length_le (by rw [length_range, hlength])
  exact hperm.mem_iff.mpr (mem_range.mpr hi)

/-! ## The invariant -/

/-- The packets of the stream are those consumed, those pending and the rest. -/
structure Inv (packets : List (List Byte)) (incoming : List Byte) (tr : Rfcomm)
    (done pending rest : List (List Byte)) : Prop where
  packets_eq : packets = done ++ pending ++ rest
  dispatched_eq : dispatched tr.log = (done ++ pending).map rxPacket
  nodup : (handled tr.log).Nodup
  handled_lt : ∀ i ∈ handled tr.log, i < (dispatched tr.log).length
  count : tr.rxPacketsPending.toNat + (handled tr.log).length = (dispatched tr.log).length
  pending_le : pending.length ≤ maxRxPendingPkts
  count_le : tr.rxPacketsPending.toNat ≤ pending.length
  pending_nil : tr.rxPacketsPending.toNat = 0 → pending = []
  rxDataPending : tr.rxDataPending.toNat = (Frames.stream id pending).length
  consumed_eq : consumed tr.log = Frames.stream id done
  source : isDropped tr.log = false →
    tr.source ++ incoming = Frames.stream id (pending ++ rest) ∧
      Frames.stream id pending <+: tr.source
  dropped : isDropped tr.log = true → tr.source = [] ∧ pending = []
  ordered : Ordered tr.log
  fits : tr.source.length < 2 ^ 16

/-- With nothing pending, the source does not hold the next packet. -/
def Idle (tr : Rfcomm) (pending rest : List (List Byte)) : Prop :=
  pending = [] → ∀ p ∈ rest.head?, tr.source.length < p.length

theorem Idle.of_le (h : Idle tr pending rest) (hle : tr'.source.length ≤ tr.source.length) :
    Idle tr' pending rest := fun hpending p hp => Nat.lt_of_le_of_lt hle (h hpending p hp)

section Inv

variable {incoming : List Byte} {i : ℕ}

/-- With nothing pending, all packets have been handled. -/
theorem Inv.settled (h : Inv packets incoming tr done [] rest) : Settled tr.log := by
  have hzero : tr.rxPacketsPending.toNat = 0 := Nat.le_zero.mp h.count_le
  refine mem_of_lt_of_nodup h.nodup h.handled_lt ?_
  rw [← h.count, hzero, Nat.zero_add]

/-- With nothing pending, both counters are zero. -/
theorem Inv.counters (h : Inv packets incoming tr done [] rest) :
    tr.rxPacketsPending = 0#8 ∧ tr.rxDataPending = 0#16 :=
  ⟨BitVec.eq_of_toNat_eq (Nat.le_zero.mp h.count_le), BitVec.eq_of_toNat_eq h.rxDataPending⟩

/-- No byte is pending only if no packet is. -/
theorem Inv.pending_eq_nil (hall : ∀ p ∈ packets, WellFormed p)
    (h : Inv packets incoming tr done pending rest) (hdata : tr.rxDataPending = 0#16) :
    pending = [] := by
  have hlength := h.rxDataPending
  rw [hdata] at hlength
  cases hpending : pending with
  | nil => rfl
  | cons p ps =>
    have hp : p ∈ packets := by
      rw [h.packets_eq, hpending]
      exact mem_append_left _ (mem_append_right _ mem_cons_self)
    have h8 : 8 ≤ p.length := (hall p hp).offsPayload_le
    have hzero : (0#16).toNat = 0 := rfl
    rw [hpending, Frames.stream_cons, length_append, id_eq] at hlength
    omega

section

variable (h : Inv packets incoming tr done pending rest)
include h

/-- The state of the transport is free. -/
theorem Inv.set_state (state : TransportState) :
    Inv packets incoming { tr with state := state } done pending rest :=
  ⟨h.packets_eq, h.dispatched_eq, h.nodup, h.handled_lt, h.count, h.pending_le, h.count_le,
    h.pending_nil, h.rxDataPending, h.consumed_eq, h.source, h.dropped, h.ordered, h.fits⟩

/-- An entry that neither dispatches nor consumes. -/
theorem Inv.entry {source : List Byte}
    (he : dispatched [e] = [] ∧ handled [e] = [] ∧ consumed [e] = [])
    (hfinal : e.isFinal = true → pending = [])
    (hsource : (isDropped [e] = false ∧ source = tr.source) ∨
      (isDropped [e] = true ∧ source = [] ∧ pending = [])) :
    Inv packets incoming { tr with source := source, log := tr.log ++ [e] } done pending rest := by
  obtain ⟨hdispatched, hhandled, hconsumed⟩ := he
  have hd : dispatched (tr.log ++ [e]) = dispatched tr.log := by
    rw [dispatched_append, hdispatched, append_nil]
  have hh : handled (tr.log ++ [e]) = handled tr.log := by
    rw [handled_append, hhandled, append_nil]
  have hc : consumed (tr.log ++ [e]) = consumed tr.log := by
    rw [consumed_append, hconsumed, append_nil]
  have hx : isDropped (tr.log ++ [e]) = (isDropped tr.log || isDropped [e]) := isDropped_append
  refine ⟨h.packets_eq, hd.trans h.dispatched_eq, hh ▸ h.nodup, ?_, ?_, h.pending_le, h.count_le,
    h.pending_nil, h.rxDataPending, hc.trans h.consumed_eq, ?_, ?_, ?_, ?_⟩
  · dsimp only
    rw [hh, hd]
    exact h.handled_lt
  · dsimp only
    rw [hh, hd]
    exact h.count
  · intro hfalse
    rw [hx, Bool.or_eq_false_iff] at hfalse
    rcases hsource with ⟨-, rfl⟩ | ⟨htrue, -⟩
    · exact h.source hfalse.1
    · rw [htrue] at hfalse
      cases hfalse.2
  · intro htrue
    rcases hsource with ⟨hfalse, rfl⟩ | ⟨-, rfl, hpending⟩
    · rw [hx, hfalse, Bool.or_false] at htrue
      exact h.dropped htrue
    · exact ⟨rfl, hpending⟩
  · refine ordered_concat.mpr ⟨h.ordered, fun hf => ?_⟩
    obtain rfl := hfinal hf
    exact h.settled
  · rcases hsource with ⟨-, rfl⟩ | ⟨-, rfl, -⟩
    · exact h.fits
    · exact Nat.two_pow_pos 16

/-- An entry that reports to the client. -/
theorem Inv.report (he : (∃ success, e = .disconnectCfm success) ∨ e = .disconnectInd)
    (hfinal : e.isFinal = true → pending = []) :
    Inv packets incoming { tr with log := tr.log ++ [e] } done pending rest := by
  rcases he with ⟨success, rfl⟩ | rfl <;>
    exact h.entry ⟨rfl, rfl, rfl⟩ hfinal (.inl ⟨rfl, rfl⟩)

end

/-- Input is thrown away when nothing is pending. -/
theorem Inv.flushInput (h : Inv packets incoming tr done [] rest) :
    Inv packets incoming tr.flushInput done [] rest ∧ tr.flushInput.source = [] := by
  unfold Rfcomm.flushInput
  by_cases hsource : tr.source.length ≠ 0
  · rw [if_pos hsource]
    exact ⟨h.entry ⟨rfl, rfl, rfl⟩ (fun _ => rfl) (.inr ⟨rfl, rfl, rfl⟩), rfl⟩
  · rw [if_neg hsource]
    exact ⟨h, length_eq_zero_iff.mp (not_not.mp hsource)⟩

/-- With nothing pending, packets at the start of the source are dispatched. -/
theorem Inv.dispatch {ps : List (List Byte)} (hall : ∀ p ∈ packets, WellFormed p)
    (h : Inv packets incoming tr done [] (ps ++ rest)) (hdropped : isDropped tr.log = false)
    (hle : ps.length ≤ maxRxPendingPkts) (hpre : Frames.stream id ps <+: tr.source) :
    Inv packets incoming (tr.dispatch ps) done ps rest := by
  have hpackets : packets = done ++ ps ++ rest := by
    rw [h.packets_eq, append_nil, append_assoc]
  have hwf : ∀ p ∈ ps, WellFormed p := fun p hp =>
    hall p (hpackets ▸ mem_append_left _ (mem_append_right _ hp))
  obtain ⟨hzero, hdata⟩ := h.counters
  have hcount := h.count
  have hlt : (Frames.stream id ps).length < 2 ^ 16 :=
    Nat.lt_of_le_of_lt hpre.length_le h.fits
  have hpending : (0#8 + .ofNat 8 ps.length).toNat = ps.length := by
    unfold maxRxPendingPkts at hle
    rw [BitVec.zero_add, BitVec.toNat_ofNat]
    exact Nat.mod_eq_of_lt (by omega)
  have hd := dispatched_processCommand (ps.map rxPacket)
  have hh := handled_processCommand (ps.map rxPacket)
  have hc := consumed_processCommand (ps.map rxPacket)
  have hx := isDropped_processCommand (ps.map rxPacket)
  rw [Rfcomm.dispatch_eq ps hwf, hzero, hdata]
  refine ⟨hpackets, ?_, ?_, ?_, ?_, hle, hpending.le, ?_, ?_, ?_, fun _ => ?_, ?_,
    h.ordered.append_processCommand, h.fits⟩
  · rw [dispatched_append, hd, h.dispatched_eq, append_nil, map_append]
  · rw [handled_append, hh, append_nil]
    exact h.nodup
  · rw [handled_append, hh, append_nil, dispatched_append, length_append]
    exact fun i hi => Nat.lt_add_right _ (h.handled_lt i hi)
  · rw [handled_append, hh, append_nil, dispatched_append, hd, length_append, hpending,
      length_map, ← hcount, hzero]
    exact (Nat.add_comm ..).trans (by rw [BitVec.toNat_zero, Nat.zero_add])
  · intro h0
    exact length_eq_zero_iff.mp (hpending ▸ h0)
  · dsimp only
    rw [BitVec.zero_add, BitVec.toNat_ofNat]
    exact Nat.mod_eq_of_lt hlt
  · rw [consumed_append, hc, append_nil]
    exact h.consumed_eq
  · exact ⟨(h.source hdropped).1, hpre⟩
  · rw [isDropped_append, hx, hdropped]
    intro hfalse
    cases hfalse

/-- With nothing pending, the source is searched for packets. -/
theorem Inv.receivePacket (hall : ∀ p ∈ packets, WellFormed p)
    (h : Inv packets incoming tr done pending rest) :
    ∃ tr' pending' rest', tr.receivePacket = some tr' ∧
      Inv packets incoming tr' done pending' rest' ∧ Idle tr' pending' rest' ∧
      tr'.state = tr.state ∧ isDropped tr'.log = isDropped tr.log := by
  have hwf : ∀ p ∈ pending ++ rest, WellFormed p := fun p hp =>
    hall p (by rw [h.packets_eq, append_assoc]; exact mem_append_right _ hp)
  by_cases hpending : pending = []
  · obtain rfl := hpending
    by_cases hdropped : isDropped tr.log = true
    · have hsource := (h.dropped hdropped).1
      refine ⟨tr, [], rest, ?_, h, fun _ p hp => ?_, rfl, rfl⟩
      · unfold Rfcomm.receivePacket
        rw [hsource]
        split_ifs <;> rfl
      · have h8 : 8 ≤ p.length := (hwf p (mem_of_mem_head? hp)).offsPayload_le
        rw [hsource]
        exact Nat.lt_of_lt_of_le (by decide) h8
    · have hdropped := Bool.eq_false_iff.mpr hdropped
      obtain ⟨hzero, hdata⟩ := h.counters
      have hsource : tr.source <+: Frames.stream id rest := ⟨incoming, (h.source hdropped).1⟩
      obtain ⟨found, left, tail, hcut⟩ := Frames.exists_cut id hsource
      have hsplit : rest =
          found.take maxRxPendingPkts ++ (found.drop maxRxPendingPkts ++ left) := by
        rw [← append_assoc, take_append_drop, hcut.frames]
      have hpre : Frames.stream id (found.take maxRxPendingPkts) <+: tr.source := by
        rw [hcut.data_eq]
        conv => rhs; rw [← take_append_drop maxRxPendingPkts found]
        rw [Frames.stream_append, append_assoc]
        exact prefix_append _ _
      have hfound : ∀ p ∈ found.take maxRxPendingPkts, WellFormed p := fun p hp =>
        hwf p (by rw [nil_append, hsplit]; exact mem_append_left _ hp)
      refine ⟨_, found.take maxRxPendingPkts, found.drop maxRxPendingPkts ++ left,
        Rfcomm.receivePacket_eq hwf hcut hzero hdata,
        (hsplit ▸ h).dispatch hall hdropped (length_take_le _ _) hpre,
        fun hnil p hp => ?_, ?_, ?_⟩
      · have hfound : found = [] :=
          (take_eq_nil_iff.mp hnil).resolve_left (by decide)
        obtain rfl := hfound
        have htail : tr.source = tail := hcut.data_eq
        rw [take_nil, Rfcomm.dispatch_nil, htail]
        exact hcut.incomplete p hp
      · rw [Rfcomm.dispatch_eq _ hfound]
      · rw [Rfcomm.dispatch_eq _ hfound, isDropped_append, hdropped, Bool.false_or]
        exact isDropped_processCommand _
  · have hdata : tr.rxDataPending ≠ 0 := fun h0 => hpending (h.pending_eq_nil hall h0)
    refine ⟨tr, pending, rest, ?_, h, fun hnil => (hpending hnil).elim, rfl, rfl⟩
    unfold Rfcomm.receivePacket
    rw [if_neg hdata]

section

variable (h : Inv packets incoming tr done pending rest)
include h

/-- Some packet has not been handled. -/
theorem Inv.count_pos (hi : i < (dispatched tr.log).length) (hnot : i ∉ handled tr.log) :
    0 < tr.rxPacketsPending.toNat := by
  have hcount := h.count
  have hne : (handled tr.log).length ≠ (dispatched tr.log).length := fun heq =>
    hnot (mem_of_lt_of_nodup h.nodup h.handled_lt heq i hi)
  omega

/-- What is known of the packets handled, after one more. -/
theorem Inv.handled_concat (hi : i < (dispatched tr.log).length) (hnot : i ∉ handled tr.log)
    {log : List Entry} (hd : dispatched log = dispatched tr.log)
    (hh : handled log = handled tr.log ++ [i]) :
    (handled log).Nodup ∧ (∀ j ∈ handled log, j < (dispatched log).length) ∧
      (tr.rxPacketsPending - 1).toNat + (handled log).length = (dispatched log).length := by
  have hpos := h.count_pos hi hnot
  have hcount := h.count
  have hsub : (tr.rxPacketsPending - 1).toNat = tr.rxPacketsPending.toNat - 1 :=
    BitVec.toNat_sub_of_le (by rw [BitVec.le_def]; exact hpos)
  rw [hd, hh]
  refine ⟨?_, ?_, ?_⟩
  · rw [← concat_eq_append]
    exact h.nodup.concat hnot
  · intro j hj
    rcases mem_append.mp hj with hj | hj
    · exact h.handled_lt j hj
    · rwa [mem_singleton.mp hj]
  · rw [length_append, hsub, length_singleton]
    omega

/-- A packet is handled while others are pending. -/
theorem Inv.packetHandled_some (hi : i < (dispatched tr.log).length) (hnot : i ∉ handled tr.log)
    (hne : tr.rxPacketsPending - 1 ≠ 0) :
    Inv packets incoming { tr with
      rxPacketsPending := tr.rxPacketsPending - 1
      log := tr.log ++ [.packetHandled i] } done pending rest ∧ pending ≠ [] := by
  have hd : dispatched (tr.log ++ [.packetHandled i]) = dispatched tr.log := by
    rw [dispatched_append]
    exact append_nil _
  have hc : consumed (tr.log ++ [.packetHandled i]) = consumed tr.log := by
    rw [consumed_append]
    exact append_nil _
  have hx : isDropped (tr.log ++ [.packetHandled i]) = isDropped tr.log := by
    rw [isDropped_append]
    exact Bool.or_false _
  obtain ⟨hnodup, hlt, hcount⟩ := h.handled_concat hi hnot hd handled_append
  have hle : (tr.rxPacketsPending - 1).toNat ≤ tr.rxPacketsPending.toNat := by
    rw [BitVec.toNat_sub_of_le (by rw [BitVec.le_def]; exact h.count_pos hi hnot)]
    exact Nat.sub_le _ _
  refine ⟨⟨h.packets_eq, hd.trans h.dispatched_eq, hnodup, hlt, hcount, h.pending_le,
    Nat.le_trans hle h.count_le, fun h0 => (hne (BitVec.eq_of_toNat_eq h0)).elim, h.rxDataPending,
    hc.trans h.consumed_eq, hx ▸ h.source, hx ▸ h.dropped,
    ordered_concat.mpr ⟨h.ordered, fun hf => absurd hf Bool.false_ne_true⟩, h.fits⟩, ?_⟩
  rintro rfl
  have hpos := h.count_pos hi hnot
  have hcount_le := h.count_le
  rw [length_nil] at hcount_le
  omega

/-- The last pending packet is handled. -/
theorem Inv.packetHandled_last (hi : i < (dispatched tr.log).length) (hnot : i ∉ handled tr.log)
    (hzero : tr.rxPacketsPending - 1 = 0) :
    Inv packets incoming { ({ tr with
      rxPacketsPending := tr.rxPacketsPending - 1
      log := tr.log ++ [.packetHandled i] } : Rfcomm).dataConsumed tr.rxDataPending.toNat with
      rxDataPending := 0 } (done ++ pending) [] rest := by
  have hpos := h.count_pos hi hnot
  have hdropped : isDropped tr.log = false := by
    refine Bool.eq_false_iff.mpr fun htrue => ?_
    obtain rfl := (h.dropped htrue).2
    have hcount_le := h.count_le
    rw [length_nil] at hcount_le
    omega
  obtain ⟨hstream, hpre⟩ := h.source hdropped
  obtain ⟨left, hleft⟩ := hpre
  have hle : (Frames.stream id pending).length ≤ tr.source.length := by
    rw [← hleft, length_append]
    exact Nat.le_add_right _ _
  have htake : tr.source.take (Frames.stream id pending).length = Frames.stream id pending := by
    rw [← hleft, take_left]
  have hdrop : tr.source.drop (Frames.stream id pending).length = left := by
    rw [← hleft, drop_left]
  have hlog : tr.log ++ [.packetHandled i] ++ [.dataConsumed (Frames.stream id pending)] =
      tr.log ++ [.packetHandled i, .dataConsumed (Frames.stream id pending)] := by
    rw [append_assoc]
    rfl
  have hd : dispatched (tr.log ++ [.packetHandled i, .dataConsumed (Frames.stream id pending)]) =
      dispatched tr.log := by
    rw [dispatched_append]
    exact append_nil _
  have hc : consumed (tr.log ++ [.packetHandled i, .dataConsumed (Frames.stream id pending)]) =
      Frames.stream id (done ++ pending) := by
    rw [consumed_append, h.consumed_eq, Frames.stream_append]
    exact congrArg (_ ++ ·) (append_nil _)
  have hx : isDropped (tr.log ++ [.packetHandled i, .dataConsumed (Frames.stream id pending)]) =
      false := by
    rw [isDropped_append, hdropped]
    rfl
  obtain ⟨hnodup, hlt, hcount⟩ := h.handled_concat hi hnot hd handled_append
  have hsettled : Settled (tr.log ++ [.packetHandled i]) := by
    have hd : dispatched (tr.log ++ [.packetHandled i]) = dispatched tr.log := by
      rw [dispatched_append]
      exact append_nil _
    obtain ⟨hnodup, hlt, hcount⟩ := h.handled_concat hi hnot hd handled_append
    refine mem_of_lt_of_nodup hnodup hlt ?_
    rw [← hcount, hzero]
    exact (Nat.zero_add _).symm
  unfold Rfcomm.dataConsumed
  rw [h.rxDataPending, if_pos hle]
  dsimp only
  rw [htake, hdrop, hlog]
  refine ⟨by rw [h.packets_eq, append_nil], ?_, hnodup, hlt, hcount, Nat.zero_le _, ?_,
    fun _ => rfl, rfl, hc, fun _ => ?_, ?_, ?_, ?_⟩
  · rw [hd, h.dispatched_eq, append_nil]
  · rw [hzero]
    exact Nat.le_refl 0
  · rw [← hleft, Frames.stream_append, append_assoc] at hstream
    exact ⟨append_cancel_left hstream, nil_prefix⟩
  · intro htrue
    rw [hx] at htrue
    cases htrue
  · rw [← hlog]
    refine ordered_concat.mpr ⟨ordered_concat.mpr ⟨h.ordered, fun hf => ?_⟩, fun _ => hsettled⟩
    exact absurd hf Bool.false_ne_true
  · refine Nat.lt_of_le_of_lt ?_ h.fits
    rw [← hleft, length_append]
    exact Nat.le_add_left _ _

end

/-- A packet is handled: the last one lets the source be searched again. -/
theorem Inv.packetHandled (hall : ∀ p ∈ packets, WellFormed p)
    (h : Inv packets incoming tr done pending rest) (hi : i < (dispatched tr.log).length)
    (hnot : i ∉ handled tr.log) (hconnected : tr.state = .connected → isDropped tr.log = false) :
    ∃ tr' done' pending' rest', tr.packetHandled i = some tr' ∧
      Inv packets incoming tr' done' pending' rest' ∧ Idle tr' pending' rest' ∧
      (tr'.state = .connected → isDropped tr'.log = false) := by
  unfold Rfcomm.packetHandled
  rw [if_pos (h.count_pos hi hnot)]
  dsimp only
  by_cases hzero : tr.rxPacketsPending - 1 = 0
  · rw [if_pos hzero]
    have hlast := h.packetHandled_last hi hnot hzero
    generalize hmid : ({ ({ tr with
      rxPacketsPending := tr.rxPacketsPending - 1
      log := tr.log ++ [.packetHandled i] } : Rfcomm).dataConsumed tr.rxDataPending.toNat with
      rxDataPending := 0 } : Rfcomm) = mid at hlast ⊢
    have hstate : mid.state = tr.state ∧ isDropped mid.log = isDropped tr.log := by
      rw [← hmid]
      unfold Rfcomm.dataConsumed
      split_ifs
      · refine ⟨rfl, ?_⟩
        dsimp only
        rw [isDropped_append, isDropped_append]
        exact (Bool.or_false _).trans (Bool.or_false _)
      · refine ⟨rfl, ?_⟩
        dsimp only
        rw [isDropped_append]
        exact Bool.or_false _
    by_cases hmidConnected : mid.isConnected = true
    · rw [if_pos hmidConnected]
      obtain ⟨tr', pending', rest', hrec, hinv, hidle, hst, hdr⟩ := hlast.receivePacket hall
      refine ⟨tr', _, pending', rest', hrec, hinv, hidle, fun hc => ?_⟩
      rw [hdr, hstate.2]
      exact hconnected (by rw [← hstate.1, ← hst, hc])
    · rw [if_neg hmidConnected]
      obtain ⟨tr', pending', rest', hrec, hinv, hidle, hst, -⟩ :=
        hlast.flushInput.1.receivePacket hall
      refine ⟨tr', _, pending', rest', hrec, hinv, hidle, fun hc => ?_⟩
      refine (hmidConnected (decide_eq_true ?_)).elim
      have hflush : mid.flushInput.state = mid.state := by
        unfold Rfcomm.flushInput
        split_ifs <;> rfl
      rw [← hflush, ← hst, hc]
  · rw [if_neg hzero]
    obtain ⟨hinv, hne⟩ := h.packetHandled_some hi hnot hzero
    refine ⟨_, done, pending, rest, rfl, hinv, fun hnil => (hne hnil).elim, fun hc => ?_⟩
    dsimp only
    rw [isDropped_append, hconnected hc]
    rfl

/-- The link is reported as disconnected, or the report waits for the pending packets. -/
theorem Inv.linkDisconnectedCfm (hall : ∀ p ∈ packets, WellFormed p)
    (h : Inv packets incoming tr done pending rest) (status : Bool)
    (hconnected : tr.state = .connected → isDropped tr.log = false) :
    Inv packets incoming (tr.linkDisconnectedCfm status).1 done pending rest ∧
      (tr.linkDisconnectedCfm status).1.source.length ≤ tr.source.length ∧
      ((tr.linkDisconnectedCfm status).1.state = .connected →
        isDropped (tr.linkDisconnectedCfm status).1.log = false) := by
  unfold Rfcomm.linkDisconnectedCfm
  cases status with
  | false =>
    rw [if_neg Bool.false_ne_true]
    refine ⟨h.report (.inl ⟨false, rfl⟩) fun hf => absurd hf Bool.false_ne_true, Nat.le_refl _,
      fun hc => ?_⟩
    exact isDropped_append.trans (congrArg (· || false) (hconnected hc))
  | true =>
    rw [if_pos rfl]
    by_cases hdata : tr.rxDataPending ≠ 0
    · rw [if_pos hdata]
      exact ⟨h, Nat.le_refl _, hconnected⟩
    · rw [if_neg hdata]
      obtain rfl := h.pending_eq_nil hall (not_not.mp hdata)
      obtain ⟨hflush, hsource⟩ := h.flushInput
      have hle : tr.flushInput.source.length ≤ tr.source.length := by
        rw [hsource]
        exact Nat.zero_le _
      dsimp only
      by_cases hstate : tr.flushInput.state = .disconnecting
      · rw [if_pos hstate]
        exact ⟨(hflush.report (.inl ⟨true, rfl⟩) fun _ => rfl).set_state .started, hle,
          fun hc => by cases hc⟩
      · rw [if_neg hstate]
        unfold Rfcomm.disconnectInd
        rw [if_neg hstate]
        exact ⟨(hflush.report (.inr rfl) fun _ => rfl).set_state .started, hle,
          fun hc => by cases hc⟩

/-- A request to disconnect changes the state, or is answered. -/
theorem Inv.disconnectReq (h : Inv packets incoming tr done pending rest) :
    Inv packets incoming tr.disconnectReq done pending rest ∧
      tr.disconnectReq.source = tr.source ∧
      (tr.disconnectReq.state = .connected → isDropped tr.disconnectReq.log = false) := by
  unfold Rfcomm.disconnectReq
  by_cases hstate : tr.state = .connected
  · rw [if_pos hstate]
    exact ⟨h.set_state .disconnecting, rfl, fun hc => by cases hc⟩
  · rw [if_neg hstate]
    exact ⟨h.report (.inl ⟨false, rfl⟩) fun hf => absurd hf Bool.false_ne_true, rfl,
      fun hc => (hstate hc).elim⟩

/-- Bytes arrive in the source. -/
theorem Inv.arrive (h : Inv packets incoming tr done pending rest) {n : ℕ}
    (hn : n ≤ incoming.length) (hfits : tr.source.length + n < 2 ^ 16)
    (hkept : isDropped tr.log = false) :
    Inv packets (incoming.drop n) { tr with source := tr.source ++ incoming.take n } done pending
      rest := by
  obtain ⟨hstream, hpre⟩ := h.source hkept
  refine ⟨h.packets_eq, h.dispatched_eq, h.nodup, h.handled_lt, h.count, h.pending_le, h.count_le,
    h.pending_nil, h.rxDataPending, h.consumed_eq, fun _ => ⟨?_, ?_⟩, fun htrue => ?_, h.ordered,
    ?_⟩
  · dsimp only
    rw [append_assoc, take_append_drop, hstream]
  · exact hpre.trans (prefix_append _ _)
  · rw [hkept] at htrue
    cases htrue
  · dsimp only
    rwa [length_append, length_take, Nat.min_eq_left hn]

end Inv

/-! ## Runs -/

/-- The packets of the stream are accounted for, and the source does not hold the next one when
nothing is on its way. -/
structure Good (packets : List (List Byte)) (s : System) : Prop where
  accounted : ∃ done pending rest, Inv packets s.incoming s.tr done pending rest ∧
    (s.moreData = false → Idle s.tr pending rest)
  connected : s.tr.state = .connected → isDropped s.tr.log = false

/-- Nothing arrives once input has been thrown away. -/
def Kept (s : System) : Event → Prop
  | .arrive _ => isDropped s.tr.log = false
  | _ => True

instance (s : System) : ∀ event, Decidable (Kept s event)
  | .arrive _ => inferInstanceAs (Decidable (_ = _))
  | .moreData | .packetHandled _ | .disconnectReq | .insufficientSpace | .linkDisconnectedCfm _
  | .deferredCfm => .isTrue trivial

theorem good_init : Good packets (.init (Frames.stream id packets)) := by
  refine ⟨⟨[], [], packets, ⟨rfl, rfl, nodup_nil, fun i hi => ?_, rfl, Nat.zero_le _,
    Nat.le_refl _, fun _ => rfl, rfl, rfl, fun _ => ⟨rfl, nil_prefix⟩, fun h => ?_,
    fun before e hbefore => ?_, Nat.two_pow_pos 16⟩, fun h => ?_⟩, fun _ => rfl⟩
  · cases hi
  · cases h
  · exact absurd (prefix_nil.mp hbefore) (by simp)
  · cases h

/-- **Step.** An event that can happen is survived, and the packets stay accounted for. -/
theorem step_good (hall : ∀ p ∈ packets, WellFormed p) (h : Good packets s) {event : Event}
    (henabled : Enabled s event) (hkept : Kept s event) :
    ∃ s', step s event = some s' ∧ Good packets s' := by
  obtain ⟨⟨done, pending, rest, hinv, hidle⟩, hconnected⟩ := h
  unfold step
  rw [if_pos henabled]
  cases event with
  | arrive n =>
    exact ⟨_, rfl, ⟨done, pending, rest, hinv.arrive henabled.1 henabled.2 hkept,
      fun hfalse => by cases hfalse⟩, fun _ => hkept⟩
  | moreData =>
    obtain ⟨tr', pending', rest', hrec, hinv', hidle', hst, hdr⟩ := hinv.receivePacket hall
    refine ⟨_, congrArg (Option.map _) hrec, ⟨done, pending', rest', hinv', fun _ => hidle'⟩,
      fun hc => ?_⟩
    rw [hdr]
    exact hconnected (hst ▸ hc)
  | packetHandled index =>
    obtain ⟨tr', done', pending', rest', hrec, hinv', hidle', hconnected'⟩ :=
      hinv.packetHandled hall henabled.1 henabled.2 hconnected
    exact ⟨_, congrArg (Option.map _) hrec, ⟨done', pending', rest', hinv', fun _ => hidle'⟩,
      hconnected'⟩
  | disconnectReq =>
    obtain ⟨hinv', hsource, hconnected'⟩ := hinv.disconnectReq
    refine ⟨_, rfl, ⟨done, pending, rest, hinv', fun hfalse => ?_⟩, hconnected'⟩
    exact (hidle hfalse).of_le (congrArg List.length hsource).le
  | insufficientSpace =>
    exact ⟨_, rfl, ⟨done, pending, rest, hinv.set_state .error, hidle⟩, fun hc => by cases hc⟩
  | linkDisconnectedCfm status =>
    obtain ⟨hinv', hle, hconnected'⟩ := hinv.linkDisconnectedCfm hall status hconnected
    exact ⟨_, rfl, ⟨done, pending, rest, hinv', fun hfalse => (hidle hfalse).of_le hle⟩,
      hconnected'⟩
  | deferredCfm =>
    obtain ⟨hinv', hle, hconnected'⟩ := hinv.linkDisconnectedCfm hall true hconnected
    exact ⟨_, rfl, ⟨done, pending, rest, hinv', fun hfalse => (hidle hfalse).of_le hle⟩,
      hconnected'⟩

/-! ## Flow -/

/-- What should hold at any time of a run. -/
structure Flows (packets : List (List Byte)) (s : System) : Prop where
  /-- Packets are dispatched once, in the order of the stream. -/
  inOrder : dispatched s.tr.log <+: packets.map rxPacket
  /-- The bytes consumed are those of packets that have been dispatched. -/
  covered : ∃ k ≤ (dispatched s.tr.log).length,
    consumed s.tr.log = Frames.stream id (packets.take k)
  /-- No byte gets lost but for input that is thrown away. -/
  kept : isDropped s.tr.log = false →
    consumed s.tr.log ++ s.tr.source ++ s.incoming = Frames.stream id packets
  /-- Bytes are consumed, and disconnections reported, when all packets have been handled. -/
  ordered : Ordered s.tr.log
  pending_eq : s.tr.rxPacketsPending.toNat + (handled s.tr.log).length =
    (dispatched s.tr.log).length
  pending_le : s.tr.rxPacketsPending.toNat ≤ maxRxPendingPkts
  /-- With nothing pending and nothing on its way, the source holds no complete packet, and those
  that have arrived have been dispatched. -/
  drained : s.tr.rxPacketsPending = 0 → s.moreData = false →
    (∀ p, WellFormed p → ¬ p <+: s.tr.source) ∧
      consumed s.tr.log = Frames.stream id (packets.take (dispatched s.tr.log).length)
  /-- While connected, no input is thrown away. -/
  connected : s.tr.state = .connected → isDropped s.tr.log = false
  /-- No event that can happen panics, or never ends. -/
  live : ∀ event, Enabled s event → (step s event).isSome = true

/-- A source that does not hold the next packet holds no packet. -/
theorem not_prefix_source (hall : ∀ p ∈ packets, WellFormed p)
    (hinv : Inv packets s.incoming s.tr done [] rest) (hidle : Idle s.tr [] rest)
    (hp : WellFormed p) : ¬ p <+: s.tr.source := by
  intro hpre
  have h8 : 8 ≤ p.length := hp.offsPayload_le
  have hle := hpre.length_le
  have hdropped : isDropped s.tr.log = false := by
    refine Bool.eq_false_iff.mpr fun htrue => ?_
    rw [(hinv.dropped htrue).1, length_nil] at hle
    omega
  have hsource : s.tr.source <+: Frames.stream id rest := ⟨s.incoming, (hinv.source hdropped).1⟩
  cases rest with
  | nil =>
    rw [prefix_nil.mp hsource, length_nil] at hle
    omega
  | cons q rest =>
    have hlt := hidle rfl q rfl
    have hq : WellFormed q := hall q (by
      rw [hinv.packets_eq]
      exact mem_append_right _ mem_cons_self)
    have hpart : s.tr.source <+: q :=
      prefix_of_prefix_length_le hsource (prefix_append ..) hlt.le
    obtain rfl := hp.eq_of_prefix hq (hpre.trans hpart)
    omega

theorem Good.flows (hall : ∀ p ∈ packets, WellFormed p) (h : Good packets s) :
    Flows packets s := by
  obtain ⟨done, pending, rest, hinv, hidle⟩ := h.accounted
  have hlength : (dispatched s.tr.log).length = (done ++ pending).length := by
    rw [hinv.dispatched_eq, length_map]
  refine ⟨?_, ⟨done.length, ?_, ?_⟩, fun hkept => ?_, hinv.ordered, hinv.count,
    Nat.le_trans hinv.count_le hinv.pending_le, fun hzero hmore => ?_, h.connected,
    fun event henabled => ?_⟩
  · rw [hinv.dispatched_eq, hinv.packets_eq]
    exact (prefix_append _ _).map _
  · rw [hlength, length_append]
    exact Nat.le_add_right _ _
  · rw [hinv.consumed_eq, hinv.packets_eq, append_assoc, take_left]
  · rw [hinv.consumed_eq, append_assoc, (hinv.source hkept).1, hinv.packets_eq,
      append_assoc, Frames.stream_append, Frames.stream_append, Frames.stream_append]
  · obtain rfl := hinv.pending_nil (by rw [hzero]; rfl)
    refine ⟨fun p hp => not_prefix_source hall hinv (hidle hmore) hp, ?_⟩
    rw [hlength, hinv.consumed_eq, hinv.packets_eq, take_left, append_nil]
  · by_cases hkept : Kept s event
    · obtain ⟨s', hs', -⟩ := step_good hall h henabled hkept
      rw [hs']
      rfl
    · cases event with
      | arrive n =>
        unfold step
        rw [if_pos henabled]
        rfl
      | _ => exact (hkept trivial).elim

/-- **Flow.** In every run in which nothing arrives once input has been thrown away, packets are
dispatched in order, and consumed when they have been handled. -/
theorem flows_of_kept (hall : ∀ p ∈ packets, WellFormed p) {events : List Event} {s : System}
    (hkept : Meets step Kept (.init (Frames.stream id packets)) events)
    (hrun : run step (.init (Frames.stream id packets)) events = some s) : Flows packets s := by
  refine Good.flows hall (invariant_of_meets (fun s event s' h hP hstep => ?_) good_init hkept hrun)
  by_cases henabled : Enabled s event
  · obtain ⟨s'', hs'', hgood⟩ := step_good hall h henabled hP
    rw [hs''] at hstep
    exact Option.some.inj hstep ▸ hgood
  · unfold step at hstep
    rw [if_neg henabled] at hstep
    cases hstep

/-- Three commands without payload. -/
def samplePackets : List (List Byte) :=
  [[0xFF, 3, 0, 0, 0, 0x1D, 0, 1], [0xFF, 3, 0, 0, 0, 0x1D, 0, 2], [0xFF, 3, 0, 0, 0, 0x1D, 0, 3]]

/-- The packets arrive in pieces, and are handled out of order. -/
def sampleEvents : List Event :=
  [.arrive 5, .moreData, .arrive 14, .moreData, .packetHandled 1, .arrive 5, .packetHandled 0,
    .linkDisconnectedCfm true, .moreData, .packetHandled 2, .deferredCfm]

theorem flows_of_kept_sampleEvents :
    ∃ s, run step (.init (Frames.stream id samplePackets)) sampleEvents = some s ∧
      Flows samplePackets s := by
  obtain ⟨s, hs⟩ := Option.isSome_iff_exists.mp (show
    (run step (.init (Frames.stream id samplePackets)) sampleEvents).isSome = true by
      decide +kernel)
  have hkept : Meets step Kept (.init (Frames.stream id samplePackets)) sampleEvents := by
    decide +kernel
  exact ⟨s, hs, flows_of_kept (by decide +kernel) hkept hs⟩

/-- The second packet arrives while the transport disconnects, and the third one after the first
has been handled. -/
def disconnectingEvents : List Event :=
  [.arrive 8, .moreData, .disconnectReq, .arrive 8, .packetHandled 0, .arrive 8, .moreData]

/-- The second packet is thrown away, and the third one dispatched. -/
theorem not_flows_disconnecting :
    (∀ p ∈ samplePackets, WellFormed p) ∧
      ∃ s, run step (.init (Frames.stream id samplePackets)) disconnectingEvents = some s ∧
        ¬ Flows samplePackets s := by
  refine ⟨by decide +kernel, ?_⟩
  obtain ⟨s, hs⟩ := Option.isSome_iff_exists.mp (show
    (run step (.init (Frames.stream id samplePackets)) disconnectingEvents).isSome = true by
      decide +kernel)
  refine ⟨s, hs, fun h => ?_⟩
  have hnot : ((run step (.init (Frames.stream id samplePackets)) disconnectingEvents).map
      fun s => decide (dispatched s.tr.log <+: samplePackets.map rxPacket)) = some false := by
    decide +kernel
  rw [hs, Option.map_some] at hnot
  exact absurd h.inOrder (of_decide_eq_false (Option.some.inj hnot))

end Mh40.Gaia
