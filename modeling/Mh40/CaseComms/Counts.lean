import Mh40.CaseComms.Protocol

/-!
# What the handlers do to the counts and to the poll timers

One specification for each function of `cc_protocol.c` that changes a count, a timer or what P0 has.
-/

namespace Mh40.CaseComms

open Option

/-- The devices with counts. -/
def Dev.IsEarbud (dev : Dev) : Prop := dev = .rightEb ∨ dev = .leftEb

instance : DecidablePred Dev.IsEarbud := fun _ => inferInstanceAs (Decidable (_ ∨ _))

variable {td td' : State} {dev dev' : Dev} {chan chan' : Fin casecommsCidMax} {cid n : ℕ}
  {t : Transmission} {client : List Transmission} {m : Sent} {hdr : TxMsgHeader}

theorem getChannelConfig_eq_some : getChannelConfig cid = some chan ↔ cid = chan.val := by
  unfold getChannelConfig
  split_ifs with h
  · simp [Fin.ext_iff]
  · have := chan.isLt
    simp only [false_iff]
    omega

/-! ## Headers -/

theorem land_shift_cid (n : ℕ) : (n &&& 0x70) >>> 4 = n / 16 % 8 := by
  rw [Nat.shiftRight_and_distrib, Nat.shiftRight_eq_div_pow]
  exact Nat.and_two_pow_sub_one_eq_mod _ 3

theorem caseCommsGetCID_setMID (header : UInt8) (mid : ℕ) :
    caseCommsGetCID (caseCommsSetMID header mid) = caseCommsGetCID header := by
  have hmask : ∀ a b : ℕ, ((a &&& 0xf0) ||| (b &&& 0x0f)) &&& 0x70 = a &&& 0x70 := by
    intro a b
    rw [Nat.and_or_distrib_right, Nat.and_assoc, Nat.and_assoc]
    simp
  simp only [caseCommsGetCID, caseCommsSetMID, casecommsMidMask, casecommsCidMask,
    UInt8.toNat_shiftRight, UInt8.toNat_and, UInt8.toNat_or]
  exact congrArg (· >>> 4) (hmask _ _)

theorem caseCommsGetCID_setCID (header : UInt8) (cid : ℕ) :
    caseCommsGetCID (caseCommsSetCID header cid) = cid % 8 := by
  have hmask : ∀ a b : ℕ, ((a &&& 0x8f) ||| (b &&& 0x70)) &&& 0x70 = b &&& 0x70 := by
    intro a b
    rw [Nat.and_or_distrib_right, Nat.and_assoc, Nat.and_assoc]
    simp
  simp only [caseCommsGetCID, caseCommsSetCID, casecommsCidMask,
    UInt8.toNat_shiftRight, UInt8.toNat_and, UInt8.toNat_or]
  refine (congrArg (· >>> 4) (hmask _ _)).trans ?_
  rw [land_shift_cid, UInt8.toNat_ofNat', Nat.shiftLeft_eq]
  omega

/-- The header of a message on a channel decodes to the channel. -/
theorem caseCommsGetCID_accepted {sink : SinkReply} {mid : ℕ} {data : List UInt8}
    (h : transSchemeBTransmit sink dev cid mid data = some hdr) (hcid : cid < casecommsCidMax) :
    caseCommsGetCID hdr.header = cid := by
  unfold transSchemeBTransmit at h
  have hvalid : ¬(data.length = 0 ∧ cid = casecommsCidInvalid) := by
    rintro ⟨-, rfl⟩
    exact absurd hcid (by decide)
  rw [if_neg hvalid] at h
  dsimp only at h
  split_ifs at h
  cases h
  rw [caseCommsGetCID_setMID, caseCommsGetCID_setCID]
  exact Nat.mod_eq_of_lt (Nat.lt_trans hcid (by decide))

theorem destAddress_accepted {sink : SinkReply} {mid : ℕ} {data : List UInt8}
    (h : transSchemeBTransmit sink dev cid mid data = some hdr) : hdr.destAddress = dev := by
  unfold transSchemeBTransmit at h
  dsimp only at h
  split_ifs at h <;> cases h <;> rfl

/-! ## Counts -/

theorem outstandingResponseCount_set (config : ChanConfig) (hdev : dev.IsEarbud) :
    (config.setOutstandingResponseCount dev n).outstandingResponseCount dev' =
      if dev' = dev then n else config.outstandingResponseCount dev' := by
  rcases hdev with rfl | rfl <;> cases dev' <;> rfl

theorem count_setCount (td : State) (hdev : dev.IsEarbud) (chan chan' : Fin casecommsCidMax) :
    (td.setCount dev chan n).count dev' chan' =
      if dev' = dev ∧ chan' = chan then n else td.count dev' chan' := by
  unfold State.count State.setCount
  by_cases hchan : chan' = chan
  · subst hchan
    simp [outstandingResponseCount_set _ hdev]
  · simp [hchan]

@[simp] theorem send_count : (td.send m).count dev chan = td.count dev chan := rfl

theorem outstandingResponseTotal_eq_zero :
    td.outstandingResponseTotal dev = 0 ↔ ∀ chan, td.count dev chan = 0 := by
  simp [State.outstandingResponseTotal]

theorem outstandingResponseTotal_ne_zero :
    td.outstandingResponseTotal dev ≠ 0 ↔ ∃ chan, td.count dev chan ≠ 0 := by
  rw [Ne, outstandingResponseTotal_eq_zero, not_forall]

theorem outstandingResponseTotal_congr (h : ∀ chan, td'.count dev chan = td.count dev chan) :
    td'.outstandingResponseTotal dev = td.outstandingResponseTotal dev :=
  Finset.sum_congr rfl fun chan _ => h chan

/-! ## `ccProtocol_ModifyPollRequired` -/

/-- One more outstanding response, on a channel that there is. -/
theorem modifyPollRequired_incr (h : modifyPollRequired td dev cid true = some td') :
    (getChannelConfig cid = none ∧ td' = td) ∨
    ∃ chan, getChannelConfig cid = some chan ∧ dev.IsEarbud ∧
      td' = td.setCount dev chan (td.count dev chan + 1) := by
  unfold modifyPollRequired at h
  rcases hchan : getChannelConfig cid with _ | chan <;> simp only [hchan] at h
  · exact .inl ⟨rfl, by cases h; rfl⟩
  · split_ifs at h with hdev hlt
    cases h
    refine .inr ⟨chan, rfl, ?_, rfl⟩
    by_contra hnot
    exact hdev ⟨fun heq => hnot (.inl heq), fun heq => hnot (.inr heq)⟩

/-- One outstanding response less, if there is one. -/
theorem count_decr (td : State) (hdev : dev.IsEarbud) (chan : Fin casecommsCidMax) (dev' : Dev)
    (chan' : Fin casecommsCidMax) :
    (if td.count dev chan > 0 then td.setCount dev chan (td.count dev chan - 1) else td).count
      dev' chan' =
      if dev' = dev ∧ chan' = chan then td.count dev chan - 1 else td.count dev' chan' := by
  split_ifs with hpos h h
  · rw [count_setCount _ hdev, if_pos h]
  · rw [count_setCount _ hdev, if_neg h]
  · rw [h.1, h.2]
    omega
  · rfl

/-- One outstanding response less; without any left on the channel, the timer of the earbud is
cancelled. -/
theorem modifyPollRequired_decr (h : modifyPollRequired td dev cid false = some td') :
    (getChannelConfig cid = none ∧ td' = td) ∨
    ∃ chan, getChannelConfig cid = some chan ∧ dev.IsEarbud ∧
      (∀ dev' chan', td'.count dev' chan' =
        if dev' = dev ∧ chan' = chan then td.count dev chan - 1 else td.count dev' chan') ∧
      td'.pollTimers = (if td.count dev chan ≤ 1 then td.pollTimers.eraseP (·.id = pollId dev)
        else td.pollTimers) ∧
      td'.sent = td.sent ∧ td'.awaited = td.awaited := by
  unfold modifyPollRequired at h
  rcases hchan : getChannelConfig cid with _ | chan <;> simp only [hchan] at h
  · exact .inl ⟨rfl, by cases h; rfl⟩
  by_cases hdev : dev ≠ .rightEb ∧ dev ≠ .leftEb
  · rw [if_pos hdev] at h
    cases h
  have hear : dev.IsEarbud := by
    by_contra hnot
    exact hdev ⟨fun heq => hnot (.inl heq), fun heq => hnot (.inr heq)⟩
  rw [if_neg hdev, if_neg Bool.false_ne_true] at h
  have hcount := count_decr td hear chan
  generalize htd1 :
    (if td.count dev chan > 0 then td.setCount dev chan (td.count dev chan - 1) else td) = td1 at *
  have hsame : td1.pollTimers = td.pollTimers ∧ td1.sent = td.sent ∧ td1.awaited = td.awaited := by
    subst htd1
    split <;> exact ⟨rfl, rfl, rfl⟩
  have hzero : td1.count dev chan = 0 ↔ td.count dev chan ≤ 1 := by
    rw [hcount, if_pos ⟨rfl, rfl⟩]
    omega
  refine .inr ⟨chan, rfl, hear, ?_⟩
  simp only [hzero] at h
  split_ifs at h ⊢ <;> cases h
  · exact ⟨hcount, by rw [← hsame.1]; rfl, hsame.2⟩
  · exact ⟨hcount, hsame⟩

/-! ## Transmissions -/

theorem transmitInternal_of_none (h : t.accepted? = none) : transmitInternal td t = some td := by
  rw [transmitInternal, h]

/-- An accepted transmission goes to P0; an expected response is counted. -/
theorem transmitInternal_of_some (h : t.accepted? = some m)
    (hstep : transmitInternal td t = some td') :
    td'.sent = td.sent ++ [m] ∧ td'.awaited = td.awaited ++ [td.sent.length] ∧
      td'.pollTimers = td.pollTimers ∧
      ∀ dev chan, td'.count dev chan =
        if t.responseReqd ∧ t.dest = dev ∧ t.cid = chan.val then td.count dev chan + 1
        else td.count dev chan := by
  simp only [transmitInternal, h] at hstep
  split_ifs at hstep with hreqd
  · obtain ⟨hchan, rfl⟩ | ⟨chan, hchan, hdev, rfl⟩ := modifyPollRequired_incr hstep
    · refine ⟨rfl, rfl, rfl, fun dev chan => ?_⟩
      rw [if_neg]
      · rfl
      · rintro ⟨-, -, heq⟩
        rw [getChannelConfig_eq_some.mpr heq] at hchan
        cases hchan
    · refine ⟨rfl, rfl, rfl, fun dev chan' => ?_⟩
      have heq : t.cid = chan'.val ↔ chan' = chan := by
        rw [getChannelConfig_eq_some.mp hchan, Fin.ext_iff, eq_comm]
      simp only [count_setCount _ hdev, hreqd, heq, true_and, send_count, eq_comm (a := dev)]
      split_ifs with h'
      · rw [h'.1, h'.2]
      · rfl
  · cases hstep
    refine ⟨rfl, rfl, rfl, fun dev chan => ?_⟩
    simp [hreqd]

theorem transmitAll_of_none (h : ∀ t ∈ client, t.accepted? = none) :
    transmitAll td client = some td := by
  induction client with
  | nil => rfl
  | cons t ts ih =>
    rw [transmitAll, transmitInternal_of_none (h t (.head _)), bind_some]
    exact ih fun t' ht' => h t' (.tail _ ht')

/-! ## Status reports -/

/-- A status report takes back a count, lets the client transmit, and schedules a poll. -/
theorem handleUartStatus_cases {status : UartTxStatus}
    (h : handleUartStatus td status hdr client = some td') :
    ∃ td1 txFailCount ts td2,
      (if status ≠ .success ∧ hdr.destAddress.IsEarbud then
        modifyPollRequired td hdr.destAddress (caseCommsGetCID hdr.header) false
      else some td) = some td1 ∧
      transmitAll { td1 with txFailCount } ts = some td2 ∧ td' = schedulePollIfRequired td2 := by
  simp only [handleUartStatus, bind_eq_bind, bind_eq_some_iff] at h
  obtain ⟨td1, hdecr, td2, hclient, h⟩ := h
  have hnak : ∀ s, ∃ txFailCount, checkAckNakReset td1 s = { td1 with txFailCount } := by
    intro s
    cases s <;> exact ⟨_, rfl⟩
  refine ⟨td1, ?_⟩
  have hdecr' : (if status ≠ .success ∧ hdr.destAddress.IsEarbud then
      modifyPollRequired td hdr.destAddress (caseCommsGetCID hdr.header) false
      else some td) = some td1 := by
    rw [← hdecr]
    exact if_congr (and_congr_right fun _ => or_comm) rfl rfl
  split_ifs at hclient with htype
  · obtain ⟨txFailCount, hnak⟩ := hnak (commsUartStatusToCcStatus status)
    simp only [sendStatusToClient, hnak] at hclient
    split at hclient
    · exact ⟨txFailCount, [], td2, hdecr', hclient, (some.inj h).symm⟩
    · exact ⟨txFailCount, client, td2, hdecr', hclient, (some.inj h).symm⟩
  · exact ⟨td1.txFailCount, [], td2, hdecr', hclient, (some.inj h).symm⟩

end Mh40.CaseComms
