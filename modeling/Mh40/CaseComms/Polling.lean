import Mh40.CaseComms.Counts
import Mh40.Lib.Run

/-!
# When an outstanding response is polled for

* `Timers`: a pending poll timer is the only one of its earbud, which has outstanding responses.
* `KeepsPoll`: a packet that leaves responses outstanding does not cancel the only poll timer.
  `ccProtocol_ModifyPollRequired` looks at the channel of the packet only, and nothing after it
  schedules a poll for the other channels or for the other earbud.
* `poll_pending_iff`: the exact condition for a poll timer to be pending in every quiet state.
-/

namespace Mh40.CaseComms

open Lib List Option

/-- When no status is awaited and a response is outstanding, a poll timer is pending for an earbud
with outstanding responses. -/
def PollPending (td : State) : Prop :=
  td.awaited = [] →
    td.outstandingResponseTotal .leftEb ≠ 0 ∨ td.outstandingResponseTotal .rightEb ≠ 0 →
    ∃ poll ∈ td.pollTimers, td.outstandingResponseTotal poll.dest ≠ 0

instance (td : State) : Decidable (PollPending td) := inferInstanceAs (Decidable (_ → _ → _))

def PollId.other : PollId → PollId
  | .left => .right
  | .right => .left

/-- A packet does not cancel the only poll timer while other responses are outstanding. -/
def KeepsPoll (td : State) : Event → Prop
  | .receive sourceDev header client =>
    ∀ chan, getChannelConfig (caseCommsGetCID header) = some chan →
      td.awaited ≠ [] ∨ (∃ t ∈ client, t.accepted? ≠ none) ∨ 1 < td.count sourceDev chan ∨
        td.messagePendingFirst (pollId sourceDev).other ∨
        ∀ dev chan', dev.IsEarbud → (dev, chan') ≠ (sourceDev, chan) → td.count dev chan' = 0
  | _ => True

/-- What every event keeps. -/
structure Timers (td : State) : Prop where
  timer : ∀ poll ∈ td.pollTimers, poll.dest.IsEarbud ∧ poll.id = pollId poll.dest ∧
    td.outstandingResponseTotal poll.dest ≠ 0
  nodup : (td.pollTimers.map PollTimeout.id).Nodup

variable {td td' : State} {dev dev' : Dev} {chan : Fin casecommsCidMax} {cid : ℕ} {id : PollId}
  {t : Transmission} {client : List Transmission} {poll : PollTimeout}

theorem mem_messageCancelFirst (h : Timers td) :
    poll ∈ (td.messageCancelFirst id).pollTimers ↔ poll ∈ td.pollTimers ∧ poll.id ≠ id := by
  have hnodup := h.nodup
  change poll ∈ td.pollTimers.eraseP (·.id = id) ↔ _
  generalize td.pollTimers = timers at hnodup
  induction timers with
  | nil => simp
  | cons p timers ih =>
    rw [map_cons, nodup_cons] at hnodup
    by_cases hp : p.id = id
    · have hne : poll ∈ timers → poll.id ≠ id := fun hmem heq =>
        hnodup.1 (hp ▸ heq ▸ List.mem_map_of_mem hmem)
      rw [eraseP_cons_of_pos (by simpa using hp), mem_cons]
      constructor
      · exact fun hmem => ⟨.inr hmem, hne hmem⟩
      · rintro ⟨rfl | hmem, hid⟩
        · exact absurd hp hid
        · exact hmem
    · rw [eraseP_cons_of_neg (by simpa using hp), mem_cons, mem_cons,
        ih hnodup.2, or_and_right]
      exact or_congr_left ⟨fun heq => ⟨heq, heq ▸ hp⟩, And.left⟩

/-! ## The timers -/

theorem Timers.init : Timers init where
  timer := by rintro _ ⟨⟩
  nodup := .nil

section

variable (h : Timers td)
include h

/-- More responses outstanding, and the same timers. -/
theorem Timers.mono (htimers : td'.pollTimers = td.pollTimers)
    (hcount : ∀ dev chan, td.count dev chan ≤ td'.count dev chan) : Timers td' where
  timer := by
    intro poll hpoll
    obtain ⟨hdest, hid, htotal⟩ := h.timer poll (htimers ▸ hpoll)
    obtain ⟨chan, hchan⟩ := outstandingResponseTotal_ne_zero.mp htotal
    refine ⟨hdest, hid, outstandingResponseTotal_ne_zero.mpr ⟨chan, ?_⟩⟩
    have := hcount poll.dest chan
    omega
  nodup := by
    rw [htimers]
    exact h.nodup

theorem Timers.transmitInternal (hstep : transmitInternal td t = some td') :
    Timers td' := by
  rcases hm : t.accepted? with _ | m
  · rw [transmitInternal_of_none hm] at hstep
    cases hstep
    exact h
  · obtain ⟨-, -, htimers, hcount⟩ := transmitInternal_of_some hm hstep
    refine h.mono htimers fun dev chan => ?_
    rw [hcount]
    split <;> omega

theorem Timers.transmitAll (hstep : transmitAll td client = some td') :
    Timers td' := by
  induction client generalizing td with
  | nil => cases hstep; exact h
  | cons t ts ih =>
    obtain ⟨td1, ht, hstep⟩ := bind_eq_some_iff.mp hstep
    exact ih (h.transmitInternal ht) hstep

theorem Timers.messageCancelFirst (id : PollId) :
    Timers (td.messageCancelFirst id) where
  timer poll hpoll := h.timer poll ((mem_messageCancelFirst h).mp hpoll).1
  nodup := h.nodup.sublist (eraseP_sublist.map _)

theorem Timers.decrement (hstep : modifyPollRequired td dev cid false = some td') :
    Timers td' := by
  obtain ⟨-, rfl⟩ | ⟨chan, -, hdev, hcount, htimers, -⟩ := modifyPollRequired_decr hstep
  · exact h
  · split_ifs at htimers with hle
    · have htd : td'.pollTimers = (td.messageCancelFirst (pollId dev)).pollTimers := htimers
      refine ⟨fun poll hpoll => ?_, ?_⟩
      · obtain ⟨hmem, hid⟩ := (mem_messageCancelFirst h).mp (htd ▸ hpoll)
        obtain ⟨hdest, hid', htotal⟩ := h.timer poll hmem
        have hne : poll.dest ≠ dev := fun heq => hid (hid'.trans (heq ▸ rfl))
        have hsame : ∀ chan, td'.count poll.dest chan = td.count poll.dest chan := fun chan => by
          rw [hcount, if_neg (hne ·.1)]
        exact ⟨hdest, hid', outstandingResponseTotal_congr hsame ▸ htotal⟩
      · rw [htd]
        exact (h.messageCancelFirst _).nodup
    · refine ⟨fun poll hpoll => ?_, htimers ▸ h.nodup⟩
      obtain ⟨hdest, hid, htotal⟩ := h.timer poll (htimers ▸ hpoll)
      obtain ⟨chan', hchan'⟩ := outstandingResponseTotal_ne_zero.mp htotal
      refine ⟨hdest, hid, outstandingResponseTotal_ne_zero.mpr ⟨chan', ?_⟩⟩
      rw [hcount]
      split <;> omega

end

/-! ## Scheduling a poll -/

theorem getEarbudToPoll_of_none (h : getEarbudToPoll td = none) :
    td.outstandingResponseTotal .leftEb = 0 ∧ td.outstandingResponseTotal .rightEb = 0 := by
  unfold getEarbudToPoll at h
  simp only at h
  split_ifs at h
  omega

theorem getEarbudToPoll_of_some (h : getEarbudToPoll td = some dev) :
    dev.IsEarbud ∧ td.outstandingResponseTotal dev ≠ 0 := by
  unfold getEarbudToPoll at h
  simp only at h
  split_ifs at h <;> cases h
  · exact ⟨.inr rfl, by omega⟩
  · exact ⟨.inl rfl, by omega⟩
  · exact ⟨.inl rfl, by omega⟩
  · exact ⟨.inr rfl, by omega⟩

theorem messagePendingFirst_iff :
    td.messagePendingFirst id = true ↔ ∃ poll ∈ td.pollTimers, poll.id = id := by
  simp [State.messagePendingFirst]

theorem Timers.schedule (h : Timers td) : Timers (schedulePollIfRequired td) := by
  unfold schedulePollIfRequired
  split
  · exact h
  · next dest hdest =>
    obtain ⟨hear, htotal⟩ := getEarbudToPoll_of_some hdest
    split_ifs with hpending
    · exact h
    · refine ⟨fun poll hpoll => ?_, ?_⟩
      · obtain hpoll | hpoll := mem_append.mp hpoll
        · exact h.timer poll hpoll
        · obtain rfl := mem_singleton.mp hpoll
          exact ⟨hear, rfl, htotal⟩
      · rw [map_append]
        refine h.nodup.append (nodup_singleton _) (disjoint_singleton.mpr fun hid => ?_)
        obtain ⟨poll, hpoll, hid⟩ := List.mem_map.mp hid
        exact hpending (messagePendingFirst_iff.mpr ⟨poll, hpoll, hid⟩)

/-- After `ccProtocol_SchedulePollIfRequired` an outstanding response has its poll timer. -/
theorem pollPending_schedule (h : Timers td) : PollPending (schedulePollIfRequired td) := by
  unfold schedulePollIfRequired
  rcases hdest : getEarbudToPoll td with _ | dest
  · have := getEarbudToPoll_of_none hdest
    dsimp only
    intro _ htotal
    omega
  · intro _ _
    obtain ⟨hear, hne⟩ := getEarbudToPoll_of_some hdest
    dsimp only
    split_ifs with hpending
    · obtain ⟨poll, hpoll, -⟩ := messagePendingFirst_iff.mp hpending
      exact ⟨poll, hpoll, (h.timer poll hpoll).2.2⟩
    · exact ⟨_, mem_append_right _ (mem_singleton_self _), hne⟩

/-! ## One event -/

theorem Timers.status {status : UartTxStatus} {hdr : TxMsgHeader} (h : Timers td)
    (hstep : handleUartStatus td status hdr client = some td') : ∃ td2, Timers td2 ∧
      td' = schedulePollIfRequired td2 := by
  obtain ⟨td1, txFailCount, ts, td2, hdecr, hclient, rfl⟩ := handleUartStatus_cases hstep
  have h1 : Timers td1 := by
    split_ifs at hdecr
    · exact h.decrement hdecr
    · cases hdecr
      exact h
  have h1' : Timers { td1 with txFailCount } := ⟨h1.timer, h1.nodup⟩
  exact ⟨td2, h1'.transmitAll hclient, rfl⟩

theorem Timers.step {e : Event} (h : Timers td) (hstep : step td e = some td') : Timers td' := by
  cases e with
  | transmit t => exact h.transmitInternal hstep
  | status i status client =>
    simp only [CaseComms.step] at hstep
    split_ifs at hstep
    obtain ⟨m, -, hstep⟩ := bind_eq_some_iff.mp hstep
    have h1 : Timers { td with awaited := td.awaited.erase i } := ⟨h.timer, h.nodup⟩
    obtain ⟨td2, h2, rfl⟩ := h1.status hstep
    exact h2.schedule
  | receive sourceDev header client =>
    obtain ⟨td1, hclient, hstep⟩ := bind_eq_some_iff.mp hstep
    refine Timers.decrement ?_ hstep
    split at hclient
    · cases hclient
      exact h
    · exact h.transmitAll hclient
  | pollTimer id sink =>
    obtain ⟨poll, -, rfl⟩ := map_eq_some_iff.mp hstep
    have h1 := h.messageCancelFirst id
    unfold handlePollTimer
    split
    · exact h1
    · split
      · exact ⟨h1.timer, h1.nodup⟩
      · exact h1.schedule

/-! ## When a poll timer is pending -/

theorem pollPending_of_awaited (h : td.awaited ≠ []) : PollPending td := fun h' => absurd h' h

theorem awaited_transmitInternal (hstep : transmitInternal td t = some td') :
    td.awaited <+: td'.awaited ∧ (t.accepted? ≠ none → td'.awaited ≠ []) := by
  rcases hm : t.accepted? with _ | m
  · rw [transmitInternal_of_none hm] at hstep
    cases hstep
    exact ⟨prefix_rfl, fun h => absurd rfl h⟩
  · obtain ⟨-, hawaited, -, -⟩ := transmitInternal_of_some hm hstep
    rw [hawaited]
    exact ⟨prefix_append _ _, fun _ => by simp⟩

theorem awaited_transmitAll (hstep : transmitAll td client = some td') :
    td.awaited <+: td'.awaited ∧ ((∃ t ∈ client, t.accepted? ≠ none) → td'.awaited ≠ []) := by
  induction client generalizing td with
  | nil =>
    cases hstep
    exact ⟨prefix_rfl, by simp⟩
  | cons t ts ih =>
    obtain ⟨td1, ht, hstep⟩ := bind_eq_some_iff.mp hstep
    obtain ⟨hpre, hne⟩ := awaited_transmitInternal ht
    obtain ⟨hpre', hne'⟩ := ih hstep
    refine ⟨hpre.trans hpre', ?_⟩
    rintro ⟨t', ht', haccepted⟩
    rcases mem_cons.mp ht' with rfl | ht'
    · exact fun heq => hne haccepted (prefix_nil.mp (heq ▸ hpre'))
    · exact hne' ⟨t', ht', haccepted⟩

/-- What the other earbud's timer says. -/
theorem pending_other_iff (hdev : dev.IsEarbud) :
    td.messagePendingFirst (pollId dev).other = true ↔
      ∃ poll ∈ td.pollTimers, poll.id ≠ pollId dev := by
  rw [messagePendingFirst_iff]
  refine exists_congr fun poll => and_congr_right fun _ => ?_
  rcases hdev with rfl | rfl <;> rcases poll.id <;> simp [pollId, PollId.other]

/-- The last response on a channel cancels the timer of its earbud: a timer is pending then iff the
other earbud's is, or nothing is outstanding any more. -/
theorem pollPending_decrement_iff (h : Timers td) (hp : PollPending td) (hquiet : td.awaited = [])
    (hchan : getChannelConfig cid = some chan)
    (hstep : modifyPollRequired td dev cid false = some td') :
    PollPending td' ↔ 1 < td.count dev chan ∨ td.messagePendingFirst (pollId dev).other ∨
      ∀ dev' chan', dev'.IsEarbud → (dev', chan') ≠ (dev, chan) → td.count dev' chan' = 0 := by
  have h' := h.decrement hstep
  obtain ⟨hnone, -⟩ | ⟨chan', hchan', hdev, hcount, htimers, -, hawaited⟩ :=
    modifyPollRequired_decr hstep
  · rw [hchan] at hnone
    cases hnone
  obtain rfl : chan = chan' := some.inj (hchan.symm.trans hchan')
  by_cases hlt : 1 < td.count dev chan
  · refine iff_of_true (fun _ _ => ?_) (.inl hlt)
    have htotal : td.outstandingResponseTotal dev ≠ 0 :=
      outstandingResponseTotal_ne_zero.mpr ⟨chan, by omega⟩
    have hear : td.outstandingResponseTotal .leftEb ≠ 0 ∨
        td.outstandingResponseTotal .rightEb ≠ 0 := by
      rcases hdev with rfl | rfl
      · exact .inr htotal
      · exact .inl htotal
    obtain ⟨poll, hpoll, -⟩ := hp hquiet hear
    rw [if_neg (by omega)] at htimers
    exact ⟨poll, htimers ▸ hpoll, (h'.timer poll (htimers ▸ hpoll)).2.2⟩
  · have htd : td'.pollTimers = (td.messageCancelFirst (pollId dev)).pollTimers := by
      rw [htimers, if_pos (by omega)]
      rfl
    have hpending : (∃ poll ∈ td'.pollTimers, td'.outstandingResponseTotal poll.dest ≠ 0) ↔
        td.messagePendingFirst (pollId dev).other = true := by
      rw [pending_other_iff hdev]
      constructor
      · rintro ⟨poll, hpoll, -⟩
        obtain ⟨hmem, hne⟩ := (mem_messageCancelFirst h).mp (htd ▸ hpoll)
        exact ⟨poll, hmem, hne⟩
      · rintro ⟨poll, hmem, hne⟩
        have hpoll := htd ▸ (mem_messageCancelFirst h).mpr ⟨hmem, hne⟩
        exact ⟨poll, hpoll, (h'.timer poll hpoll).2.2⟩
    have hzero : (∀ dev' chan', dev'.IsEarbud → (dev', chan') ≠ (dev, chan) →
          td.count dev' chan' = 0) ↔
        td'.outstandingResponseTotal .leftEb = 0 ∧ td'.outstandingResponseTotal .rightEb = 0 := by
      simp only [outstandingResponseTotal_eq_zero, hcount]
      constructor
      · refine fun hz => ⟨fun chan' => ?_, fun chan' => ?_⟩
        all_goals
          split_ifs with heq
          · omega
          · exact hz _ chan' (by simp [Dev.IsEarbud]) (by simpa using heq)
      · rintro ⟨hl, hr⟩ dev' chan' (rfl | rfl) hne
        · simpa [Prod.ext_iff.not.mp hne] using hr chan'
        · simpa [Prod.ext_iff.not.mp hne] using hl chan'
    rw [hzero, ← hpending]
    constructor
    · intro hp'
      by_cases hz : td'.outstandingResponseTotal .leftEb = 0 ∧
          td'.outstandingResponseTotal .rightEb = 0
      · exact .inr (.inr hz)
      · exact .inr (.inl (hp' (hawaited ▸ hquiet) (not_and_or.mp hz)))
    · rintro (hlt' | hpend | hz) _ htotal
      · exact absurd hlt' hlt
      · exact hpend
      · exact absurd hz (not_and_or.mpr htotal)

/-- **One event.** A poll timer stays pending iff the event does not cancel the only one. -/
theorem keepsPoll_iff {e : Event} (h : Timers td) (hp : PollPending td)
    (hstep : step td e = some td') : KeepsPoll td e ↔ PollPending td' := by
  cases e with
  | transmit t =>
    refine iff_of_true trivial ?_
    rcases hm : t.accepted? with _ | m
    · simp only [step, transmitInternal_of_none hm] at hstep
      cases hstep
      exact hp
    · exact pollPending_of_awaited ((awaited_transmitInternal hstep).2 (by simp [hm]))
  | status i status client =>
    refine iff_of_true trivial ?_
    simp only [step] at hstep
    split_ifs at hstep
    obtain ⟨m, -, hstep⟩ := bind_eq_some_iff.mp hstep
    have h1 : Timers { td with awaited := td.awaited.erase i } := ⟨h.timer, h.nodup⟩
    obtain ⟨td2, h2, rfl⟩ := h1.status hstep
    exact pollPending_schedule h2
  | receive sourceDev header client =>
    obtain ⟨td1, hclient, hstep⟩ := bind_eq_some_iff.mp hstep
    rcases hchan : getChannelConfig (caseCommsGetCID header) with _ | chan
    · obtain ⟨-, rfl⟩ | ⟨chan, hchan', -⟩ := modifyPollRequired_decr hstep
      · rw [hchan] at hclient
        cases hclient
        exact iff_of_true (fun chan hchan' => by rw [hchan] at hchan'; cases hchan') hp
      · rw [hchan] at hchan'
        cases hchan'
    · rw [hchan] at hclient
      obtain ⟨hpre, haccepted⟩ := awaited_transmitAll hclient
      have hsame : td'.awaited = td1.awaited := by
        obtain ⟨-, rfl⟩ | ⟨_, _, _, _, _, _, hawaited⟩ := modifyPollRequired_decr hstep
        · rfl
        · exact hawaited
      simp only [KeepsPoll, hchan, some.injEq, forall_eq']
      by_cases hquiet : td.awaited ≠ []
      · refine iff_of_true (.inl hquiet) (pollPending_of_awaited fun heq => hquiet ?_)
        exact prefix_nil.mp (heq ▸ hsame ▸ hpre)
      by_cases hsent : ∃ t ∈ client, t.accepted? ≠ none
      · refine iff_of_true (.inr (.inl hsent)) (pollPending_of_awaited ?_)
        exact hsame ▸ haccepted hsent
      have hnone : ∀ t ∈ client, t.accepted? = none := by simpa using hsent
      rw [transmitAll_of_none hnone] at hclient
      cases hclient
      rw [pollPending_decrement_iff h hp (not_not.mp hquiet) hchan hstep]
      simp only [hquiet, hsent, false_or]
  | pollTimer id sink =>
    refine iff_of_true trivial ?_
    obtain ⟨poll, -, rfl⟩ := map_eq_some_iff.mp hstep
    have h1 := h.messageCancelFirst id
    unfold handlePollTimer
    split
    · next hnone =>
      intro _ htotal
      have := getEarbudToPoll_of_none hnone
      omega
    · split
      · exact pollPending_of_awaited (by simp [State.send])
      · exact pollPending_schedule h1

/-! ## Runs -/

theorem PollPending.init : PollPending init := by decide

/-- **Polling, exactly.** In every state that a run leads through, an outstanding response has its
poll timer, iff no packet of the run cancels the only poll timer while others are outstanding. -/
theorem poll_pending_iff (es : List Event) (td : State) (hrun : run step init es = some td) :
    Throughout step PollPending init es ↔ Meets step KeepsPoll init es := by
  have hinv : ∀ s e s', Timers s → step s e = some s' → Timers s' := fun _ _ _ h hstep =>
    h.step hstep
  have hstep : ∀ s e s', Timers s → PollPending s → step s e = some s' →
      (KeepsPoll s e ↔ PollPending s') := fun _ _ _ h hp hstep => keepsPoll_iff h hp hstep
  exact throughout_iff_meets hinv hstep Timers.init PollPending.init hrun

def sinkReady : SinkReply := ⟨100, 0, true⟩

/-- Two requests to the left earbud on two channels and a poll, all acknowledged, and the response
to the first request. -/
def lostPoll : List Event :=
  [.transmit ⟨.leftEb, 0, 2, [1], true, sinkReady⟩, .transmit ⟨.leftEb, 3, 1, [1], true, sinkReady⟩,
    .status 0 .success [], .status 1 .success [], .pollTimer .left sinkReady, .status 2 .success [],
    .receive .leftEb 0x03 []]

/-- The second response is outstanding, and nothing will poll for it. -/
theorem not_poll_pending_lostPoll :
    ∃ td, run step init lostPoll = some td ∧ td.awaited = [] ∧ td.pollTimers = [] ∧
      td.outstandingResponseTotal .leftEb = 1 ∧ ¬ PollPending td := by
  refine ⟨_, rfl, ?_⟩
  decide

/-- A request, its acknowledgement and the response. -/
theorem poll_pending_iff_three :
    Throughout step PollPending init [.transmit ⟨.leftEb, 0, 2, [1], true, sinkReady⟩,
        .status 0 .success [], .receive .leftEb 0x03 []] ↔
      Meets step KeepsPoll init [.transmit ⟨.leftEb, 0, 2, [1], true, sinkReady⟩,
        .status 0 .success [], .receive .leftEb 0x03 []] :=
  poll_pending_iff _ _ rfl

end Mh40.CaseComms
