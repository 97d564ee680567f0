import Mh40.CaseComms.Counts
import Mh40.Lib.Run

/-!
# What the outstanding response counts mean

A `Ledger` beside the protocol knows which messages failed and which were answered, so that the
count of an earbud and a channel can be compared with the requests that are really outstanding.

* `step`: one event. A packet comes with the message that it answers, if it answers one.
* `KeepsCount`: a count is only taken back for a request that was outstanding. The status report
  does not say whether the message was a poll (whose zero header decodes to channel 0), a
  notification or a request that was answered already, and the handler does not ask.
* `accounted_iff`: the exact condition for the counts to be right in every state of a run.
-/

namespace Mh40.CaseComms.Accounting

open Lib List
open Option hiding or_assoc

/-- The indexes of the messages that failed and of those that were answered. -/
structure Ledger where
  failed : Finset ℕ
  answered : Finset ℕ

structure Tracked where
  td : State
  ledger : Ledger

/-- What happens; a packet answers the message at the index, if there is one. -/
structure Observed where
  event : Event
  answers : Option ℕ

/-- The message at an index is a request to the earbud on the channel. -/
def IsRequest (td : State) (i : ℕ) (dev : Dev) (cid : ℕ) : Prop :=
  ∃ m, td.sent[i]? = some m ∧ m.responseReqd ∧ m.hdr.destAddress = dev ∧ m.cid = cid

instance (td : State) (i : ℕ) (dev : Dev) (cid : ℕ) : Decidable (IsRequest td i dev cid) :=
  decidable_of_iff (∃ m ∈ td.sent[i]?, m.responseReqd ∧ m.hdr.destAddress = dev ∧ m.cid = cid)
    (by simp [IsRequest])

/-- The accepted requests to the earbud on the channel that neither failed nor were answered. -/
def outstanding (s : Tracked) (dev : Dev) (chan : Fin casecommsCidMax) : Finset ℕ :=
  (Finset.range s.td.sent.length).filter fun i =>
    IsRequest s.td i dev chan ∧ i ∉ s.ledger.failed ∧ i ∉ s.ledger.answered

/-- The counts are those of the outstanding requests. -/
def Accounted (s : Tracked) : Prop :=
  ∀ dev, dev.IsEarbud → ∀ chan, s.td.count dev chan = (outstanding s dev chan).card

/-- What the ledger learns. -/
def Ledger.observe (ledger : Ledger) : Observed → Ledger
  | ⟨.status i status _, _⟩ =>
    if status ≠ .success then { ledger with failed := insert i ledger.failed } else ledger
  | ⟨.receive _ _ _, some i⟩ => { ledger with answered := insert i ledger.answered }
  | _ => ledger

/-- A packet answers a request to the earbud it comes from, on its channel. -/
def Possible (td : State) : Observed → Prop
  | ⟨.receive sourceDev header _, some i⟩ => IsRequest td i sourceDev (caseCommsGetCID header)
  | _ => True

instance (td : State) : DecidablePred (Possible td)
  | ⟨.receive _ _ _, some _⟩ => inferInstanceAs (Decidable (IsRequest _ _ _ _))
  | ⟨.receive _ _ _, none⟩ => .isTrue trivial
  | ⟨.transmit _, _⟩ => .isTrue trivial
  | ⟨.status _ _ _, _⟩ => .isTrue trivial
  | ⟨.pollTimer _ _, _⟩ => .isTrue trivial

def step (s : Tracked) (o : Observed) : Option Tracked :=
  if Possible s.td o then (CaseComms.step s.td o.event).map fun td => ⟨td, s.ledger.observe o⟩
  else none

def init : Tracked := ⟨CaseComms.init, ⟨∅, ∅⟩⟩

/-- A count is taken back only for a request that was outstanding. -/
def KeepsCount (s : Tracked) : Observed → Prop
  | ⟨.status i status _, _⟩ => status ≠ .success → ∀ m, s.td.sent[i]? = some m →
    m.hdr.destAddress.IsEarbud → ∀ chan, getChannelConfig (caseCommsGetCID m.hdr.header) = some chan →
      s.td.count m.hdr.destAddress chan = 0 ∨
        m.responseReqd ∧ m.cid = chan ∧ i ∉ s.ledger.answered
  | ⟨.receive sourceDev header client, answers⟩ =>
    ∀ chan, getChannelConfig (caseCommsGetCID header) = some chan →
      (∃ i ∈ answers, i ∉ s.ledger.failed ∧ i ∉ s.ledger.answered) ∨
        s.td.count sourceDev chan = 0 ∧ ∀ t ∈ client, t.accepted? ≠ none →
          ¬(t.responseReqd ∧ t.dest = sourceDev ∧ t.cid = chan)
  | _ => True

/-- What every event keeps. -/
structure Consistent (s : Tracked) : Prop where
  awaited : ∀ i ∈ s.td.awaited, i < s.td.sent.length ∧ i ∉ s.ledger.failed
  nodup : s.td.awaited.Nodup
  failed : ∀ i ∈ s.ledger.failed, i < s.td.sent.length
  answered : ∀ i ∈ s.ledger.answered, i < s.td.sent.length
  header : ∀ m ∈ s.td.sent, m.cid < casecommsCidMax → caseCommsGetCID m.hdr.header = m.cid

variable {s s' : Tracked} {td td' : State} {ledger ledger' : Ledger} {dev dev' : Dev}
  {chan chan' : Fin casecommsCidMax} {i cid : ℕ} {m : Sent} {t : Transmission}
  {client : List Transmission}

/-! ## Outstanding requests -/

theorem IsRequest.lt (h : IsRequest td i dev cid) : i < td.sent.length := by
  obtain ⟨m, hm, -⟩ := h
  exact (List.getElem?_eq_some_iff.mp hm).1

theorem mem_outstanding : i ∈ outstanding s dev chan ↔
    IsRequest s.td i dev chan ∧ i ∉ s.ledger.failed ∧ i ∉ s.ledger.answered := by
  rw [outstanding, Finset.mem_filter, Finset.mem_range]
  exact ⟨And.right, fun h => ⟨h.1.lt, h⟩⟩

theorem isRequest_congr (h : td'.sent = td.sent) :
    IsRequest td' i dev cid ↔ IsRequest td i dev cid := by
  unfold IsRequest
  rw [h]

theorem isRequest_unique (h : IsRequest td i dev cid) {dev' : Dev} {cid' : ℕ}
    (h' : IsRequest td i dev' cid') : dev = dev' ∧ cid = cid' := by
  obtain ⟨m, hm, -, rfl, rfl⟩ := h
  obtain ⟨m', hm', -, rfl, rfl⟩ := h'
  obtain rfl := some.inj (hm.symm.trans hm')
  exact ⟨rfl, rfl⟩

theorem isRequest_append (h : td'.sent = td.sent ++ [m]) : IsRequest td' i dev cid ↔
    IsRequest td i dev cid ∨
      i = td.sent.length ∧ m.responseReqd ∧ m.hdr.destAddress = dev ∧ m.cid = cid := by
  unfold IsRequest
  rw [h]
  rcases lt_trichotomy i td.sent.length with hlt | rfl | hlt
  · rw [getElem?_append_left hlt]
    simp [Nat.ne_of_lt hlt]
  · simp
  · rw [getElem?_eq_none (by simp; omega), getElem?_eq_none (by omega)]
    simp [Nat.ne_of_gt hlt]

theorem outstanding_congr (hsent : s'.td.sent = s.td.sent) (hledger : s'.ledger = s.ledger) :
    outstanding s' dev chan = outstanding s dev chan := by
  ext i
  rw [mem_outstanding, mem_outstanding, isRequest_congr hsent, hledger]

/-- A message that failed or was answered is not outstanding any more. -/
theorem outstanding_strike (hsent : s'.td.sent = s.td.sent)
    (hledger : ∀ j, (j ∈ s'.ledger.failed ∨ j ∈ s'.ledger.answered) ↔
      j = i ∨ j ∈ s.ledger.failed ∨ j ∈ s.ledger.answered) :
    outstanding s' dev chan = (outstanding s dev chan).erase i := by
  ext j
  rw [Finset.mem_erase, mem_outstanding, mem_outstanding, isRequest_congr hsent, ← not_or,
    ← not_or, hledger, not_or]
  tauto

theorem outstanding_append (h : Consistent s) (hsent : s'.td.sent = s.td.sent ++ [m])
    (hledger : s'.ledger = s.ledger) : (outstanding s' dev chan).card =
      if m.responseReqd ∧ m.hdr.destAddress = dev ∧ m.cid = chan then
        (outstanding s dev chan).card + 1
      else (outstanding s dev chan).card := by
  have hnew : s.td.sent.length ∉ s.ledger.failed ∧ s.td.sent.length ∉ s.ledger.answered :=
    ⟨fun hmem => Nat.lt_irrefl _ (h.failed _ hmem), fun hmem => Nat.lt_irrefl _ (h.answered _ hmem)⟩
  split_ifs with hm
  · have hfresh : s.td.sent.length ∉ outstanding s dev chan := fun hmem =>
      Nat.lt_irrefl _ (mem_outstanding.mp hmem).1.lt
    rw [← Finset.card_insert_of_notMem hfresh]
    congr 1
    ext i
    rw [Finset.mem_insert, mem_outstanding, mem_outstanding, isRequest_append hsent, hledger]
    constructor
    · rintro ⟨hreq | ⟨rfl, -⟩, hrest⟩
      · exact .inr ⟨hreq, hrest⟩
      · exact .inl rfl
    · rintro (rfl | ⟨hreq, hrest⟩)
      · exact ⟨.inr ⟨rfl, hm⟩, hnew⟩
      · exact ⟨.inl hreq, hrest⟩
  · congr 1
    ext i
    rw [mem_outstanding, mem_outstanding, isRequest_append hsent, hledger]
    simp only [hm, and_false, or_false]

/-! ## Transmissions -/

theorem Consistent.append (h : Consistent s) (hsent : s'.td.sent = s.td.sent ++ [m])
    (hawaited : s'.td.awaited = s.td.awaited ++ [s.td.sent.length]) (hledger : s'.ledger = s.ledger)
    (hheader : m.cid < casecommsCidMax → caseCommsGetCID m.hdr.header = m.cid) : Consistent s' where
  awaited := by
    intro i hi
    rw [hsent, hledger, length_append, length_singleton]
    rcases mem_append.mp (hawaited ▸ hi) with hi | hi
    · exact ⟨Nat.lt_succ_of_lt (h.awaited i hi).1, (h.awaited i hi).2⟩
    · obtain rfl := mem_singleton.mp hi
      exact ⟨Nat.lt_succ_self _, fun hmem => Nat.lt_irrefl _ (h.failed _ hmem)⟩
  nodup := by
    rw [hawaited]
    exact h.nodup.append (nodup_singleton _)
      (disjoint_singleton.mpr fun hi => Nat.lt_irrefl _ (h.awaited _ hi).1)
  failed := by
    rw [hsent, hledger, length_append, length_singleton]
    exact fun i hi => Nat.lt_succ_of_lt (h.failed i hi)
  answered := by
    rw [hsent, hledger, length_append, length_singleton]
    exact fun i hi => Nat.lt_succ_of_lt (h.answered i hi)
  header := by
    intro m' hm'
    rcases mem_append.mp (hsent ▸ hm') with hm' | hm'
    · exact h.header m' hm'
    · obtain rfl := mem_singleton.mp hm'
      exact hheader

/-- What is counted and what is outstanding grow alike. -/
structure Balanced (s s' : Tracked) : Prop where
  consistent : Consistent s'
  sent : s.td.sent <+: s'.td.sent
  balance : ∀ dev chan, s'.td.count dev chan + (outstanding s dev chan).card =
    s.td.count dev chan + (outstanding s' dev chan).card

theorem Balanced.refl (h : Consistent s) : Balanced s s := ⟨h, prefix_rfl, fun _ _ => rfl⟩

theorem Balanced.trans {s'' : Tracked} (h : Balanced s s') (h' : Balanced s' s'') :
    Balanced s s'' := by
  refine ⟨h'.consistent, h.sent.trans h'.sent, fun dev chan => ?_⟩
  have := h.balance dev chan
  have := h'.balance dev chan
  omega

theorem Balanced.accounted_congr (h : Balanced s s') : Accounted s' ↔ Accounted s := by
  refine forall_congr' fun dev => forall_congr' fun _ => forall_congr' fun chan => ?_
  have := h.balance dev chan
  omega

theorem Balanced.isRequest (h : Balanced s s') (hreq : IsRequest s.td i dev cid) :
    IsRequest s'.td i dev cid := by
  obtain ⟨rest, hrest⟩ := h.sent
  obtain ⟨m, hm, hm'⟩ := hreq
  refine ⟨m, ?_, hm'⟩
  rw [← hrest, getElem?_append_left (List.getElem?_eq_some_iff.mp hm).1, hm]

theorem Consistent.congr (h : Consistent s) (hsent : s'.td.sent = s.td.sent)
    (hawaited : s'.td.awaited = s.td.awaited) (hledger : s'.ledger = s.ledger) :
    Consistent s' := by
  refine ⟨?_, hawaited ▸ h.nodup, ?_, ?_, hsent ▸ h.header⟩
  · rw [hawaited, hsent, hledger]
    exact h.awaited
  · rw [hsent, hledger]
    exact h.failed
  · rw [hsent, hledger]
    exact h.answered

/-- Nothing that counts changes. -/
theorem balanced_of_same (h : Consistent s) (hcount : ∀ dev chan, s'.td.count dev chan =
      s.td.count dev chan) (hsent : s'.td.sent = s.td.sent) (hawaited : s'.td.awaited = s.td.awaited)
    (hledger : s'.ledger = s.ledger) : Balanced s s' := by
  refine ⟨h.congr hsent hawaited hledger, hsent ▸ prefix_rfl, fun dev chan => ?_⟩
  rw [hcount, outstanding_congr hsent hledger]

/-- The message goes to P0, and is counted iff it is a request. -/
theorem balanced_append (h : Consistent s) (hsent : s'.td.sent = s.td.sent ++ [m])
    (hawaited : s'.td.awaited = s.td.awaited ++ [s.td.sent.length]) (hledger : s'.ledger = s.ledger)
    (hheader : m.cid < casecommsCidMax → caseCommsGetCID m.hdr.header = m.cid)
    (hcount : ∀ dev chan, s'.td.count dev chan =
      if m.responseReqd ∧ m.hdr.destAddress = dev ∧ m.cid = chan then s.td.count dev chan + 1
      else s.td.count dev chan) : Balanced s s' := by
  refine ⟨h.append hsent hawaited hledger hheader, hsent ▸ prefix_append _ _,
    fun dev chan => ?_⟩
  rw [hcount, outstanding_append h hsent hledger]
  split_ifs <;> omega

theorem balanced_transmitInternal (h : Consistent ⟨td, ledger⟩)
    (hstep : transmitInternal td t = some td') : Balanced ⟨td, ledger⟩ ⟨td', ledger⟩ := by
  rcases hm : t.accepted? with _ | m
  · rw [transmitInternal_of_none hm] at hstep
    cases hstep
    exact .refl h
  · obtain ⟨hsent, hawaited, -, hcount⟩ := transmitInternal_of_some hm hstep
    obtain ⟨hdr, hhdr, rfl⟩ := map_eq_some_iff.mp hm
    refine balanced_append h hsent hawaited rfl (caseCommsGetCID_accepted hhdr) fun dev chan => ?_
    simp only [destAddress_accepted hhdr]
    exact hcount dev chan

theorem balanced_transmitAll (h : Consistent ⟨td, ledger⟩)
    (hstep : transmitAll td client = some td') : Balanced ⟨td, ledger⟩ ⟨td', ledger⟩ := by
  induction client generalizing td with
  | nil =>
    cases hstep
    exact .refl h
  | cons t ts ih =>
    obtain ⟨td1, ht, hstep⟩ := bind_eq_some_iff.mp hstep
    have hb := balanced_transmitInternal h ht
    exact hb.trans (ih hb.consistent hstep)

/-- A client that requests a response from the earbud on the channel has it counted. -/
theorem count_transmitAll_eq_zero (hstep : transmitAll td client = some td') :
    td'.count dev chan = 0 ↔ td.count dev chan = 0 ∧ ∀ t ∈ client, t.accepted? ≠ none →
      ¬(t.responseReqd ∧ t.dest = dev ∧ t.cid = chan) := by
  induction client generalizing td with
  | nil =>
    cases hstep
    simp
  | cons t ts ih =>
    obtain ⟨td1, ht, hstep⟩ := bind_eq_some_iff.mp hstep
    rw [ih hstep, forall_mem_cons, ← and_assoc]
    refine and_congr_left fun _ => ?_
    rcases hm : t.accepted? with _ | m
    · rw [transmitInternal_of_none hm] at ht
      cases ht
      simp
    · obtain ⟨-, -, -, hcount⟩ := transmitInternal_of_some hm ht
      rw [hcount]
      split_ifs with hreq
      · simp [hreq]
      · simp [hreq]

/-! ## Counts that are taken back -/

/-- A count is taken back, and at most one request is struck off: the counts stay right iff it was
outstanding there, or nothing was. -/
theorem accounted_decrement_iff (h : Accounted s) (hdev : dev.IsEarbud)
    (hcount : ∀ dev' chan', s'.td.count dev' chan' =
      if dev' = dev ∧ chan' = chan then s.td.count dev chan - 1 else s.td.count dev' chan')
    (hother : ∀ dev' chan', ¬(dev' = dev ∧ chan' = chan) →
      outstanding s' dev' chan' = outstanding s dev' chan') :
    Accounted s' ↔ s.td.count dev chan - 1 = (outstanding s' dev chan).card := by
  constructor
  · intro h'
    rw [← h' dev hdev chan, hcount, if_pos ⟨rfl, rfl⟩]
  · intro heq dev' hdev' chan'
    rw [hcount]
    split_ifs with hsame
    · rw [heq, hsame.1, hsame.2]
    · rw [hother dev' chan' hsame]
      exact h dev' hdev' chan'

/-- The request at `i` is struck off. -/
theorem accounted_strike_iff (h : Accounted s) (hdev : dev.IsEarbud)
    (hcount : ∀ dev' chan', s'.td.count dev' chan' =
      if dev' = dev ∧ chan' = chan then s.td.count dev chan - 1 else s.td.count dev' chan')
    (hstrike : ∀ dev' chan', outstanding s' dev' chan' = (outstanding s dev' chan').erase i)
    (hother : ∀ dev' chan', i ∈ outstanding s dev' chan' → dev' = dev ∧ chan' = chan) :
    Accounted s' ↔ s.td.count dev chan = 0 ∨ i ∈ outstanding s dev chan := by
  have hcard := h dev hdev chan
  rw [accounted_decrement_iff h hdev hcount, hstrike]
  · by_cases hmem : i ∈ outstanding s dev chan
    · have := Finset.card_pos.mpr ⟨i, hmem⟩
      rw [Finset.card_erase_of_mem hmem]
      simp only [hmem, or_true, iff_true]
      omega
    · rw [Finset.erase_eq_of_notMem hmem, ← hcard]
      simp only [hmem, or_false]
      omega
  · intro dev' chan' hne
    rw [hstrike, Finset.erase_eq_of_notMem fun hmem => hne (hother dev' chan' hmem)]

theorem schedulePollIfRequired_same (td : State) :
    (∀ dev chan, (schedulePollIfRequired td).count dev chan = td.count dev chan) ∧
      (schedulePollIfRequired td).sent = td.sent ∧
      (schedulePollIfRequired td).awaited = td.awaited := by
  unfold schedulePollIfRequired
  split
  · exact ⟨fun _ _ => rfl, rfl, rfl⟩
  · split <;> exact ⟨fun _ _ => rfl, rfl, rfl⟩

/-! ## One event -/

/-- The report of a failure. -/
theorem observe_failure (ledger : Ledger) (i j : ℕ) :
    (j ∈ insert i ledger.failed ∨ j ∈ ledger.answered) ↔
      j = i ∨ j ∈ ledger.failed ∨ j ∈ ledger.answered := by
  rw [Finset.mem_insert, or_assoc]

theorem observe_answer (ledger : Ledger) (i j : ℕ) :
    (j ∈ ledger.failed ∨ j ∈ insert i ledger.answered) ↔
      j = i ∨ j ∈ ledger.failed ∨ j ∈ ledger.answered := by
  rw [Finset.mem_insert, or_left_comm]

theorem mem_outstanding_of_sent (hm : s.td.sent[i]? = some m) : i ∈ outstanding s dev chan ↔
    (m.responseReqd ∧ m.hdr.destAddress = dev ∧ m.cid = chan) ∧
      i ∉ s.ledger.failed ∧ i ∉ s.ledger.answered := by
  rw [mem_outstanding]
  refine and_congr_left fun _ => ⟨?_, fun hreq => ⟨m, hm, hreq⟩⟩
  rintro ⟨m', hm', hreq⟩
  obtain rfl := some.inj (hm.symm.trans hm')
  exact hreq

/-- A message that was not outstanding is struck off. -/
theorem accounted_of_notMem (ha : Accounted s)
    (hcount : ∀ dev chan, s'.td.count dev chan = s.td.count dev chan)
    (hstrike : ∀ dev chan, outstanding s' dev chan = (outstanding s dev chan).erase i)
    (hnot : ∀ dev chan, dev.IsEarbud → i ∉ outstanding s dev chan) : Accounted s' := by
  intro dev hdev chan
  rw [hcount, hstrike, Finset.erase_eq_of_notMem (hnot dev chan hdev)]
  exact ha dev hdev chan

theorem decrement_same {P : Prop} [Decidable P] (hdecr : (if P then
      modifyPollRequired td dev cid false else some td) = some td') :
    td'.sent = td.sent ∧ td'.awaited = td.awaited := by
  split_ifs at hdecr
  · obtain ⟨-, rfl⟩ | ⟨_, _, _, _, _, hsame⟩ := modifyPollRequired_decr hdecr
    · exact ⟨rfl, rfl⟩
    · exact hsame
  · cases hdecr
    exact ⟨rfl, rfl⟩

/-- The failure of a message takes back the right count iff the message is an outstanding request,
or nothing is counted where its header points. -/
theorem accounted_failure_iff (h : Consistent s) (ha : Accounted s) (hi : i ∈ s.td.awaited)
    (hm : s.td.sent[i]? = some m) {td1 : State} (hdecr : (if m.hdr.destAddress.IsEarbud then
      modifyPollRequired { s.td with awaited := s.td.awaited.erase i } m.hdr.destAddress
        (caseCommsGetCID m.hdr.header) false
      else some { s.td with awaited := s.td.awaited.erase i }) = some td1) :
    Accounted ⟨td1, { s.ledger with failed := insert i s.ledger.failed }⟩ ↔
      (m.hdr.destAddress.IsEarbud → ∀ chan,
        getChannelConfig (caseCommsGetCID m.hdr.header) = some chan →
        s.td.count m.hdr.destAddress chan = 0 ∨
          m.responseReqd ∧ m.cid = chan ∧ i ∉ s.ledger.answered) := by
  have hstrike : ∀ td' : State, td'.sent = s.td.sent → ∀ dev chan,
      outstanding ⟨td', { s.ledger with failed := insert i s.ledger.failed }⟩ dev chan =
        (outstanding s dev chan).erase i := fun td' hsent dev chan =>
    outstanding_strike hsent (observe_failure s.ledger i)
  have hdest : ∀ dev chan, i ∈ outstanding s dev chan →
      m.hdr.destAddress = dev ∧ caseCommsGetCID m.hdr.header = chan := by
    intro dev chan hmem
    obtain ⟨⟨-, hdev, hcid⟩, -⟩ := (mem_outstanding_of_sent hm).mp hmem
    have hheader := h.header m (mem_of_getElem? hm) (hcid ▸ chan.isLt)
    exact ⟨hdev, hheader.trans hcid⟩
  split_ifs at hdecr with hear
  · obtain ⟨hnone, rfl⟩ | ⟨chan, hchan, -, hcount, -, hsent, -⟩ := modifyPollRequired_decr hdecr
    · refine iff_of_true ?_ ?_
      · refine accounted_of_notMem ha (fun _ _ => rfl) (hstrike _ rfl) fun dev chan _ hmem => ?_
        rw [getChannelConfig_eq_some.mpr (hdest dev chan hmem).2] at hnone
        cases hnone
      · intro _ chan hchan
        rw [hnone] at hchan
        cases hchan
    · rw [accounted_strike_iff ha hear hcount (hstrike td1 hsent)]
      · simp only [hchan, some.injEq, forall_eq', hear, forall_const,
          mem_outstanding_of_sent hm, (h.awaited i hi).2, true_and, not_false_eq_true, and_assoc]
      · intro dev chan' hmem
        obtain ⟨hdev, hcid⟩ := hdest dev chan' hmem
        rw [getChannelConfig_eq_some.mpr hcid] at hchan
        exact ⟨hdev.symm, some.inj hchan⟩
  · cases hdecr
    refine iff_of_true ?_ fun hear' => absurd hear' hear
    refine accounted_of_notMem ha (fun _ _ => rfl) (hstrike _ rfl) fun dev chan hdev hmem => ?_
    exact hear ((hdest dev chan hmem).1 ▸ hdev)

/-- What follows the decrement in the handler of a status report keeps the balance. -/
theorem balanced_afterStatus {td1 td2 : State} {txFailCount : ℕ} (h : Consistent ⟨td1, ledger⟩)
    (hclient : transmitAll { td1 with txFailCount } client = some td2) :
    Balanced ⟨td1, ledger⟩ ⟨schedulePollIfRequired td2, ledger⟩ := by
  have h1 : Balanced ⟨td1, ledger⟩ ⟨{ td1 with txFailCount }, ledger⟩ :=
    balanced_of_same h (fun _ _ => rfl) rfl rfl rfl
  have h2 := balanced_transmitAll h1.consistent hclient
  obtain ⟨hcount, hsent, hawaited⟩ := schedulePollIfRequired_same td2
  exact (h1.trans h2).trans (balanced_of_same h2.consistent hcount hsent hawaited rfl)

theorem balanced_pollTimer (h : Consistent s) (id : PollId) (poll : PollTimeout)
    (sink : SinkReply) :
    Balanced s ⟨handlePollTimer (s.td.messageCancelFirst id) poll sink, s.ledger⟩ := by
  have h1 : Balanced s ⟨s.td.messageCancelFirst id, s.ledger⟩ :=
    balanced_of_same h (fun _ _ => rfl) rfl rfl rfl
  refine h1.trans ?_
  unfold handlePollTimer
  split
  · exact .refl h1.consistent
  · split
    · refine balanced_append h1.consistent rfl rfl rfl (fun hcid => absurd hcid ?_) fun dev chan => ?_
      · exact Nat.not_lt.mpr (by decide : casecommsCidMax ≤ casecommsCidInvalid)
      · exact (if_neg fun hreq => Bool.false_ne_true hreq.1).symm
    · obtain ⟨hcount, hsent, hawaited⟩ :=
        schedulePollIfRequired_same (s.td.messageCancelFirst id)
      exact balanced_of_same h1.consistent hcount hsent hawaited rfl

/-- **A status report.** -/
theorem keepsCount_status {status : UartTxStatus} {answers : Option ℕ} (h : Consistent s)
    (hstep : step s ⟨.status i status client, answers⟩ = some s') :
    Consistent s' ∧
      (Accounted s → (KeepsCount s ⟨.status i status client, answers⟩ ↔ Accounted s')) := by
  rw [step, if_pos (by trivial)] at hstep
  obtain ⟨td', htd, rfl⟩ := map_eq_some_iff.mp hstep
  simp only [CaseComms.step] at htd
  split_ifs at htd with hi
  obtain ⟨m, hm, htd⟩ := bind_eq_some_iff.mp htd
  obtain ⟨td1, txFailCount, ts, td2, hdecr, hclient, rfl⟩ := handleUartStatus_cases htd
  have herase : ∀ j ∈ s.td.awaited.erase i, j ≠ i ∧ j ∈ s.td.awaited := fun j hj =>
    (h.nodup.mem_erase_iff).mp hj
  by_cases hstatus : status = .success
  · simp only [hstatus, ne_eq, not_true_eq_false, false_and, if_false] at hdecr
    cases hdecr
    have h1 : Consistent ⟨{ s.td with awaited := s.td.awaited.erase i }, s.ledger⟩ :=
      ⟨fun j hj => h.awaited j (herase j hj).2, h.nodup.erase i, h.failed, h.answered, h.header⟩
    have hb := balanced_afterStatus h1 hclient
    simp only [Ledger.observe, hstatus, ne_eq, not_true_eq_false, if_false, KeepsCount]
    refine ⟨hb.consistent, fun ha => iff_of_true (fun hne => hne.elim) ?_⟩
    exact hb.accounted_congr.mpr ha
  · simp only [ne_eq, hstatus, not_false_eq_true, true_and] at hdecr
    obtain ⟨hsent, hawaited⟩ := decrement_same hdecr
    have h1 : Consistent ⟨td1, { s.ledger with failed := insert i s.ledger.failed }⟩ := by
      dsimp only at hsent hawaited
      refine ⟨fun j hj => ?_, hawaited ▸ h.nodup.erase i, fun j hj => ?_, ?_, hsent ▸ h.header⟩
      · obtain ⟨hne, hj⟩ := herase j (hawaited ▸ hj)
        refine ⟨hsent ▸ (h.awaited j hj).1, fun hmem => ?_⟩
        rcases Finset.mem_insert.mp hmem with rfl | hmem
        · exact hne rfl
        · exact (h.awaited j hj).2 hmem
      · rcases Finset.mem_insert.mp hj with rfl | hj
        · exact hsent ▸ (h.awaited _ hi).1
        · exact hsent ▸ h.failed j hj
      · exact hsent ▸ h.answered
    have hb := balanced_afterStatus h1 hclient
    simp only [Ledger.observe, hstatus, ne_eq, not_false_eq_true, if_true, KeepsCount, hm,
      some.injEq, forall_eq', forall_const]
    refine ⟨hb.consistent, fun ha => ?_⟩
    rw [hb.accounted_congr]
    exact (accounted_failure_iff h ha hi hm hdecr).symm

/-- A packet that answers nothing takes back the right count iff nothing is counted there. -/
theorem accounted_unsolicited_iff (ha : Accounted s)
    (hdecr : modifyPollRequired s.td dev cid false = some td') :
    Accounted ⟨td', s.ledger⟩ ↔ ∀ chan, getChannelConfig cid = some chan → s.td.count dev chan = 0 := by
  obtain ⟨hnone, rfl⟩ | ⟨chan, hchan, hdev, hcount, -, hsent, -⟩ := modifyPollRequired_decr hdecr
  · exact iff_of_true ha fun chan hchan => by rw [hnone] at hchan; cases hchan
  · have hsame : ∀ dev' chan', outstanding ⟨td', s.ledger⟩ dev' chan' = outstanding s dev' chan' :=
      fun _ _ => outstanding_congr hsent rfl
    rw [accounted_decrement_iff ha hdev hcount fun dev' chan' _ => hsame dev' chan', hsame,
      ← ha dev hdev chan]
    simp only [hchan, some.injEq, forall_eq']
    omega

/-- A packet that answers a request takes back the right count iff the request is outstanding, or
nothing is counted there. -/
theorem accounted_answer_iff (ha : Accounted s) (hreq : IsRequest s.td i dev cid)
    (hdecr : modifyPollRequired s.td dev cid false = some td') :
    Accounted ⟨td', { s.ledger with answered := insert i s.ledger.answered }⟩ ↔
      ∀ chan, getChannelConfig cid = some chan →
        (i ∉ s.ledger.failed ∧ i ∉ s.ledger.answered) ∨ s.td.count dev chan = 0 := by
  have hstrike : td'.sent = s.td.sent → ∀ dev' chan',
      outstanding ⟨td', { s.ledger with answered := insert i s.ledger.answered }⟩ dev' chan' =
        (outstanding s dev' chan').erase i := fun hsent _ _ =>
    outstanding_strike hsent (observe_answer s.ledger i)
  have hwhich : ∀ dev' chan', i ∈ outstanding s dev' chan' → dev' = dev ∧ cid = chan' := by
    intro dev' chan' hmem
    obtain ⟨hdev, hcid⟩ := isRequest_unique hreq (mem_outstanding.mp hmem).1
    exact ⟨hdev.symm, hcid⟩
  obtain ⟨hnone, rfl⟩ | ⟨chan, hchan, hdev, hcount, -, hsent, -⟩ := modifyPollRequired_decr hdecr
  · refine iff_of_true ?_ fun chan hchan => by rw [hnone] at hchan; cases hchan
    refine accounted_of_notMem ha (fun _ _ => rfl) (hstrike rfl) fun dev' chan' _ hmem => ?_
    rw [getChannelConfig_eq_some.mpr (hwhich dev' chan' hmem).2] at hnone
    cases hnone
  · have hcid : cid = chan := getChannelConfig_eq_some.mp hchan
    rw [accounted_strike_iff ha hdev hcount (hstrike hsent), mem_outstanding]
    · simp only [hchan, some.injEq, forall_eq', hcid ▸ hreq, true_and, or_comm]
    · intro dev' chan' hmem
      obtain ⟨hdev', hcid'⟩ := hwhich dev' chan' hmem
      exact ⟨hdev', Fin.ext (hcid'.symm.trans hcid)⟩

/-- **A packet.** -/
theorem keepsCount_receive {sourceDev : Dev} {header : UInt8} {answers : Option ℕ}
    (h : Consistent s) (hstep : step s ⟨.receive sourceDev header client, answers⟩ = some s') :
    Consistent s' ∧
      (Accounted s → (KeepsCount s ⟨.receive sourceDev header client, answers⟩ ↔ Accounted s')) := by
  unfold step at hstep
  split_ifs at hstep with hpossible
  obtain ⟨td', htd, rfl⟩ := map_eq_some_iff.mp hstep
  obtain ⟨td1, hclient, hdecr⟩ := bind_eq_some_iff.mp htd
  have hb : Balanced s ⟨td1, s.ledger⟩ := by
    split at hclient
    · cases hclient
      exact .refl h
    · exact balanced_transmitAll h hclient
  have hzero : ∀ chan, getChannelConfig (caseCommsGetCID header) = some chan →
      (td1.count sourceDev chan = 0 ↔ s.td.count sourceDev chan = 0 ∧ ∀ t ∈ client,
        t.accepted? ≠ none → ¬(t.responseReqd ∧ t.dest = sourceDev ∧ t.cid = chan)) := by
    intro chan hchan
    rw [hchan] at hclient
    exact count_transmitAll_eq_zero hclient
  obtain ⟨hsent, hawaited⟩ : td'.sent = td1.sent ∧ td'.awaited = td1.awaited :=
    decrement_same (P := True) (by rwa [if_pos trivial])
  rcases answers with _ | i
  · refine ⟨hb.consistent.congr hsent hawaited rfl, fun ha => ?_⟩
    refine Iff.trans ?_ (accounted_unsolicited_iff (hb.accounted_congr.mpr ha) hdecr).symm
    refine forall_congr' fun chan => forall_congr' fun hchan => ?_
    rw [hzero chan hchan]
    simp
  · have hreq := hb.isRequest hpossible
    have hfresh : Consistent ⟨td', s.ledger⟩ := hb.consistent.congr hsent hawaited rfl
    refine ⟨⟨hfresh.awaited, hfresh.nodup, hfresh.failed, fun j hj => ?_, hfresh.header⟩,
      fun ha => ?_⟩
    · rcases Finset.mem_insert.mp hj with rfl | hj
      · exact hsent ▸ hreq.lt
      · exact hfresh.answered j hj
    · refine Iff.trans ?_ (accounted_answer_iff (hb.accounted_congr.mpr ha) hreq hdecr).symm
      refine forall_congr' fun chan => forall_congr' fun hchan => ?_
      rw [hzero chan hchan]
      simp

/-- **One event.** -/
theorem keepsCount_iff {o : Observed} (h : Consistent s) (hstep : step s o = some s') :
    Consistent s' ∧ (Accounted s → (KeepsCount s o ↔ Accounted s')) := by
  obtain ⟨event, answers⟩ := o
  cases event with
  | transmit t =>
    rw [step, if_pos (by trivial)] at hstep
    obtain ⟨td', htd, rfl⟩ := map_eq_some_iff.mp hstep
    have hb := balanced_transmitInternal h htd
    exact ⟨hb.consistent, fun ha => iff_of_true trivial (hb.accounted_congr.mpr ha)⟩
  | status i status client => exact keepsCount_status h hstep
  | receive sourceDev header client => exact keepsCount_receive h hstep
  | pollTimer id sink =>
    rw [step, if_pos (by trivial)] at hstep
    obtain ⟨td', htd, rfl⟩ := map_eq_some_iff.mp hstep
    obtain ⟨poll, -, rfl⟩ := map_eq_some_iff.mp htd
    have hb := balanced_pollTimer h id poll sink
    exact ⟨hb.consistent, fun ha => iff_of_true trivial (hb.accounted_congr.mpr ha)⟩

/-! ## Runs -/

theorem consistent_init : Consistent init := by
  refine ⟨?_, .nil, ?_, ?_, ?_⟩ <;> rintro _ ⟨⟩

theorem accounted_init : Accounted init := by
  rintro dev (rfl | rfl) chan <;> rfl

/-- **Accounting, exactly.** The counts are right in every state that a run leads through iff no
event of the run takes back a count for anything but an outstanding request. -/
theorem accounted_iff (os : List Observed) (s : Tracked) (hrun : run step init os = some s) :
    Throughout step Accounted init os ↔ Meets step KeepsCount init os := by
  have hinv : ∀ s o s', Consistent s → step s o = some s' → Consistent s' := fun _ _ _ h hstep =>
    (keepsCount_iff h hstep).1
  have hkeeps : ∀ s o s', Consistent s → Accounted s → step s o = some s' →
      (KeepsCount s o ↔ Accounted s') := fun _ _ _ h ha hstep => (keepsCount_iff h hstep).2 ha
  exact throughout_iff_meets hinv hkeeps consistent_init accounted_init hrun

def ready : SinkReply := ⟨100, 0, true⟩

/-- A request to the left earbud on the first channel, acknowledged, and a poll that times out. -/
def failedPoll : List Observed :=
  [⟨.transmit ⟨.leftEb, 0, 2, [1], true, ready⟩, none⟩, ⟨.status 0 .success [], none⟩,
    ⟨.pollTimer .left ready, none⟩, ⟨.status 1 .timeout [], none⟩]

/-- The request is outstanding, and nothing is counted. -/
theorem not_accounted_failedPoll :
    ∃ s, run step init failedPoll = some s ∧ s.td.count .leftEb 0 = 0 ∧
      (outstanding s .leftEb 0).card = 1 ∧ ¬ Accounted s := by
  refine ⟨_, rfl, by decide, by decide, fun h => ?_⟩
  exact absurd (h .leftEb (.inr rfl) 0) (by decide)

/-- The request without the poll. -/
theorem accounted_iff_two :
    Throughout step Accounted init [⟨.transmit ⟨.leftEb, 0, 2, [1], true, ready⟩, none⟩,
        ⟨.status 0 .success [], none⟩] ↔
      Meets step KeepsCount init [⟨.transmit ⟨.leftEb, 0, 2, [1], true, ready⟩, none⟩,
        ⟨.status 0 .success [], none⟩] :=
  accounted_iff _ _ rfl

end Mh40.CaseComms.Accounting
