import Mh40.Lib.HalfRange
import Mh40.Lib.Run
import Mh40.Rwcp.Server

/-!
# In-order delivery of one RWCP session

A session starts with a SYN that reaches the listening server and carries the number `base`. Its
data segments are numbered `1, 2, 3, …` after it and travel modulo 64 (`dataSegment`). `arrive` is
the session under one arrival (a duplicate SYN, the data segment `n`, a flow control change) and
keeps, beside the server, the number last accepted `L` and the log of the server's calls.

The window discipline `Admissible` is the one a client window of at most `RWCP_RECEIVE_WINDOW_MAX`
gives on a FIFO link: `L - 31 ≤ n ≤ L + 32`. Under it the wire numbers tell next, gap and duplicate
apart (`Lib/HalfRange.lean`), so the server simulates the receiver that compares absolute numbers
(`handle_dataSegment`), and the log holds exactly the segments `1, …, L`.
-/

namespace Mh40.Rwcp

open Lib List

/-- What reaches the server during a session. -/
inductive Arrival where
  | syn
  | data (n : ℕ)
  | flow (accept : Bool)
  deriving Repr, DecidableEq

/-- The session: the server, the number last accepted, whether a data segment has arrived, and the
calls the server made, each with the arrival that caused it. -/
structure Session where
  server : ServerData
  accepted : ℕ
  dataSeen : Bool
  log : List (Arrival × Output)

/-- The header of a client segment. -/
def clientHeader (command : UInt8) (number : ℕ) : UInt8 := command ||| UInt8.ofNat number

def synSegment (base : ℕ) : Segment := ⟨clientHeader clientCmdSyn base, []⟩

/-- The data segment `n` of the session that `base` started, with the payload `seg n`. -/
def dataSegment (base : ℕ) (seg : ℕ → List UInt8) (n : ℕ) : Segment :=
  ⟨clientHeader clientCmdData (wireNumber sequenceNumberMax base n), seg n⟩

def Output.isProcessCommand : Output → Bool
  | .processCommand _ => true
  | .notification _ => false

/-- The session after one arrival. The number last accepted is that of the segment whose payload
the server passed on. -/
def arrive (base : ℕ) (seg : ℕ → List UInt8) (t : Session) : Arrival → Session
  | .flow accept => { t with server := rwcpServerFlowControl t.server accept }
  | .syn =>
    let r := rwcpServerHandleMessage t.server (some (synSegment base))
    { t with server := r.1, log := t.log ++ r.2.1.map (Prod.mk .syn) }
  | .data n =>
    let r := rwcpServerHandleMessage t.server (some (dataSegment base seg n))
    { server := r.1
      accepted := if r.2.1.any Output.isProcessCommand then n else t.accepted
      dataSeen := true
      log := t.log ++ r.2.1.map (Prod.mk (.data n)) }

/-- The session that a SYN with the number `base` starts on the listening server `s`. -/
def openSession (base : ℕ) (s : ServerData) : Session :=
  arrive base (fun _ => []) ⟨s, 0, false, []⟩ .syn

/-- The arrivals the window allows: a SYN only before the first data segment, and a data segment
at most 31 behind and 32 ahead of the number last accepted. -/
def Admissible (t : Session) : Arrival → Prop
  | .syn => t.dataSeen = false
  | .data n => 1 ≤ n ∧ t.accepted ≤ n + 31 ∧ n ≤ t.accepted + receiveWindowMax
  | .flow _ => True

instance (t : Session) : ∀ a, Decidable (Admissible t a)
  | .syn => inferInstanceAs (Decidable (t.dataSeen = false))
  | .data n => inferInstanceAs (Decidable (1 ≤ n ∧ t.accepted ≤ n + 31 ∧ n ≤ t.accepted + _))
  | .flow _ => .isTrue trivial

/-- The payloads passed to `GaiaRwcpProcessCommand`, in order. -/
def processed (log : List (Arrival × Output)) : List (List UInt8) :=
  log.filterMap fun e => match e.2 with
    | .processCommand command => some command
    | .notification _ => none

/-- The first `L` segments of the session, in order. -/
def segments (seg : ℕ → List UInt8) (L : ℕ) : List (List UInt8) :=
  (List.range L).map fun k => seg (k + 1)

/-! ## Headers and numbers -/

theorem header_sequence : ∀ k < 64,
    clientHeader clientCmdData k &&& sequenceMask = UInt8.ofNat k ∧
      clientHeader clientCmdSyn k &&& sequenceMask = UInt8.ofNat k := by
  decide

theorem header_command : ∀ k < 64,
    clientHeader clientCmdData k &&& commandMask = clientCmdData ∧
      clientHeader clientCmdSyn k &&& commandMask = clientCmdSyn := by
  decide

variable {s : ServerData} {base : ℕ} {k : ℕ}

theorem toNat_ofNat_of_lt (h : k < 64) : (UInt8.ofNat k).toNat = k := by
  rw [UInt8.toNat_ofNat']
  omega

theorem wire_lt (base n : ℕ) : wireNumber sequenceNumberMax base n < 64 :=
  wireNumber_lt (by decide) base n

theorem isNextSequence_iff (hk : k < 64) :
    isNextSequence s (UInt8.ofNat k) = true ↔ k = (s.lastSequenceNumber.toNat + 1) % 64 := by
  unfold isNextSequence nextExpectedSequenceNumber sequenceNumberMax
  rw [beq_iff_eq]
  constructor
  · intro h
    have := congrArg UInt8.toNat h
    rwa [toNat_ofNat_of_lt hk, toNat_ofNat_of_lt (Nat.mod_lt _ (by decide))] at this
  · rintro rfl
    rfl

theorem isOutOfSequence_iff (hk : k < 64) (hl : s.lastSequenceNumber.toNat < 64) :
    isOutOfSequence s (UInt8.ofNat k) = true ↔
      0 < wireDistance 64 k s.lastSequenceNumber.toNat ∧
        wireDistance 64 k s.lastSequenceNumber.toNat ≤ 32 := by
  unfold isOutOfSequence wireDistance sequenceNumberMax receiveWindowMax
  simp only [decide_eq_true_eq, toNat_ofNat_of_lt hk]
  rw [Int.tmod_eq_emod_of_nonneg (by push_cast; omega)]
  push_cast
  omega

/-! ## One data segment -/

/-- The server in the middle of a session whose last accepted number is `L`. -/
structure InSession (base L : ℕ) (s : ServerData) (dataSeen : Bool) : Prop where
  last : s.lastSequenceNumber.toNat = wireNumber sequenceNumberMax base L
  state : s.protocolState = if dataSeen then .established else .synRcvd

/-- **The server is the receiver of absolute numbers**: inside the window it passes on exactly the
segment `L + 1`, mutes or announces a gap for a later one, and acknowledges an earlier one again. -/
theorem handleDataSegment_window {base L n : ℕ} (payload : List UInt8)
    (hlast : s.lastSequenceNumber.toNat = wireNumber sequenceNumberMax base L) (hlo : L ≤ n + 31)
    (hhi : n ≤ L + receiveWindowMax) :
    handleDataSegment s (UInt8.ofNat (wireNumber sequenceNumberMax base n)) payload =
      if s.acceptSegments then
        if n = L + 1 then
          ({ s with outOfSequenceStatus := false,
                    lastSequenceNumber := UInt8.ofNat (wireNumber sequenceNumberMax base n) },
            [rwcpDataAck (UInt8.ofNat (wireNumber sequenceNumberMax base n)),
              .processCommand payload], .inSequence)
        else if L < n then
          if !s.outOfSequenceStatus then
            ({ s with outOfSequenceStatus := true }, [rwcpGap s.lastSequenceNumber],
              .outOfSequence)
          else (s, [], .outOfSequence)
        else (s, [rwcpDataAck (UInt8.ofNat (wireNumber sequenceNumberMax base n))], .duplicate)
      else (s, [], .discarded) := by
  have hw := wire_lt base n
  have hnext : isNextSequence s (UInt8.ofNat (wireNumber sequenceNumberMax base n)) = true ↔
      n = L + 1 := by
    rw [isNextSequence_iff hw, hlast]
    exact wireNumber_eq_succ_iff (W := receiveWindowMax) (by decide) (by decide)
      (by simp only [sequenceNumberMax, receiveWindowMax]; omega) hhi
  have hahead : isOutOfSequence s (UInt8.ofNat (wireNumber sequenceNumberMax base n)) = true ↔
      L < n := by
    rw [isOutOfSequence_iff hw (by rw [hlast]; exact wire_lt base L), hlast]
    exact ahead_iff (W := receiveWindowMax) (by decide)
      (by simp only [receiveWindowMax]; omega) hhi
  unfold handleDataSegment
  simp only [hnext, hahead]

/-- The DATA_ACK for the segment `n`. -/
def dataAckOf (base n : ℕ) : Output :=
  rwcpDataAck (UInt8.ofNat (wireNumber sequenceNumberMax base n))

/-- Whether a notification is a DATA_ACK. -/
def isDataAck (header : UInt8) : Bool := header &&& commandMask == serverCmdDataAck

theorem ack_header : ∀ k < 64,
    rwcpDataAck (UInt8.ofNat k) = .notification (UInt8.ofNat k) ∧ isDataAck (UInt8.ofNat k) = true := by
  decide

theorem not_ack_header : ∀ k < 64, ∀ header,
    (rwcpGap (UInt8.ofNat k) = .notification header ∨
      rwcpSynAck (UInt8.ofNat k) = .notification header) → isDataAck header = false := by
  intro k hk header h
  have hgap : ∀ k < 64, isDataAck (UInt8.ofNat k &&& sequenceMask ||| serverCmdGap &&& commandMask)
      = false := by decide
  have hsyn : ∀ k < 64,
      isDataAck (UInt8.ofNat k &&& sequenceMask ||| serverCmdSynAck &&& commandMask) = false := by
    decide
  rcases h with h | h
  · rw [← Output.notification.inj h]
    exact hgap k hk
  · rw [← Output.notification.inj h]
    exact hsyn k hk

theorem ofNat_toNat_last {base L : ℕ} {seen : Bool} (h : InSession base L s seen) :
    s.lastSequenceNumber = UInt8.ofNat (wireNumber sequenceNumberMax base L) := by
  rw [← h.last, UInt8.ofNat_toNat]

/-- What the server does with a data segment inside the window: it accepts the next one, or stays
at `L` and sends nothing, a gap, or the acknowledgement of a segment it has. -/
theorem handle_dataSegment {base L n : ℕ} (seg : ℕ → List UInt8) {seen : Bool}
    (hs : InSession base L s seen) (hlo : L ≤ n + 31) (hhi : n ≤ L + receiveWindowMax) :
    let r := rwcpServerHandleMessage s (some (dataSegment base seg n))
    (n = L + 1 ∧ r.2.1 = [dataAckOf base n, .processCommand (seg n)] ∧
        InSession base n r.1 true) ∨
      (InSession base L r.1 true ∧
        (r.2.1 = [] ∨ r.2.1 = [rwcpGap s.lastSequenceNumber] ∨
          (r.2.1 = [dataAckOf base n] ∧ n ≤ L))) := by
  have hw := wire_lt base n
  have hseq := (header_sequence _ hw).1
  have hcmd := (header_command _ hw).1
  -- both states hand the segment to `handleDataSegment`, the first after clearing the mute
  have key : ∀ s' : ServerData, s'.lastSequenceNumber = s.lastSequenceNumber →
      let r := handleDataSegment s' (UInt8.ofNat (wireNumber sequenceNumberMax base n)) (seg n)
      (n = L + 1 ∧ r.2.1 = [dataAckOf base n, .processCommand (seg n)] ∧
          r.1.lastSequenceNumber = UInt8.ofNat (wireNumber sequenceNumberMax base n)) ∨
        (r.1.lastSequenceNumber = s.lastSequenceNumber ∧
          (r.2.1 = [] ∨ r.2.1 = [rwcpGap s.lastSequenceNumber] ∨
            (r.2.1 = [dataAckOf base n] ∧ n ≤ L))) := by
    intro s' hl
    rw [handleDataSegment_window (seg n) (by rw [hl]; exact hs.last) hlo hhi]
    split
    · split
      · rename_i hn
        exact Or.inl ⟨hn, rfl, rfl⟩
      · split
        · split
          · exact Or.inr ⟨hl, Or.inr (Or.inl (by rw [hl]))⟩
          · exact Or.inr ⟨hl, Or.inl rfl⟩
        · exact Or.inr ⟨hl, Or.inr (Or.inr ⟨rfl, by omega⟩)⟩
    · exact Or.inr ⟨hl, Or.inl rfl⟩
  have hfinal : ∀ (r : ServerData), r.protocolState = .established →
      (∀ m, r.lastSequenceNumber = UInt8.ofNat (wireNumber sequenceNumberMax base m) →
        InSession base m r true) := by
    intro r hr m hm
    exact ⟨by rw [hm, toNat_ofNat_of_lt (wire_lt base m)], hr⟩
  intro r
  cases seen with
  | false =>
    have hst : s.protocolState = .synRcvd := hs.state
    have hr : r.1 = { (handleDataSegment { s with outOfSequenceStatus := false }
          (UInt8.ofNat (wireNumber sequenceNumberMax base n)) (seg n)).1 with
          protocolState := .established } ∧
        r.2.1 = (handleDataSegment { s with outOfSequenceStatus := false }
          (UInt8.ofNat (wireNumber sequenceNumberMax base n)) (seg n)).2.1 := by
      simp only [r, rwcpServerHandleMessage, dataSegment, hseq, hcmd, handleSegment, hst]
      exact ⟨rfl, rfl⟩
    rcases key { s with outOfSequenceStatus := false } rfl with ⟨hn, ho, hl⟩ | ⟨hl, ho⟩
    · exact Or.inl ⟨hn, hr.2.trans ho, hfinal _ (by rw [hr.1]) n (by rw [hr.1]; exact hl)⟩
    · refine Or.inr ⟨hfinal _ (by rw [hr.1]) L ?_, ?_⟩
      · rw [hr.1, ← ofNat_toNat_last hs]
        exact hl
      · rw [hr.2]
        exact ho
  | true =>
    have hst : s.protocolState = .established := hs.state
    have hr : r.1 = (handleDataSegment s
          (UInt8.ofNat (wireNumber sequenceNumberMax base n)) (seg n)).1 ∧
        r.2.1 = (handleDataSegment s
          (UInt8.ofNat (wireNumber sequenceNumberMax base n)) (seg n)).2.1 := by
      simp only [r, rwcpServerHandleMessage, dataSegment, hseq, hcmd, handleSegment, hst]
      exact ⟨rfl, rfl⟩
    have hkeep : r.1.protocolState = .established := by
      rw [hr.1, handleDataSegment_window (seg n) hs.last hlo hhi]
      split
      · split
        · exact hst
        · split
          · split
            · exact hst
            · exact hst
          · exact hst
      · exact hst
    rcases key s rfl with ⟨hn, ho, hl⟩ | ⟨hl, ho⟩
    · exact Or.inl ⟨hn, hr.2.trans ho, hfinal _ hkeep n (by rw [hr.1]; exact hl)⟩
    · refine Or.inr ⟨hfinal _ hkeep L ?_, ?_⟩
      · rw [hr.1, ← ofNat_toNat_last hs]
        exact hl
      · rw [hr.2]
        exact ho

/-! ## The session -/

/-- Every DATA_ACK of the log is for a segment already passed on, or for the one the server passes
on next. -/
def AcksDelivered (base : ℕ) (seg : ℕ → List UInt8) (log : List (Arrival × Output)) : Prop :=
  ∀ pre a header post, log = pre ++ (a, .notification header) :: post → isDataAck header = true →
    ∃ n, a = .data n ∧ .notification header = dataAckOf base n ∧ 1 ≤ n ∧
      (n ≤ (processed pre).length ∨
        n = (processed pre).length + 1 ∧ post.head? = some (a, .processCommand (seg n)))

/-- What holds of the session after every admissible arrival. -/
structure Delivers (base : ℕ) (seg : ℕ → List UInt8) (t : Session) : Prop where
  inSession : InSession base t.accepted t.server t.dataSeen
  fresh : t.dataSeen = false → t.accepted = 0
  delivered : processed t.log = segments seg t.accepted
  acks : AcksDelivered base seg t.log

theorem processed_append (l m : List (Arrival × Output)) :
    processed (l ++ m) = processed l ++ processed m := filterMap_append

theorem segments_succ (seg : ℕ → List UInt8) (L : ℕ) :
    segments seg (L + 1) = segments seg L ++ [seg (L + 1)] := by
  unfold segments
  rw [range_succ, map_append, map_singleton]

theorem segments_length (seg : ℕ → List UInt8) (L : ℕ) : (segments seg L).length = L := by
  simp [segments]

/-- An entry of an appended log lies in one part or the other. -/
theorem split_append {α : Type} {l m pre post : List α} {x : α}
    (h : l ++ m = pre ++ x :: post) :
    (∃ post', l = pre ++ x :: post' ∧ post = post' ++ m) ∨
      (∃ pre', pre = l ++ pre' ∧ m = pre' ++ x :: post) := by
  rcases append_eq_append_iff.mp h with ⟨as, hp, hm⟩ | ⟨bs, hl, hx⟩
  · exact Or.inr ⟨as, hp, hm⟩
  · cases bs with
    | nil => exact Or.inr ⟨[], by simpa using hl.symm, by simpa using hx.symm⟩
    | cons b bs =>
      simp only [cons_append, cons.injEq] at hx
      obtain ⟨rfl, rfl⟩ := hx
      exact Or.inl ⟨bs, hl, rfl⟩

/-- Appended calls keep the acknowledgements sound when theirs are, counted on from the log. -/
theorem AcksDelivered.append {seg : ℕ → List UInt8} {log m : List (Arrival × Output)}
    (h : AcksDelivered base seg log)
    (hm : ∀ pre a header post, m = pre ++ (a, .notification header) :: post →
      isDataAck header = true → ∃ n, a = .data n ∧ .notification header = dataAckOf base n ∧ 1 ≤ n ∧
        (n ≤ (processed (log ++ pre)).length ∨
          n = (processed (log ++ pre)).length + 1 ∧
            post.head? = some (a, .processCommand (seg n)))) :
    AcksDelivered base seg (log ++ m) := by
  intro pre a header post hsplit hack
  rcases split_append hsplit with ⟨post', hl, rfl⟩ | ⟨pre', rfl, hm'⟩
  · obtain ⟨n, ha, hh, hn, hd⟩ := h pre a header post' hl hack
    refine ⟨n, ha, hh, hn, hd.imp_right fun ⟨he, hp⟩ => ⟨he, ?_⟩⟩
    cases post' with
    | nil => simp at hp
    | cons x post' => simpa using hp
  · exact hm pre' a header post hm' hack

/-- The step lemma: an admissible arrival keeps the session delivering. -/
theorem arrive_delivers (hb : base < 64) {seg : ℕ → List UInt8} {t : Session} (a : Arrival)
    (ht : Delivers base seg t) (ha : Admissible t a) :
    Delivers base seg (arrive base seg t a) := by
  cases a with
  | flow accept => exact ⟨⟨ht.inSession.last, ht.inSession.state⟩, ht.fresh, ht.delivered, ht.acks⟩
  | syn =>
    have hseen : t.dataSeen = false := ha
    have hst : t.server.protocolState = .synRcvd := by
      rw [ht.inSession.state, hseen]
      rfl
    have hr : rwcpServerHandleMessage t.server (some (synSegment base)) =
        ({ t.server with lastSequenceNumber := UInt8.ofNat base },
          [rwcpSynAck (UInt8.ofNat base)], false) := by
      simp only [rwcpServerHandleMessage, synSegment, (header_sequence base hb).2,
        (header_command base hb).2, handleSegment, hst]
      rfl
    have hpost : arrive base seg t .syn =
        { t with server := { t.server with lastSequenceNumber := UInt8.ofNat base },
                 log := t.log ++ [(.syn, rwcpSynAck (UInt8.ofNat base))] } := by
      simp only [arrive, hr, map_cons, map_nil]
    rw [hpost]
    refine ⟨⟨?_, ht.inSession.state⟩, ht.fresh, ?_, ?_⟩
    · rw [toNat_ofNat_of_lt hb, ht.fresh hseen]
      exact (wireNumber_zero hb).symm
    · rw [processed_append, ht.delivered]
      exact append_nil _
    · refine ht.acks.append fun pre a header post hm hack => ?_
      obtain ⟨rfl, hx⟩ : pre = [] ∧ (Arrival.syn, rwcpSynAck (UInt8.ofNat base)) =
          (a, Output.notification header) := by
        cases pre with
        | nil => exact ⟨rfl, (cons.inj hm).1⟩
        | cons _ pre => simp at hm
      rw [not_ack_header base hb header (Or.inr (congrArg Prod.snd hx))] at hack
      exact absurd hack Bool.false_ne_true
  | data n =>
    obtain ⟨hn1, hlo, hhi⟩ := ha
    have hack := ack_header _ (wire_lt base n)
    rcases handle_dataSegment seg ht.inSession hlo hhi with ⟨hn, ho, hin⟩ | ⟨hin, ho⟩
    · -- the next segment: acknowledged, then passed on
      have hpost : arrive base seg t (.data n) =
          ⟨(rwcpServerHandleMessage t.server (some (dataSegment base seg n))).1, n, true,
            t.log ++ [(.data n, dataAckOf base n), (.data n, .processCommand (seg n))]⟩ := by
        simp [arrive, ho, Output.isProcessCommand]
      rw [hpost]
      refine ⟨hin, fun h => absurd h (by simp), ?_, ?_⟩
      · rw [processed_append, ht.delivered, hn, segments_succ]
        unfold dataAckOf
        rw [hn] at hack
        rw [hack.1]
        rfl
      · refine ht.acks.append fun pre a header post hm _ => ?_
        cases pre with
        | nil =>
          obtain ⟨hx, rfl⟩ := cons.inj hm
          obtain ⟨ha, hh⟩ := Prod.mk.inj hx
          refine ⟨n, ha.symm, hh.symm, hn1, Or.inr ⟨?_, by rw [← ha]; rfl⟩⟩
          rw [append_nil, ht.delivered, segments_length, hn]
        | cons x pre =>
          obtain ⟨-, hm'⟩ := cons.inj hm
          cases pre with
          | nil => exact absurd (congrArg Prod.snd (cons.inj hm').1) (by simp)
          | cons y pre => simp at hm'
    · -- nothing is passed on: at most one notification
      have hpost : ∀ out : List Output, out = [] ∨ out = [rwcpGap t.server.lastSequenceNumber] ∨
          out = [dataAckOf base n] → out.any Output.isProcessCommand = false := by
        rintro out (rfl | rfl | rfl)
        · rfl
        · rfl
        · rfl
      have hany := hpost _ (ho.imp_right (Or.imp_right And.left))
      have harr : arrive base seg t (.data n) =
          ⟨(rwcpServerHandleMessage t.server (some (dataSegment base seg n))).1, t.accepted, true,
            t.log ++ (rwcpServerHandleMessage t.server
              (some (dataSegment base seg n))).2.1.map (Prod.mk (.data n))⟩ := by
        simp only [arrive, hany]
        rfl
      have hnone : processed ((rwcpServerHandleMessage t.server
          (some (dataSegment base seg n))).2.1.map (Prod.mk (.data n))) = [] := by
        rcases ho with ho | ho | ⟨ho, -⟩ <;> rw [ho] <;> rfl
      rw [harr]
      refine ⟨hin, fun h => absurd h (by simp), ?_, ?_⟩
      · rw [processed_append, hnone, append_nil, ht.delivered]
      · refine ht.acks.append fun pre a header post hm hh => ?_
        rcases ho with ho | ho | ⟨ho, hle⟩
        · rw [ho] at hm
          simp at hm
        · rw [ho, ofNat_toNat_last ht.inSession] at hm
          cases pre with
          | nil =>
            have hx := congrArg Prod.snd (cons.inj hm).1
            rw [not_ack_header _ (wire_lt base _) header (Or.inl hx)] at hh
            exact absurd hh Bool.false_ne_true
          | cons _ pre => simp at hm
        · rw [ho] at hm
          cases pre with
          | nil =>
            have hx := (cons.inj hm).1
            refine ⟨n, (congrArg Prod.fst hx).symm, (congrArg Prod.snd hx).symm, hn1, Or.inl ?_⟩
            rw [append_nil, ht.delivered, segments_length]
            exact hle
          | cons _ pre => simp at hm

/-- The SYN that reaches the listening server opens a delivering session. -/
theorem openSession_delivers (hb : base < 64) (seg : ℕ → List UInt8)
    (hs : s.protocolState = .listen) : Delivers base seg (openSession base s) := by
  have hr : rwcpServerHandleMessage s (some (synSegment base)) =
      ({ s with lastSequenceNumber := UInt8.ofNat base, protocolState := .synRcvd },
        [rwcpSynAck (UInt8.ofNat base)], false) := by
    simp only [rwcpServerHandleMessage, synSegment, (header_sequence base hb).2,
      (header_command base hb).2, handleSegment, hs]
    rfl
  unfold openSession arrive
  simp only [hr]
  refine ⟨⟨?_, rfl⟩, fun _ => rfl, rfl, ?_⟩
  · rw [toNat_ofNat_of_lt hb]
    exact (wireNumber_zero hb).symm
  · intro pre a header post hm hack
    cases pre with
    | nil =>
      have hx := congrArg Prod.snd (cons.inj hm).1
      rw [not_ack_header base hb header (Or.inr hx)] at hack
      exact absurd hack Bool.false_ne_true
    | cons _ pre => simp at hm

/-- **In-order delivery.** After any admissible arrivals, the payloads passed on are exactly the
segments `1, …, L` in order, and every DATA_ACK is for a segment passed on before it or by the
same call right after it. -/
theorem session_delivers {base : ℕ} (hb : base < 64) (seg : ℕ → List UInt8) {s : ServerData}
    (hs : s.protocolState = .listen) {arrivals : List Arrival} {t : Session}
    (hm : Meets (fun t a => some (arrive base seg t a)) Admissible (openSession base s) arrivals)
    (hr : run (fun t a => some (arrive base seg t a)) (openSession base s) arrivals = some t) :
    processed t.log = segments seg t.accepted ∧ AcksDelivered base seg t.log := by
  have h := invariant_of_meets (fun u a u' hu ha hstep => by
    cases hstep
    exact arrive_delivers hb a hu ha) (openSession_delivers hb seg hs) hm hr
  exact ⟨h.delivered, h.acks⟩

/-- A listening server as `RwcpServerInit` leaves it, and the payloads `[1], [2], …`. -/
def listening : ServerData := ⟨.listen, false, 0, true⟩

def numbered (n : ℕ) : List UInt8 := [UInt8.ofNat n]

/-- A session across the wrap: a segment refused by flow control, a gap, a repeated SYN-number and
a stale segment. -/
theorem session_delivers_wrap :
    ∃ t, run (fun t a => some (arrive 62 numbered t a)) (openSession 62 listening)
        [.syn, .flow false, .data 1, .flow true, .data 2, .data 1, .data 2, .data 1] = some t ∧
      processed t.log = segments numbered t.accepted ∧ AcksDelivered 62 numbered t.log :=
  ⟨_, rfl, @session_delivers 62 (by decide) numbered listening rfl
    [.syn, .flow false, .data 1, .flow true, .data 2, .data 1, .data 2, .data 1] _ (by decide) rfl⟩

/-- The acknowledgement of an accepted segment leaves before its payload: the first DATA_ACK of a
session precedes every delivery. -/
theorem first_ack_precedes_delivery :
    ¬ ∀ (base : ℕ) (seg : ℕ → List UInt8) (s : ServerData) (arrivals : List Arrival) (t : Session),
      base < 64 → s.protocolState = .listen →
      Meets (fun t a => some (arrive base seg t a)) Admissible (openSession base s) arrivals →
      run (fun t a => some (arrive base seg t a)) (openSession base s) arrivals = some t →
      processed t.log = segments seg t.accepted ∧
        ∀ pre a header post, t.log = pre ++ (a, .notification header) :: post →
          isDataAck header = true →
          ∃ n, a = .data n ∧ .notification header = dataAckOf base n ∧ 1 ≤ n ∧
            n ≤ (processed pre).length := by
  intro h
  obtain ⟨-, hack⟩ := h 0 numbered listening [.data 1] _ (by decide) rfl (by decide) rfl
  obtain ⟨n, -, -, hn, hle⟩ := hack [(.syn, rwcpSynAck 0)] (.data 1) 1
    [(.data 1, .processCommand [1])] rfl rfl
  have hnone : (processed [(Arrival.syn, rwcpSynAck 0)]).length = 0 := rfl
  omega

end Mh40.Rwcp
