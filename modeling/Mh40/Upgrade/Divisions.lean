import Mh40.Upgrade.HostFile
import Mh40.Upgrade.StateMachine

/-!
# Divisions of the parser

The parser divides by the size of the request, for a percentage, and by the duration of a section,
for a rate. Both quotients go to the log only.

* `parseDivisors`: the divisors of a packet, in order.
* `requests_parse_iff`: the only packet that leaves no request behind is the header of a file for
  the case. The other way to no request is `UpgradePartitionDataStopData`.
* `safe_iff`: the runs in which no divisor is 0.
-/

namespace Mh40.Upgrade

open Option

variable {device : Device} {parser parser' : Parser} {ctx ctx' : PartitionData}
  {data block : List UInt8} {rc : HostErrorCode} {sm sm' : StateMachine}
  {r : HostErrorCode × PartitionData}

/-! ## Divisors -/

/-- `duration_ms` of `UpgradePartitionDataHandleDataState`: the difference of the times is signed,
and the quotient is stored as unsigned. -/
def durationMs (now timeStart : Rtime.RtimeT) : BitVec 32 :=
  (Rtime.rtimeSub now timeStart).sdiv 1000

/-- The divisors of `UpgradePartitionDataHandleDataState`. -/
def handleDataStateDivisors (device : Device) (ctx : PartitionData) (data : List UInt8)
    (reqComplete : Bool) (duration : BitVec 32) : List ℕ :=
  if (partitionWrite device ctx data).1 ∧ reqComplete then [duration.toNat] else []

/-- The divisors of `upgradeParseCompleteData`. -/
def parseCompleteDataDivisors (device : Device) (parser : Parser) (data : List UInt8)
    (reqComplete : Bool) (duration : BitVec 32) : List ℕ :=
  match parser.ctx.state with
  | .data => handleDataStateDivisors device parser.ctx data reqComplete duration
  | _ => []

/-- The divisors of `UpgradePartitionDataParseIncomplete`. -/
def parseIncompleteDivisors (device : Device) (parser : Parser) (data : List UInt8)
    (duration : BitVec 32) : List ℕ :=
  match storeIncomplete parser data with
  | (.success, parser) =>
    if parser.ctx.totalReceivedSize = parser.ctx.totalReqSize then
      parseCompleteDataDivisors device parser parser.incompleteData true duration
    else []
  | _ => []

/-- The divisors of `UpgradePartitionDataParse`. -/
def parseDivisors (device : Device) (parser : Parser) (data : List UInt8) (duration : BitVec 32) :
    List ℕ :=
  let parser := { parser with ctx := received parser.ctx data.length }
  parser.ctx.totalReqSize ::
    if parser.ctx.totalReceivedSize > parser.ctx.totalReqSize then []
    else if parser.incompleteData ≠ [] then parseIncompleteDivisors device parser data duration
    else parseCompleteDataDivisors device parser data
      (parser.ctx.totalReceivedSize = parser.ctx.totalReqSize) duration

/-- No division by zero is executed. -/
def NoZeroDivisor (device : Device) (sm : StateMachine) : Event → Prop
  | .hostData packet => Processes sm →
    ∀ divisor ∈ parseDivisors device sm.parser packet.data (durationMs packet.now sm.timeStart),
      divisor ≠ 0
  | _ => True

instance (device : Device) (sm : StateMachine) (event : Event) :
    Decidable (NoZeroDivisor device sm event) := by
  cases event <;> unfold NoZeroDivisor <;> infer_instance

/-- In no step of a run a division by zero is executed. -/
def Safe (device : Device) : StateMachine → List Event → Prop :=
  Lib.Meets (handleMsg device) (NoZeroDivisor device)

/-! ## The duration -/

theorem durationMs_eq_zero_iff (now timeStart : Rtime.RtimeT) :
    (durationMs now timeStart).toNat = 0 ↔ (now - timeStart).toInt.natAbs < 1000 := by
  have hquot : (durationMs now timeStart).toInt = (now - timeStart).toInt.tdiv 1000 :=
    BitVec.toInt_sdiv_of_ne_or_ne _ _ (.inr (by decide))
  have hzero : (durationMs now timeStart).toNat = 0 ↔ (durationMs now timeStart).toInt = 0 := by
    have h := BitVec.toInt_inj (x := durationMs now timeStart) (y := 0)
    rw [BitVec.toNat_eq] at h
    exact h.symm
  rw [hzero, hquot, ← Int.natAbs_eq_zero, Int.natAbs_tdiv]
  exact Nat.div_eq_zero_iff_lt (by decide)

/-- The packet completes the data of a section, and all of it can be written. -/
def CompletesSection (parser : Parser) (data : List UInt8) : Prop :=
  ∃ block, completedBlock parser data = some block ∧ parser.ctx.state = .data ∧
    (block = [] ∨ parser.ctx.partitionHdl ≠ none)

theorem partitionWrite_fst (device : Device) (ctx : PartitionData) (data : List UInt8) :
    (partitionWrite device ctx data).1 = true ↔ data = [] ∨ ctx.partitionHdl ≠ none := by
  unfold partitionWrite
  cases ctx.partitionHdl with
  | none => simp
  | some sink => simp

theorem mem_parseCompleteDataDivisors {reqComplete : Bool} {duration : BitVec 32} {divisor : ℕ} :
    divisor ∈ parseCompleteDataDivisors device parser data reqComplete duration ↔
      reqComplete = true ∧ parser.ctx.state = .data ∧
        (data = [] ∨ parser.ctx.partitionHdl ≠ none) ∧ divisor = duration.toNat := by
  unfold parseCompleteDataDivisors handleDataStateDivisors
  simp only [partitionWrite_fst]
  cases parser.ctx.state <;> simp [and_assoc, and_left_comm]

/-- The parser divides by the duration of a section when the section is complete. -/
theorem mem_parseDivisors {duration : BitVec 32} {divisor : ℕ} :
    divisor ∈ parseDivisors device parser data duration ↔ divisor = parser.ctx.totalReqSize ∨
      CompletesSection parser data ∧ divisor = duration.toNat := by
  have htotal : (received parser.ctx data.length).totalReceivedSize =
      parser.ctx.totalReceivedSize + data.length := rfl
  have hreq : (received parser.ctx data.length).totalReqSize = parser.ctx.totalReqSize := rfl
  unfold parseDivisors CompletesSection completedBlock
  dsimp only
  rw [List.mem_cons, htotal, hreq]
  refine or_congr Iff.rfl ?_
  by_cases hall : parser.ctx.totalReceivedSize + data.length = parser.ctx.totalReqSize
  · rw [if_neg (by omega), if_neg (not_not.mpr hall)]
    by_cases hinc : parser.incompleteData = []
    · rw [if_neg (not_not.mpr hinc), if_pos hinc, mem_parseCompleteDataDivisors]
      simp [hall, received, and_assoc]
    · rw [if_pos hinc, if_neg hinc, parseIncompleteDivisors, storeIncomplete]
      dsimp only
      split_ifs
      · simp
      · dsimp only
        rw [if_pos (by rw [htotal, hreq]; exact hall), mem_parseCompleteDataDivisors]
        simp [received, and_assoc]
  · rw [if_pos hall]
    split_ifs
    · simp
    · unfold parseIncompleteDivisors storeIncomplete
      dsimp only
      split_ifs
      · simp
      · dsimp only
        rw [if_neg (by rw [htotal, hreq]; exact hall)]
        simp
    · rw [mem_parseCompleteDataDivisors]
      simp [hall]

/-! ## Requests of the handlers -/

/-- Something is requested. -/
def Requests (ctx : PartitionData) : Prop := ctx.totalReqSize ≠ 0

theorem totalReqSize_saveHeaderInPSKeys (ctx : PartitionData) (data : List UInt8) :
    (saveHeaderInPSKeys ctx data).2.totalReqSize = ctx.totalReqSize := by
  obtain ⟨ops, keys, pskey, offset, hs⟩ := saveHeaderInPSKeys_eq ctx data
  rw [hs]

theorem requests_saveHeaderInPSKeys (h : Requests ctx) (data : List UInt8) :
    Requests (saveHeaderInPSKeys ctx data).2 := by
  rwa [Requests, totalReqSize_saveHeaderInPSKeys]

theorem requests_closeSection (device : Device) (h : Requests ctx) :
    Requests (closeSection device ctx).2 := by
  rwa [Requests, (HostFile.sameRequest_closeSection device ctx).totalReqSize]

theorem requests_partitionWrite (device : Device) (h : Requests ctx) (data : List UInt8) :
    Requests (partitionWrite device ctx data).2 := by
  rwa [Requests, (HostFile.sameRequest_partitionWrite device ctx data).totalReqSize]

theorem requests_andThen {next : PartitionData → HostErrorCode × PartitionData} (h : Requests r.2)
    (hnext : ∀ ctx, Requests ctx → Requests (next ctx).2) : Requests (andThen r next).2 := by
  unfold andThen
  split_ifs
  · exact hnext _ h
  · exact h

section

variable (h : Requests ctx)
include h

theorem requests_startHeader (data : List UInt8) (length : ℕ) :
    Requests (startHeader ctx data length).2 := by
  unfold startHeader
  split_ifs with hlen
  · exact h
  · refine requests_andThen (requests_saveHeaderInPSKeys (by exact h) data) fun _ _ => ?_
    unfold headerMinSecondPartSize at hlen
    show length ≠ 0
    omega

theorem requests_startPartition (data : List UInt8) (length : ℕ) :
    Requests (startPartition ctx data length).2 := by
  unfold startPartition
  split_ifs
  · exact h
  · exact h
  · exact requests_andThen (requests_saveHeaderInPSKeys h data) fun _ _ => Nat.succ_ne_zero 7

theorem requests_startFooter (data : List UInt8) (length : ℕ) :
    Requests (startFooter ctx data length).2 := by
  unfold startFooter
  split_ifs with hlen
  · exact h
  · refine requests_andThen (requests_saveHeaderInPSKeys (by exact h) data) fun _ _ => ?_
    show length ≠ 0
    rw [not_not.mp hlen]
    decide

/-- A file for the case leaves no request behind. -/
theorem requests_startCase_iff (data : List UInt8) (length : ℕ) :
    Requests (startCase ctx data length).2 ↔ (startCase ctx data length).1 ≠ .success := by
  unfold startCase andThen
  dsimp only
  split_ifs with hs
  · exact ⟨fun hr => absurd rfl hr, fun hne => absurd rfl hne⟩
  · exact iff_of_true (requests_saveHeaderInPSKeys (by exact h) data) hs

theorem requests_handleHeaderState (hr : handleHeaderState device ctx data = some r) :
    Requests r.2 := by
  obtain ⟨result, -, rfl⟩ := map_eq_some_iff.mp hr
  cases result with
  | error rc => exact h
  | ok versions =>
    refine requests_andThen (requests_saveHeaderInPSKeys (by exact h) data) fun _ _ => ?_
    exact Nat.succ_ne_zero 11

theorem requests_startSection (offset : ℕ) :
    Requests (startSection device ctx offset).2 := by
  unfold startSection
  split_ifs
  · show ctx.partitionLength - offset - firstWordSize ≠ 0
    omega
  · exact requests_andThen (requests_closeSection device h) fun _ _ => Nat.succ_ne_zero 11
  · exact h

end

theorem requests_openSection (device : Device) (h : Requests ctx) (partNum firstWord : ℕ) :
    Requests (openSection device ctx partNum firstWord) := by
  unfold openSection partitionOpen
  split
  · split_ifs <;> exact h
  · exact h

theorem requests_enterSection (h : Requests ctx) (partNum firstWord : ℕ) :
    Requests (enterSection device ctx partNum firstWord).2 := by
  have hvalid : Requests (validateUpdate ctx partNum).2 := by
    unfold validateUpdate
    split_ifs <;> exact h
  unfold enterSection
  dsimp only
  split_ifs
  · exact hvalid
  · exact Nat.succ_ne_zero 11
  · exact hvalid
  · have hopen := requests_openSection device hvalid partNum firstWord
    split
    · exact hopen
    · exact requests_startSection hopen _

theorem requests_handleDataHeaderState (h : Requests ctx)
    (hr : handleDataHeaderState device ctx data = some r) : Requests r.2 := by
  unfold handleDataHeaderState at hr
  simp only [Option.pure_def, bind_eq_bind] at hr
  split_ifs at hr
  · cases hr
    exact h
  obtain ⟨sqifNum, -, hr⟩ := bind_eq_some_iff.mp hr
  obtain ⟨partNum, -, hr⟩ := bind_eq_some_iff.mp hr
  split_ifs at hr
  · cases hr
    exact h
  · cases hr
    exact h
  · cases hr
    exact requests_andThen (requests_saveHeaderInPSKeys h _) fun _ h' =>
      requests_enterSection h' _ _

theorem requests_handleDataState (h : Requests ctx) (data : List UInt8) (reqComplete : Bool) :
    Requests (handleDataState device ctx data reqComplete).2 := by
  have hw := requests_partitionWrite device h data
  unfold handleDataState
  dsimp only
  split_ifs
  · exact hw
  · exact requests_andThen (requests_closeSection device (Nat.succ_ne_zero 11)) fun _ h' => h'
  · exact hw

theorem requests_handleFooterState (h : Requests ctx) (data : List UInt8) (reqComplete : Bool) :
    Requests (handleFooterState ctx data reqComplete).2 := by
  have hsave : Requests (saveFooter ctx data).2 := by
    unfold saveFooter
    split_ifs
    · exact h
    · exact requests_saveHeaderInPSKeys (by exact h) data
  unfold handleFooterState
  refine requests_andThen hsave fun _ h' => ?_
  split_ifs <;> exact h'

/-- A block is the header of a file for the case. -/
def IsCaseHeader (device : Device) (ctx : PartitionData) (block : List UInt8) : Prop :=
  ctx.state = .generic1stPart ∧ headerFirstPartSize ≤ block.length ∧
    device.isCaseDfuSupported = true ∧ strncmpEq idFieldSize block extCaseDfuFileHeader = true

theorem not_headerId {block : List UInt8}
    (h : strncmpEq idFieldSize block extCaseDfuFileHeader = true) :
    strncmpEq idFieldSize block headerId = false := by
  cases block with
  | nil => rfl
  | cons b block =>
    have hb : b = 0x45 := by
      have := (Bool.and_eq_true _ _).mp h
      exact of_decide_eq_true this.1
    subst hb
    rfl

theorem requests_handleGeneric1stPartState_iff (hstate : ctx.state = .generic1stPart)
    (h : Requests ctx) (hr : handleGeneric1stPartState device ctx data = some r) :
    Requests r.2 ↔ ¬ (IsCaseHeader device ctx data ∧ r.1 = .success) := by
  unfold handleGeneric1stPartState at hr
  by_cases hshort : data.length < headerFirstPartSize
  · rw [if_pos hshort] at hr
    cases hr
    exact iff_of_true h fun hc => absurd hc.1.2.1 (by omega)
  rw [if_neg hshort] at hr
  obtain ⟨length, -, rfl⟩ := map_eq_some_iff.mp hr
  by_cases hcase : device.isCaseDfuSupported = true ∧
      strncmpEq idFieldSize data extCaseDfuFileHeader = true
  · rw [if_neg (by rw [not_headerId hcase.2]; exact Bool.false_ne_true), if_pos hcase,
      requests_startCase_iff h]
    exact not_congr ⟨fun hs => ⟨⟨hstate, by omega, hcase⟩, hs⟩, And.right⟩
  · rw [if_neg hcase]
    refine iff_of_true ?_ fun hc => hcase hc.1.2.2
    split_ifs
    · exact requests_startHeader h data length
    · exact requests_startPartition h data length
    · exact requests_startFooter h data length
    · exact h

theorem requests_parseComplete_iff (h : Requests ctx) (hr : parseComplete device ctx data = some r) :
    Requests r.2 ↔ ¬ (IsCaseHeader device ctx data ∧ r.1 = .success) := by
  unfold parseComplete at hr
  cases hstate : ctx.state with
  | generic1stPart =>
    rw [hstate] at hr
    exact requests_handleGeneric1stPartState_iff hstate h hr
  | header =>
    rw [hstate] at hr
    exact iff_of_true (requests_handleHeaderState h hr) fun hc => by cases hstate ▸ hc.1.1
  | dataHeader =>
    rw [hstate] at hr
    exact iff_of_true (requests_handleDataHeaderState h hr) fun hc => by cases hstate ▸ hc.1.1
  | data =>
    rw [hstate] at hr
    cases hr
    exact iff_of_true (requests_handleDataState h data true) fun hc => by cases hstate ▸ hc.1.1
  | footer =>
    rw [hstate] at hr
    cases hr
    exact iff_of_true (requests_handleFooterState h data true) fun hc => by
      cases hstate ▸ hc.1.1

/-- A packet that completes no block leaves the request as it is. -/
theorem requests_parse_of_none (h : Requests parser.ctx)
    (hnone : completedBlock parser data = none) {r : HostErrorCode × Parser}
    (hr : parse device parser data = some r) : Requests r.2.ctx := by
  have htotal : (received parser.ctx data.length).totalReceivedSize =
      parser.ctx.totalReceivedSize + data.length := rfl
  have hreq : (received parser.ctx data.length).totalReqSize = parser.ctx.totalReqSize := rfl
  have hrec : Requests (received parser.ctx data.length) := h
  have hstore : ∀ p : Parser, Requests p.ctx → Requests (storeIncomplete p data).2.ctx := by
    intro p hp
    unfold storeIncomplete
    split_ifs <;> exact hp
  unfold completedBlock at hnone
  unfold parse at hr
  dsimp only at hr
  split_ifs at hr with hover hinc
  · cases hr
    exact hrec
  · unfold parseIncomplete storeIncomplete at hr
    dsimp only at hr
    split_ifs at hr with hbig
    · cases hr
      exact hrec
    · split_ifs at hnone with hall
      dsimp only at hr
      rw [if_neg (by rw [htotal, hreq]; exact hall)] at hr
      cases hr
      exact hrec
  · have hall : parser.ctx.totalReceivedSize + data.length ≠ parser.ctx.totalReqSize := by
      intro hall
      rw [if_neg (not_not.mpr hall), if_pos (not_not.mp hinc)] at hnone
      cases hnone
    rw [htotal, hreq, decide_eq_false hall] at hr
    simp only [parseCompleteData, Bool.false_eq_true, if_false] at hr
    split at hr
    · cases hr
      exact requests_handleDataState hrec data false
    · cases hr
      exact requests_handleFooterState hrec data false
    · cases hr
      exact hstore _ hrec

/-- **The request after a packet.** Only a file for the case leaves none behind. -/
theorem requests_parse_iff (h : Requests parser.ctx) {r : HostErrorCode × Parser}
    (hr : parse device parser data = some r) :
    Requests r.2.ctx ↔ ¬ ((∃ block, completedBlock parser data = some block ∧
      IsCaseHeader device parser.ctx block) ∧ r.1 = .success) := by
  cases hb : completedBlock parser data with
  | none => exact iff_of_true (requests_parse_of_none h hb hr) (by rintro ⟨⟨_, ⟨⟩, _⟩, _⟩)
  | some block =>
    rw [parse_of_completedBlock hb] at hr
    obtain ⟨r', hr', rfl⟩ := map_eq_some_iff.mp hr
    have hrec : Requests (received parser.ctx data.length) := h
    rw [requests_parseComplete_iff hrec hr']
    refine not_congr ⟨fun hc => ⟨⟨block, rfl, hc.1⟩, hc.2⟩, ?_⟩
    rintro ⟨⟨_, ⟨⟩, hc⟩, hs⟩
    exact ⟨hc, hs⟩

/-! ## Runs -/

/-- A packet that is processed leaves no request behind: the battery is low and the parser refuses
the packet, or it takes the header of a file for the case. -/
def Ends (device : Device) (sm : StateMachine) (packet : Packet) : Prop :=
  Processes sm ∧ ∃ r, parse device sm.parser packet.data = some r ∧
    (sm.smState = .batteryLow ∧ r.1 ≠ .success ∨
      (∃ block, completedBlock sm.parser packet.data = some block ∧
        IsCaseHeader device sm.parser.ctx block) ∧ r.1 = .success)

/-- The packet does not complete a section within a millisecond of its start. The difference of
the times is that of a 32-bit counter of microseconds. -/
def InTime (sm : StateMachine) (packet : Packet) : Prop :=
  Processes sm → CompletesSection sm.parser packet.data →
    1000 ≤ (packet.now - sm.timeStart).toInt.natAbs

/-- No packet is processed. -/
def Idle (device : Device) : StateMachine → List Event → Prop :=
  Lib.Meets (handleMsg device) fun sm event =>
    ∀ packet, event = .hostData packet → ¬ Processes sm

/-- Sections take their time, and no packet is processed after one that leaves no request. -/
def Spaced (device : Device) : StateMachine → List Event → Prop
  | _, [] => True
  | sm, event :: events =>
    (∀ packet, event = .hostData packet → InTime sm packet) ∧
      ∀ sm', handleMsg device sm event = some sm' →
        (∀ packet, event = .hostData packet → Ends device sm packet → Idle device sm' events) ∧
          Spaced device sm' events

theorem noZeroDivisor_hostData_iff (packet : Packet) :
    NoZeroDivisor device sm (.hostData packet) ↔
      (Processes sm → Requests sm.parser.ctx) ∧ InTime sm packet := by
  unfold NoZeroDivisor InTime Requests
  constructor
  · intro h
    refine ⟨fun hp => h hp _ (mem_parseDivisors.mpr (.inl rfl)), fun hp hc => ?_⟩
    have := h hp _ (mem_parseDivisors.mpr (.inr ⟨hc, rfl⟩))
    rwa [Ne, durationMs_eq_zero_iff, not_lt] at this
  · rintro ⟨hreq, htime⟩ hp divisor hd
    rcases mem_parseDivisors.mp hd with rfl | ⟨hc, rfl⟩
    · exact hreq hp
    · rw [Ne, durationMs_eq_zero_iff, not_lt]
      exact htime hp hc

theorem totalReqSize_getNextReqSize (device : Device) (ctx : PartitionData) :
    (getNextReqSize device ctx).2.totalReqSize = ctx.totalReqSize := by
  unfold getNextReqSize
  split_ifs <;> rfl

theorem totalReqSize_finishPacket (device : Device) (lastPacket : Bool) (rc : HostErrorCode)
    (sm : StateMachine) : (finishPacket device lastPacket rc sm).parser.ctx.totalReqSize =
      sm.parser.ctx.totalReqSize := by
  unfold finishPacket requestNext
  have := totalReqSize_getNextReqSize device sm.parser.ctx
  split_ifs
  · rfl
  · dsimp only
    split_ifs <;> exact this
  · rfl
  · rfl
  · rfl
  · rfl

/-- **One packet.** It leaves a request behind unless it ends the transfer. -/
theorem requests_hostData {packet : Packet} (hreq : Processes sm → Requests sm.parser.ctx)
    (h : handleMsg device sm (.hostData packet) = some sm') :
    Requests sm'.parser.ctx ↔ Requests sm.parser.ctx ∧ ¬ Ends device sm packet := by
  by_cases hp : Processes sm
  · have hq := hreq hp
    rw [and_iff_right hq]
    unfold handleMsg at h
    rcases hp with hs | ⟨hs, hlow⟩
    · rw [hs] at h
      obtain ⟨p, hparse, rfl⟩ := map_eq_some_iff.mp h
      obtain ⟨r, hr, rfl⟩ := map_eq_some_iff.mp hparse
      rw [Requests, totalReqSize_finishPacket]
      refine (requests_parse_iff hq hr).trans (not_congr ⟨fun hc => ⟨.inl hs, r, hr, .inr hc⟩, ?_⟩)
      rintro ⟨-, r', hr', ⟨hs', -⟩ | hc⟩
      · rw [hs] at hs'
        cases hs'
      · rw [hr] at hr'
        cases hr'
        exact hc
    · rw [hs] at h
      dsimp only at h
      rw [handleBatteryLow, if_neg (not_not.mpr hlow)] at h
      obtain ⟨p, hparse, rfl⟩ := map_eq_some_iff.mp h
      obtain ⟨r, hr, rfl⟩ := map_eq_some_iff.mp hparse
      obtain ⟨rc, parser'⟩ := r
      dsimp only
      by_cases hrc : partitionDataXferError = rc
      · rw [if_pos hrc]
        refine (requests_parse_iff hq hr).trans
          (not_congr ⟨fun hc => ⟨.inr ⟨hs, hlow⟩, _, hr, .inr hc⟩, ?_⟩)
        rintro ⟨-, r', hr', ⟨-, hne⟩ | hc⟩
        · rw [hr] at hr'
          cases hr'
          exact absurd hrc.symm hne
        · rw [hr] at hr'
          cases hr'
          exact hc
      · rw [if_neg hrc]
        refine iff_of_false (fun hne => hne rfl) fun hne => hne ?_
        exact ⟨.inr ⟨hs, hlow⟩, _, hr, .inl ⟨hs, fun he => hrc he.symm⟩⟩
  · have hsame : handleMsg device sm (.hostData packet) = some sm := by
      unfold handleMsg handleBatteryLow
      unfold Processes at hp
      cases hs : sm.smState with
      | batteryLow =>
        dsimp only
        rw [if_pos fun hlow => hp (.inr ⟨hs, hlow⟩)]
      | dataTransfer => exact absurd (.inl hs) hp
      | _ => rfl
    rw [hsame] at h
    cases h
    exact ⟨fun hq => ⟨hq, fun he => hp he.1⟩, And.left⟩

theorem noZeroDivisor_iff {event : Event} :
    NoZeroDivisor device sm event ↔ ∀ packet, event = .hostData packet →
      (Processes sm → Requests sm.parser.ctx) ∧ InTime sm packet := by
  cases event with
  | hostData packet =>
    refine (noZeroDivisor_hostData_iff packet).trans ⟨fun h => ?_, fun h => h packet rfl⟩
    rintro _ ⟨⟩
    exact h
  | setPowerState state | internalBatteryLow => exact iff_of_true trivial fun _ => nofun

theorem requests_handleMsg {event : Event}
    (hreq : ∀ packet, event = .hostData packet → Processes sm → Requests sm.parser.ctx)
    (h : handleMsg device sm event = some sm') : Requests sm'.parser.ctx ↔
      Requests sm.parser.ctx ∧ ∀ packet, event = .hostData packet → ¬ Ends device sm packet := by
  cases event with
  | hostData packet =>
    refine (requests_hostData (hreq packet rfl) h).trans (and_congr_right fun _ => ?_)
    refine ⟨fun hne => ?_, fun hne => hne packet rfl⟩
    rintro _ ⟨⟩
    exact hne
  | setPowerState state =>
    cases h
    exact ⟨fun hq => ⟨hq, fun _ => nofun⟩, And.left⟩
  | internalBatteryLow =>
    have hsame : (handleInternalBatteryLow sm).parser = sm.parser := by
      unfold handleInternalBatteryLow
      split_ifs <;> rfl
    cases h
    rw [hsame]
    exact ⟨fun hq => ⟨hq, fun _ => nofun⟩, And.left⟩

/-- **When no division by zero is executed.** Nothing is processed while nothing is requested: at
the start of the run, or after a packet that ends the transfer. And sections take their time. -/
theorem safe_iff (device : Device) (sm : StateMachine) (events : List Event) :
    Safe device sm events ↔ (sm.parser.ctx.totalReqSize = 0 → Idle device sm events) ∧
      Spaced device sm events := by
  induction events generalizing sm with
  | nil => exact iff_of_true trivial ⟨fun _ => trivial, trivial⟩
  | cons event events ih =>
    rw [Safe, Lib.meets_cons, Idle, Lib.meets_cons, Spaced, noZeroDivisor_iff]
    constructor
    · rintro ⟨hno, hrest⟩
      have hrest' := fun sm' hs => (ih sm').mp (hrest sm' hs)
      have hreq := fun packet he => (hno packet he).1
      refine ⟨fun hzero => ⟨fun packet he hp => hreq packet he hp hzero, fun sm' hs =>
        (hrest' sm' hs).1 ?_⟩, fun packet he => (hno packet he).2, fun sm' hs =>
        ⟨fun packet he hend => (hrest' sm' hs).1 ?_, (hrest' sm' hs).2⟩⟩
      · by_contra hne
        exact ((requests_handleMsg hreq hs).mp hne).1 hzero
      · by_contra hne
        exact ((requests_handleMsg hreq hs).mp hne).2 packet he hend
    · rintro ⟨hidle, htime, hrest⟩
      have hreq : ∀ packet, event = .hostData packet → Processes sm → Requests sm.parser.ctx :=
        fun packet he hp hzero => (hidle hzero).1 packet he hp
      refine ⟨fun packet he => ⟨hreq packet he, htime packet he⟩, fun sm' hs =>
        (ih sm').mpr ⟨fun hzero => ?_, (hrest sm' hs).2⟩⟩
      by_cases hz : sm.parser.ctx.totalReqSize = 0
      · exact (hidle hz).2 sm' hs
      · have hne := mt (requests_handleMsg hreq hs).mpr (not_not.mpr hzero)
        push Not at hne
        obtain ⟨packet, he, hend⟩ := hne hz
        exact (hrest sm' hs).1 packet he hend

/-- A transfer that was just started. -/
def startMachine (parser : Parser) : StateMachine :=
  ⟨.dataTransfer, .batteryOk, parser, 0, [], []⟩

/-- The host sends more than the 12 bytes that were requested, and then another byte, while the
battery is low. -/
theorem not_safe_batteryLow : ¬ Safe sampleDevice (startMachine (fresh ⟨1, 0⟩ 1 0 fun _ => []))
    [.setPowerState .batteryLow, .internalBatteryLow,
      .hostData ⟨List.replicate 13 0, false, 0⟩, .hostData ⟨[0], false, 0⟩] := by
  unfold Safe
  decide +kernel

end Mh40.Upgrade
