import Mh40.Upgrade.HostFile
import Mh40.Upgrade.StateMachine

/-!
# Host data with a low battery

`upgradeSm_HandleBatteryLow` passes each packet to the parser, to find out from its status whether
the error was sent before. It compares the status with an enumerator of another type, whose value
is that of success.

* So a packet that the parser takes is processed, and nothing is sent; and each packet that it
  refuses is an error of its own. Once the data is stopped, it refuses all that is not empty.
* `right_iff_refused`: the error is sent once, and nothing comes through, only when there is a single
  packet and the parser refuses it.
-/

namespace Mh40.Upgrade

open Option

variable {device : Device} {parser : Parser} {ctx ctx' : PartitionData} {data : List UInt8}
  {sm sm' : StateMachine} {packet : Packet} {packets : List Packet}

/-! ## One error -/

/-- The error was sent once since `sm`, no data is requested, and nothing that the parser stores or
keeps has changed since `sm₁`. -/
structure SentOnce (sm sm₁ sm' : StateMachine) : Prop where
  errors : sm'.errors = sm.errors ++ [.batteryLow]
  totalReqSize : sm'.parser.ctx.totalReqSize = 0
  newReqSize : sm'.parser.ctx.newReqSize = 0
  flash : sm'.parser.ctx.flash = sm₁.parser.ctx.flash
  ops : sm'.parser.ctx.ops = sm₁.parser.ctx.ops
  signature : sm'.parser.ctx.signature = sm₁.parser.ctx.signature
  incompleteData : sm'.parser.incompleteData = sm₁.parser.incompleteData

/-- What should happen to the packets that arrive: after the first one, and after any number of
later ones, the error was sent once, and the later ones come to nothing. -/
def Right (device : Device) (sm : StateMachine) : List Packet → Prop
  | [] => True
  | first :: packets => ∃ sm₁, handleMsg device sm (.hostData first) = some sm₁ ∧
    ∀ later, later <+: packets → ∃ sm',
      Lib.run (handleMsg device) sm₁ (later.map .hostData) = some sm' ∧ SentOnce sm sm₁ sm'

/-- The parser refuses a packet, or it has all of the file with it. -/
def Refuses (device : Device) (parser : Parser) (data : List UInt8) : Prop :=
  ∃ r, parse device parser data = some r ∧ r.1 ≠ .success

/-! ## Stopped data -/

/-- An empty block is refused, unless it is the end of a section. -/
theorem parseComplete_nil (hr : parseComplete device ctx [] = some (.success, ctx')) :
    ctx'.totalReqSize = headerFirstPartSize := by
  unfold parseComplete at hr
  cases hstate : ctx.state with
  | generic1stPart | header | dataHeader =>
    rw [hstate] at hr
    cases hr
  | data =>
    rw [hstate] at hr
    have hr := some.inj hr
    unfold handleDataState at hr
    dsimp only at hr
    split_ifs at hr
    · cases hr
    · rw [HostFile.andThen_success (congrArg Prod.fst hr)] at hr
      cases hr
      exact (HostFile.sameRequest_closeSection device _).totalReqSize
    · exact absurd rfl ‹¬true = true›
  | footer =>
    rw [hstate] at hr
    exact absurd (congrArg Prod.fst (some.inj hr)) HostFile.handleFooterState_ne_success

/-- When the data is stopped, a packet that the parser takes makes a request, or it makes the
parser handle what waits in `incompleteData`. -/
theorem parse_stopped (htotal : parser.ctx.totalReqSize = 0) {parser' : Parser}
    (hr : parse device parser data = some (.success, parser')) :
    parser'.ctx.totalReqSize ≠ 0 ∨ parser'.incompleteData ≠ parser.incompleteData := by
  rcases HostFile.parse_success hr with ⟨hlt, -⟩ | ⟨hall, hblock⟩
  · omega
  · have hnil : data = [] := List.eq_nil_of_length_eq_zero (by omega)
    subst hnil
    by_cases hinc : parser.incompleteData = []
    · rw [hinc] at hblock
      rw [parseComplete_nil hblock]
      exact .inl (by decide)
    · have hcomplete : completedBlock parser [] = some (parser.incompleteData ++ []) := by
        rw [completedBlock, if_neg (not_not.mpr hall), if_neg hinc]
        exact if_neg (Nat.not_lt_zero _)
      rw [parse_of_completedBlock hcomplete] at hr
      obtain ⟨⟨rc, ctx⟩, -, hr⟩ := map_eq_some_iff.mp hr
      cases hr
      exact .inr (Ne.symm hinc)

/-! ## Packets -/

/-- A packet while the battery is low. -/
theorem handleMsg_batteryLow (hs : sm.smState = .batteryLow) (hlow : sm.powerState = .batteryLow)
    (packet : Packet) : handleMsg device sm (.hostData packet) =
      (parsePacket device sm packet).map fun (rc, sm) =>
        if partitionDataXferError = rc then sm
        else sendErrorInd { sm with parser.ctx := stopData sm.parser.ctx } .batteryLow := by
  unfold handleMsg
  rw [hs]
  dsimp only
  rw [handleBatteryLow, if_neg (not_not.mpr hlow)]

/-- What a packet does while the battery is low: the parser takes it, and nothing is sent, or the
data is stopped and the error is sent. -/
theorem handleMsg_batteryLow_cases (hs : sm.smState = .batteryLow)
    (hlow : sm.powerState = .batteryLow)
    (h : handleMsg device sm (.hostData packet) = some sm') :
    sm'.smState = .batteryLow ∧ sm'.powerState = .batteryLow ∧
    (parse device sm.parser packet.data = some (.success, sm'.parser) ∧ sm'.errors = sm.errors ∨
      (∃ r, parse device sm.parser packet.data = some r ∧ r.1 ≠ .success ∧
        sm'.parser = { r.2 with ctx := stopData r.2.ctx }) ∧
      sm'.errors = sm.errors ++ [.batteryLow]) := by
  rw [handleMsg_batteryLow hs hlow] at h
  obtain ⟨p, hparse, rfl⟩ := map_eq_some_iff.mp h
  obtain ⟨⟨rc, parser⟩, hr, rfl⟩ := map_eq_some_iff.mp hparse
  dsimp only
  by_cases hrc : partitionDataXferError = rc
  · rw [if_pos hrc]
    subst hrc
    exact ⟨hs, hlow, .inl ⟨hr, rfl⟩⟩
  · rw [if_neg hrc]
    exact ⟨hs, hlow, .inr ⟨⟨_, hr, fun he => hrc he.symm, rfl⟩, rfl⟩⟩

/-- **When the low battery is reported once.** There is one packet, and the parser refuses it. -/
theorem right_iff_refused (hs : sm.smState = .batteryLow) (hlow : sm.powerState = .batteryLow)
    (packets : List Packet) : Right device sm packets ↔
      packets = [] ∨ ∃ packet, packets = [packet] ∧ Refuses device sm.parser packet.data := by
  constructor
  · intro h
    cases packets with
    | nil => exact .inl rfl
    | cons first packets =>
      obtain ⟨sm₁, hfirst, h⟩ := h
      obtain ⟨hs1, hlow1, hcases⟩ := handleMsg_batteryLow_cases hs hlow hfirst
      have honce : SentOnce sm sm₁ sm₁ := by
        obtain ⟨_, ⟨⟩, honce⟩ := h [] List.nil_prefix
        exact honce
      rcases hcases with ⟨-, herr⟩ | ⟨⟨r, hr, hne, -⟩, herr⟩
      · -- the error is not sent
        have := honce.errors
        rw [herr] at this
        exact absurd this (by simp)
      · refine .inr ⟨first, ?_, r, hr, hne⟩
        cases packets with
        | nil => rfl
        | cons second packets =>
          obtain ⟨sm₂, hsecond, htwice⟩ := h [second] ⟨packets, rfl⟩
          obtain ⟨_, hsecond, ⟨⟩⟩ := Lib.run_cons.mp hsecond
          obtain ⟨-, -, ⟨hparse, -⟩ | ⟨-, herr'⟩⟩ :=
            handleMsg_batteryLow_cases hs1 hlow1 hsecond
          · -- the second packet is empty, and something comes of it
            rcases parse_stopped honce.totalReqSize hparse with hreq | hinc
            · exact absurd htwice.totalReqSize hreq
            · exact absurd htwice.incompleteData hinc
          · -- the error is sent again
            have := htwice.errors
            rw [herr', herr] at this
            exact absurd this (by simp)
  · rintro (rfl | ⟨packet, rfl, r, hr, hne⟩)
    · trivial
    · obtain ⟨sm₁, hfirst⟩ : ∃ sm₁, handleMsg device sm (.hostData packet) = some sm₁ := by
        rw [handleMsg_batteryLow hs hlow, parsePacket, hr]
        exact ⟨_, rfl⟩
      refine ⟨sm₁, hfirst, fun later hlater => ?_⟩
      obtain rfl := List.prefix_nil.mp hlater
      refine ⟨sm₁, rfl, ?_⟩
      obtain ⟨-, -, ⟨hparse, -⟩ | ⟨⟨r', -, -, hparser⟩, herr⟩⟩ :=
        handleMsg_batteryLow_cases hs hlow hfirst
      · rw [hr] at hparse
        cases hparse
        exact absurd rfl hne
      · refine ⟨herr, ?_, ?_, rfl, rfl, rfl, rfl⟩
        · rw [hparser]
          rfl
        · rw [hparser]
          rfl

/-- The battery is low at the start of a transfer. -/
def lowMachine : StateMachine :=
  ⟨.batteryLow, .batteryLow, fresh ⟨1, 0⟩ 1 0 fun _ => [], 0, [], []⟩

/-- More bytes than were requested. -/
theorem right_tooLong : Right sampleDevice lowMachine [⟨List.replicate 13 0, false, 0⟩] :=
  (right_iff_refused rfl rfl _).mpr (.inr ⟨_, rfl, _, rfl, by decide⟩)

/-- The start of a header is taken, and the error is not sent. -/
theorem not_right_header : ¬ Right sampleDevice lowMachine
    [⟨headerId ++ [0, 0, 0, 24], false, 0⟩] := by
  rintro ⟨sm₁, hfirst, h⟩
  obtain ⟨_, ⟨⟩, honce⟩ := h [] List.nil_prefix
  have herr : (handleMsg sampleDevice lowMachine
      (.hostData ⟨headerId ++ [0, 0, 0, 24], false, 0⟩)).map StateMachine.errors = some [] := by
    decide +kernel
  rw [hfirst] at herr
  have := honce.errors
  rw [Option.some.inj herr] at this
  cases this

end Mh40.Upgrade
