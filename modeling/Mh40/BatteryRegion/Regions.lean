import Mathlib.Data.List.Basic

/-!
# Battery regions

Model of `battery_region.c`, and of the part of `charger_monitor.c` that tells it of the charger.

* `regionChange`: whether an update keeps the region, enters another one, or finds none.
* `regionStep`: a change of the connection, which puts a notification in the queue of the region
  task; the handling of the first notification; an update; and the expiry of the charging timer.
-/

namespace Mh40.BatteryRegion

open Option

/-! ## Tables -/

/-- `charger_region_type_t`. -/
inductive ChargerRegionType where
  | normal
  | critical
  | safety
  deriving DecidableEq

/-- `charge_region_t`. -/
structure ChargeRegion where
  current : UInt16
  voltageMin : UInt16
  voltageMax : UInt16
  voltageHysteresis : UInt8
  tempMin : Int8
  tempMax : Int8
  tempHysteresis : UInt8
  regionType : ChargerRegionType
  chargingTimer : UInt16
  deriving DecidableEq

/-- A pointer to a table of regions, and what is there. -/
structure RegionTable where
  address : ℕ
  regions : List ChargeRegion
  deriving DecidableEq

/-- `battery_region_ctx_t`. Of the handlers it counts which ones there are. -/
structure RegionContext where
  chargeTable : RegionTable
  dischargeTable : RegionTable
  safetyHandler : Bool
  chargingTimeoutHandler : Bool
  transitionHandler : Bool
  clients : ℕ
  deriving DecidableEq

/-! ## State -/

/-- `battery_region_state_t`. -/
inductive BatteryRegionState where
  | unknown
  | unsafeRegion
  | criticalRegion
  | okRegion
  deriving DecidableEq

/-- `is_connected` of the charger. -/
inductive ChargerConnection where
  | disconnected
  | connected
  | unknown
  deriving DecidableEq

inductive ChargerNotification where
  | attached
  | detached
  deriving DecidableEq

/-- `battery_region_data_t`, with the connection of the charger, the notifications and the
`CHARGING_TIMER` messages on the way to the region task, and whether the charger is disabled with
`CHARGER_DISABLE_REASON_TIMEOUT`. Two fields only record the run: whether an update has been
processed since the charger was attached, and how often a charging timer has been started. -/
structure RegionData where
  regionTable : RegionTable
  regionTableLen : UInt8
  region : UInt8
  state : BatteryRegionState
  isConnected : ChargerConnection
  notifications : List ChargerNotification
  chargingTimers : List UInt32
  disableReasonTimeout : Bool
  chargingTimerTimeout : Bool
  updated : Bool
  started : ℕ
  deriving DecidableEq

/-- `BATTERY_REGION_UNDEFINED`. -/
def batteryRegionUndefined : UInt8 := 0xFF

/-- `Charger_IsConnected`. -/
def RegionData.chargerIsConnected (s : RegionData) : Bool :=
  s.isConnected ≠ .disconnected

/-- What the region task calls and sends besides its own messages. -/
inductive RegionEffect where
  | chargerUpdateCurrent
  | transitionHandler (oldRegion newRegion : UInt8)
  | safetyHandler (oldRegion newRegion : UInt8)
  | chargingTimeoutHandler
  | regionUpdate (state : BatteryRegionState)
  deriving DecidableEq

/-! ## Update -/

/-- The comparison of `batteryRegion_VolTempInRegion`, in the types of its variables. -/
def inLimits (limits : ChargeRegion) (voltage : UInt16) (temperature : Int8)
    (applyHysteresis : Bool) : Bool :=
  let voltage_min : Int16 :=
    if applyHysteresis then
      Int16.ofInt (limits.voltageMin.toNat - limits.voltageHysteresis.toNat)
    else Int16.ofInt limits.voltageMin.toNat
  let voltage_max : UInt16 :=
    if applyHysteresis then limits.voltageMax + limits.voltageHysteresis.toUInt16
    else limits.voltageMax
  let temp_min : Int8 :=
    if applyHysteresis then Int8.ofInt (limits.tempMin.toInt - limits.tempHysteresis.toNat)
    else limits.tempMin
  let temp_max : Int8 :=
    if applyHysteresis then Int8.ofInt (limits.tempMax.toInt + limits.tempHysteresis.toNat)
    else limits.tempMax
  let voltageInRegion : Bool := voltage_min.toInt ≤ voltage.toNat ∧ voltage ≤ voltage_max
  let tempInRegion : Bool := temp_min ≤ temperature ∧ temperature ≤ temp_max
  voltageInRegion && tempInRegion

/-- `batteryRegion_VolTempInRegion`: `none` is a read outside of the table. -/
def volTempInRegion (s : RegionData) (region : UInt8) (voltage : UInt16) (temperature : Int8)
    (applyHysteresis : Bool) : Option Bool :=
  if region = batteryRegionUndefined then some false
  else s.regionTable.regions[region.toNat]?.map fun limits =>
    inLimits limits voltage temperature applyHysteresis

/-- The table for the connection of the charger. -/
def modeTable (c : RegionContext) (s : RegionData) : RegionTable :=
  if s.chargerIsConnected then c.chargeTable else c.dischargeTable

/-- The choice of the table at the start of `batteryRegion_UpdateRegion`. -/
def switchTable (c : RegionContext) (s : RegionData) : RegionData :=
  if s.regionTable ≠ modeTable c s then
    { s with
      region := batteryRegionUndefined
      regionTable := modeTable c s
      regionTableLen := UInt8.ofNat (modeTable c s).regions.length }
  else s

/-- The loop over the table, from the region `i` on. -/
def findRegion (s : RegionData) (voltage : UInt16) (temperature : Int8) :
    ℕ → ℕ → Option (Option UInt8)
  | 0, _ => some none
  | left + 1, i =>
    (volTempInRegion s (UInt8.ofNat i) voltage temperature false).bind fun found =>
      if found then some (some (UInt8.ofNat i)) else findRegion s voltage temperature left (i + 1)

inductive RegionChange where
  | keep
  | notLocated
  | enter (region : UInt8)
  deriving DecidableEq

/-- What `batteryRegion_UpdateRegion` decides, of the chosen table. -/
def regionChange (s : RegionData) (voltage : UInt16) (temperature : Int8) : Option RegionChange :=
  (volTempInRegion s s.region voltage temperature true).bind fun kept =>
    if kept then some .keep
    else (findRegion s voltage temperature s.regionTableLen.toNat 0).map fun
      | some i => .enter i
      | none => .notLocated

/-- A region that the charging timer guards. -/
def isTimed (region : ChargeRegion) : Bool :=
  region.current ≠ 0 ∧ region.chargingTimer ≠ 0

def regionState : ChargerRegionType → BatteryRegionState
  | .critical => .criticalRegion
  | .safety => .unsafeRegion
  | .normal => .okRegion

/-- The delay of the charging timer in milliseconds, `D_MIN`. -/
def timerDelay (region : ChargeRegion) : UInt32 :=
  region.chargingTimer.toUInt32 * 1000 * 60

/-- The entry to a region: the timer is cancelled, and started where the region has one. -/
def enterRegion (c : RegionContext) (s : RegionData) (i : UInt8) (newRegion : ChargeRegion) :
    RegionData × List RegionEffect :=
  let state := regionState newRegion.regionType
  let transition : List RegionEffect :=
    if c.transitionHandler then [.transitionHandler s.region i] else []
  let safety : List RegionEffect :=
    if state = .unsafeRegion ∧ c.safetyHandler = true then [.safetyHandler s.region i] else []
  ({ s with
      region := i
      state
      chargingTimers := if isTimed newRegion then [timerDelay newRegion] else []
      started := if isTimed newRegion then s.started + 1 else s.started },
    .chargerUpdateCurrent :: transition ++ safety ++ List.replicate c.clients (.regionUpdate state))

/-- `batteryRegion_UpdateRegion`. -/
def updateRegion (c : RegionContext) (s : RegionData) (voltage : UInt16) (temperature : Int8) :
    Option (RegionData × List RegionEffect) :=
  let s := switchTable c s
  (regionChange s voltage temperature).bind fun
    | .keep => some (s, [])
    | .notLocated => some (s, [])
    | .enter i => s.regionTable.regions[i.toNat]?.map (enterRegion c s i)

/-! ## Events -/

inductive RegionEvent where
  | updateConnected (chargerIsConnected : Bool)
  | chargeTimeout
  | notification
  | updateTrigger (voltage : UInt16) (temperature : Int8)
  | chargingTimer
  deriving DecidableEq

/-- `Charger_UpdateConnected`, as far as the region task is told. -/
def updateConnected (s : RegionData) (chargerIsConnected : Bool) : RegionData :=
  if chargerIsConnected then
    if s.isConnected = .connected then s
    else
      { s with
        isConnected := .connected
        notifications := s.notifications ++ [.attached]
        updated := false }
  else
    if s.isConnected = .disconnected then s
    else
      { s with
        isConnected := .disconnected
        disableReasonTimeout := false
        notifications := s.notifications ++ [.detached] }

/-- `batteryRegion_HandleMessage` and the charger monitor. `none` is a read outside of a table,
or a message that is not on the way. -/
def handleEvent (c : RegionContext) (s : RegionData) :
    RegionEvent → Option (RegionData × List RegionEffect)
  | .updateConnected chargerIsConnected => some (updateConnected s chargerIsConnected, [])
  | .chargeTimeout => some ({ s with disableReasonTimeout := true }, [])
  | .notification =>
    match s.notifications with
    | [] => none
    | .attached :: rest => some ({ s with notifications := rest }, [])
    | .detached :: rest =>
      some ({ s with
        notifications := rest
        chargingTimers := []
        disableReasonTimeout := false
        chargingTimerTimeout := false }, [])
  | .updateTrigger voltage temperature =>
    (updateRegion c s voltage temperature).map fun (s, effects) =>
      ({ s with updated := true }, effects)
  | .chargingTimer =>
    match s.chargingTimers with
    | [] => none
    | _ :: rest =>
      some ({ s with
        chargingTimers := rest
        disableReasonTimeout := true
        chargingTimerTimeout := true },
        if c.chargingTimeoutHandler then [.chargingTimeoutHandler] else [])

def regionStep (c : RegionContext) (s : RegionData) (event : RegionEvent) : Option RegionData :=
  (handleEvent c s event).map Prod.fst

/-- `BatteryRegion_Init`, with the first notification of `Charger_ClientRegister`. -/
def regionInit (isConnected : ChargerConnection) (disableReasonTimeout : Bool) : RegionData where
  regionTable := ⟨0, []⟩
  regionTableLen := 0
  region := batteryRegionUndefined
  state := .unknown
  isConnected := isConnected
  notifications := if isConnected = .disconnected then [.detached] else [.attached]
  chargingTimers := []
  disableReasonTimeout := disableReasonTimeout
  chargingTimerTimeout := false
  updated := false
  started := 0

/-! ## Updates -/

variable {c : RegionContext} {s : RegionData} {voltage : UInt16} {temperature : Int8} {i : UInt8}

/-- The regions that the update looks at are in the table. -/
structure InTable (s : RegionData) : Prop where
  len : s.regionTableLen.toNat ≤ s.regionTable.regions.length
  region : s.region = batteryRegionUndefined ∨ s.region.toNat < s.regionTable.regions.length

theorem volTempInRegion_eq_some {region : UInt8}
    (h : region = batteryRegionUndefined ∨ region.toNat < s.regionTable.regions.length)
    (voltage : UInt16) (temperature : Int8) (applyHysteresis : Bool) :
    ∃ found, volTempInRegion s region voltage temperature applyHysteresis = some found := by
  rw [volTempInRegion]
  split_ifs with hundefined
  · exact ⟨false, rfl⟩
  · rw [List.getElem?_eq_getElem (h.resolve_left hundefined)]
    exact ⟨_, rfl⟩

/-- The loop finds no region, or one that it looks at. -/
theorem findRegion_cases {left n : ℕ} (hlen : n + left ≤ s.regionTable.regions.length)
    (h255 : n + left ≤ 255) :
    ∃ found, findRegion s voltage temperature left n = some found ∧
      ∀ i ∈ found, i.toNat < n + left := by
  induction left generalizing n with
  | zero => exact ⟨none, rfl, fun i hi => absurd hi (not_mem_none i)⟩
  | succ left ih =>
    have hn : (UInt8.ofNat n).toNat = n := UInt8.toNat_ofNat_of_lt' (by
      simp only [UInt8.size]
      omega)
    have hin : (UInt8.ofNat n).toNat < s.regionTable.regions.length := by omega
    obtain ⟨found, hfound⟩ := volTempInRegion_eq_some (.inr hin) voltage temperature false
    rw [findRegion, hfound, bind_some]
    cases found
    · obtain ⟨found, h, hi⟩ : ∃ found,
          findRegion s voltage temperature left (n + 1) = some found ∧
            ∀ i ∈ found, i.toNat < n + 1 + left := ih (by omega) (by omega)
      exact ⟨found, h, fun i hmem => by have := hi i hmem; omega⟩
    · refine ⟨some (UInt8.ofNat n), rfl, fun i hi => ?_⟩
      cases hi
      omega

/-- An update of a table decides, and enters a region of the table. -/
theorem regionChange_cases (h : InTable s) (voltage : UInt16) (temperature : Int8) :
    ∃ change, regionChange s voltage temperature = some change ∧
      ∀ i, change = .enter i → i.toNat < s.regionTableLen.toNat := by
  have h255 : s.regionTableLen.toNat < 256 := s.regionTableLen.toNat_lt
  obtain ⟨kept, hkept⟩ := volTempInRegion_eq_some h.region voltage temperature true
  obtain ⟨found, hfound, hi⟩ : ∃ found,
      findRegion s voltage temperature s.regionTableLen.toNat 0 = some found ∧
        ∀ i ∈ found, i.toNat < 0 + s.regionTableLen.toNat :=
    findRegion_cases (by have := h.len; omega) (by omega)
  rw [regionChange, hkept, bind_some]
  cases kept
  · rw [if_neg Bool.false_ne_true, hfound, map_some]
    cases found with
    | none => exact ⟨.notLocated, rfl, fun i hc => RegionChange.noConfusion hc⟩
    | some i =>
      refine ⟨.enter i, rfl, fun j hj => ?_⟩
      cases hj
      have := hi i rfl
      omega
  · exact ⟨.keep, rfl, fun i hc => RegionChange.noConfusion hc⟩

/-- The table of the connection is chosen, and a region of another table forgotten. -/
theorem switchTable_cases : switchTable c s = s ∨
    (switchTable c s).regionTable ≠ s.regionTable ∧ ∃ table, switchTable c s =
      { s with
        region := batteryRegionUndefined
        regionTable := table
        regionTableLen := UInt8.ofNat table.regions.length } := by
  unfold switchTable
  split_ifs with hne
  · exact .inr ⟨hne.symm, _, rfl⟩
  · exact .inl rfl

theorem inTable_switchTable (h : InTable s) : InTable (switchTable c s) := by
  obtain heq | ⟨-, table, heq⟩ := switchTable_cases (c := c) (s := s)
  · rw [heq]
    exact h
  · rw [heq]
    refine ⟨?_, .inl rfl⟩
    change (UInt8.ofNat _).toNat ≤ _
    rw [UInt8.toNat_ofNat']
    exact Nat.mod_le _ _

/-- What an update does: it leaves the chosen table, or enters a region of it. -/
theorem updateRegion_cases (h : InTable s) (voltage : UInt16) (temperature : Int8) :
    (∃ change, regionChange (switchTable c s) voltage temperature = some change ∧
      (∀ i, change ≠ .enter i) ∧
      updateRegion c s voltage temperature = some (switchTable c s, [])) ∨
    ∃ i newRegion, regionChange (switchTable c s) voltage temperature = some (.enter i) ∧
      i.toNat < (switchTable c s).regionTableLen.toNat ∧
      (switchTable c s).regionTable.regions[i.toNat]? = some newRegion ∧
      updateRegion c s voltage temperature =
        some (enterRegion c (switchTable c s) i newRegion) := by
  have hin := inTable_switchTable (c := c) h
  obtain ⟨change, hchange, hi⟩ := regionChange_cases hin voltage temperature
  rw [updateRegion, hchange, bind_some]
  cases change with
  | keep => exact .inl ⟨.keep, rfl, fun i hc => RegionChange.noConfusion hc, rfl⟩
  | notLocated => exact .inl ⟨.notLocated, rfl, fun i hc => RegionChange.noConfusion hc, rfl⟩
  | enter i =>
    have hlt := hi i rfl
    have hget := List.getElem?_eq_getElem (Nat.lt_of_lt_of_le hlt hin.len)
    refine .inr ⟨i, _, rfl, hlt, hget, ?_⟩
    dsimp only
    rw [hget, map_some]

theorem inTable_regionStep {s' : RegionData} {event : RegionEvent} (h : InTable s)
    (hs : regionStep c s event = some s') : InTable s' := by
  obtain ⟨⟨t, effects⟩, ht, rfl⟩ := map_eq_some_iff.mp hs
  cases event with
  | updateConnected chargerIsConnected =>
    cases ht
    unfold updateConnected
    split_ifs
    · exact h
    · exact ⟨h.len, h.region⟩
    · exact h
    · exact ⟨h.len, h.region⟩
  | chargeTimeout =>
    cases ht
    exact ⟨h.len, h.region⟩
  | notification =>
    rw [handleEvent] at ht
    split at ht
    · cases ht
    · cases ht
      exact ⟨h.len, h.region⟩
    · cases ht
      exact ⟨h.len, h.region⟩
  | updateTrigger voltage temperature =>
    have hin := inTable_switchTable (c := c) h
    obtain ⟨-, -, -, hupdate⟩ | ⟨i, newRegion, -, hlt, -, hupdate⟩ :=
      updateRegion_cases (c := c) h voltage temperature
    · rw [handleEvent, hupdate] at ht
      cases ht
      exact ⟨hin.len, hin.region⟩
    · rw [handleEvent, hupdate] at ht
      cases ht
      exact ⟨hin.len, .inr (Nat.lt_of_lt_of_le hlt hin.len)⟩
  | chargingTimer =>
    rw [handleEvent] at ht
    split at ht
    · cases ht
    · cases ht
      exact ⟨h.len, h.region⟩

theorem inTable_regionInit {isConnected : ChargerConnection} {disableReasonTimeout : Bool} :
    InTable (regionInit isConnected disableReasonTimeout) :=
  ⟨Nat.le_refl 0, .inl rfl⟩

end Mh40.BatteryRegion
