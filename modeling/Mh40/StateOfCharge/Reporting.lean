import Mh40.Lib.Run
import Mh40.StateOfCharge.Search

/-!
# The reported state of charge

Model of `state_of_charge.c` over `Search.lean`. An event is a message that
`soc_HandleMessage` takes or a call of the interface; a message comes with whether the upgrade is
checking a hash then, which keeps the state of charge as it is.

* `NeverIncreases`: what a run reports between a detach and the next attach.
* **`search_right_iff_scannable`**: the two searches agree in a run of an ascending table exactly
  when every voltage is scannable; the report never increases in any run.
* `not_search_right`: below the first voltage of a table the scan returns the last index.
-/

namespace Mh40.StateOfCharge

open Lib List Option

variable {τ : Type}

/-! ## Model -/

/-- `battery_provider_context_t`. -/
inductive BatteryProviderContext where
  | batteryLow
  | batteryOk
  | batteryFull
  | chargingBatteryLow
  | chargingBatteryOk
  | chargingBatteryFull
  deriving DecidableEq

/-- The sum with `context_charging_battery_low`. -/
def BatteryProviderContext.charging : BatteryProviderContext → BatteryProviderContext
  | .batteryLow => .chargingBatteryLow
  | .batteryOk => .chargingBatteryOk
  | .batteryFull => .chargingBatteryFull
  | context => context

/-- `socRegisteredClient`, without the hysteresis, which is not implemented. -/
structure SocRegisteredClient (τ : Type) where
  task : τ
  percent : UInt8
  deriving DecidableEq

/-- The messages to the clients. -/
inductive SocMessage (τ : Type) where
  | updateInd (task : τ) (percent : UInt8)
  | batteryBecameLow (task : τ)
  | batteryBecameOk (task : τ)
  | batteryBecameFull (task : τ)
  deriving DecidableEq

/-- `soc_data_t`. -/
structure SocData (τ : Type) where
  stateOfCharge : UInt16
  chargerConnected : Bool
  configIndex : UInt8
  lowBatteryPercent : UInt8
  fullBatteryPercent : UInt8
  clientList : List (SocRegisteredClient τ)
  socContext : BatteryProviderContext
  deriving DecidableEq

/-- `(uint8)state_of_charge`, which is `Soc_GetBatterySoc`. -/
def SocData.getBatterySoc (s : SocData τ) : UInt8 :=
  s.stateOfCharge.toUInt8

/-- `soc_ServiceClients`. -/
def serviceClients (s : SocData τ) : SocData τ × List (SocMessage τ) :=
  let percent := s.getBatterySoc
  ({ s with clientList := s.clientList.map fun client =>
      if percent ≠ client.percent then { client with percent } else client },
    s.clientList.filterMap fun client =>
      if percent ≠ client.percent then some (.updateInd client.task percent) else none)

/-- `soc_ClientRemove`. -/
def clientRemove [DecidableEq τ] (clients : List (SocRegisteredClient τ)) (task : τ) :
    List (SocRegisteredClient τ) :=
  clients.eraseP fun client => client.task = task

/-- `appSocCurrentContext`. -/
def socCurrentContext (s : SocData τ) : BatteryProviderContext :=
  let context : BatteryProviderContext :=
    if s.stateOfCharge < s.lowBatteryPercent.toUInt16 then .batteryLow
    else if s.fullBatteryPercent.toUInt16 < s.stateOfCharge then .batteryFull
    else .batteryOk
  if s.chargerConnected then context.charging else context

/-- `Soc_NotifyBatteryChanged`. -/
def notifyBatteryChanged (clients : List (SocRegisteredClient τ)) :
    BatteryProviderContext → List (SocMessage τ)
  | .batteryLow | .chargingBatteryLow => clients.map fun client => .batteryBecameLow client.task
  | .batteryOk | .chargingBatteryOk => clients.map fun client => .batteryBecameOk client.task
  | .batteryFull | .chargingBatteryFull =>
    clients.map fun client => .batteryBecameFull client.task

inductive SocInput where
  | batteryLevelUpdateVoltage (voltage_mv : UInt16)
  | chargerAttached
  | chargerDetached
  | other
  deriving DecidableEq

/-- The switch of `soc_HandleMessage`. -/
def takeInput (c : SocConfig) (s : SocData τ) : SocInput → Option (SocData τ)
  | .batteryLevelUpdateVoltage voltage_mv =>
    (stateOfChargeUpdate c s.configIndex voltage_mv).map fun index =>
      { s with configIndex := index }
  | .chargerAttached => some { s with chargerConnected := true }
  | .chargerDetached => some { s with chargerConnected := false }
  | .other => some s

/-- The store of a new percentage, and the service of the clients. -/
def storePercentage (s : SocData τ) (percentage : UInt8) (hashChecking : Bool) :
    SocData τ × List (SocMessage τ) :=
  if hashChecking then (s, [])
  else serviceClients { s with stateOfCharge := percentage.toUInt16 }

/-- The comparison with the state of charge, by whether the charger is connected. -/
def updateStateOfCharge (s : SocData τ) (percentage : UInt8) (hashChecking : Bool) :
    SocData τ × List (SocMessage τ) :=
  if s.chargerConnected then
    if percentage ≠ s.getBatterySoc then storePercentage s percentage hashChecking else (s, [])
  else
    if percentage < s.getBatterySoc then storePercentage s percentage hashChecking else (s, [])

/-- The end of `soc_HandleMessage`. -/
def updateContext (s : SocData τ) : SocData τ × List (SocMessage τ) :=
  if s.socContext ≠ socCurrentContext s then
    ({ s with socContext := socCurrentContext s },
      notifyBatteryChanged s.clientList (socCurrentContext s))
  else (s, [])

/-- `soc_HandleMessage`. -/
def handleMessage (c : SocConfig) (s : SocData τ) (input : SocInput) (hashChecking : Bool) :
    Option (SocData τ × List (SocMessage τ)) :=
  (takeInput c s input).bind fun s₁ =>
    c.socConfigTable[s₁.configIndex.toNat]?.map fun entry =>
      let (s₂, updates) := updateStateOfCharge s₁ entry.percentage hashChecking
      let (s₃, notifications) := updateContext s₂
      (s₃, updates ++ notifications)

inductive SocEvent (τ : Type) where
  | message (input : SocInput) (hashChecking : Bool)
  | register (task : τ) (allocated : Bool)
  | unregister (task : τ)
  | setReportingLimits (low high : UInt8)
  | forceNotifyBatteryChanged
  deriving DecidableEq

/-- The state after an event and the messages it sends. `none` is a read outside of the table. -/
def handle [DecidableEq τ] (c : SocConfig) (s : SocData τ) :
    SocEvent τ → Option (SocData τ × List (SocMessage τ))
  | .message input hashChecking => handleMessage c s input hashChecking
  | .register task allocated =>
    some (if allocated then
      serviceClients { s with clientList := ⟨task, 0⟩ :: s.clientList } else (s, []))
  | .unregister task => some ({ s with clientList := clientRemove s.clientList task }, [])
  | .setReportingLimits low high =>
    some ({ s with lowBatteryPercent := low, fullBatteryPercent := high }, [])
  | .forceNotifyBatteryChanged =>
    some (s, notifyBatteryChanged s.clientList (socCurrentContext s))

def socStep [DecidableEq τ] (c : SocConfig) (s : SocData τ) (event : SocEvent τ) : Option (SocData τ) :=
  (handle c s event).map Prod.fst

/-- `Soc_Init`, with what the persistent store retrieves and whether the charger is connected. -/
def socInit (retrieved : Option UInt16) (chargerIsConnected : Bool) : SocData τ where
  stateOfCharge := retrieved.getD 100
  chargerConnected := chargerIsConnected
  configIndex := 0
  lowBatteryPercent := 30
  fullBatteryPercent := 90
  clientList := []
  socContext := .batteryLow

/-! ## Statement -/

/-- The index after an update is the level of the clamped voltage, and the scan returns it. -/
def SearchRight (c : SocConfig) (s : SocData τ) : SocEvent τ → Prop
  | .message (.batteryLevelUpdateVoltage voltage_mv) _ =>
    ∃ index turns, stateOfChargeUpdate c s.configIndex voltage_mv = some index ∧
      IsLevel c.socConfigTable (c.clamp voltage_mv) index.toNat ∧
      getIndex c.socConfigTable turns (c.clamp voltage_mv) = some index
  | _ => True

def IsDetach : SocEvent τ → Prop
  | .message .chargerDetached _ => True
  | _ => False

def IsAttach : SocEvent τ → Prop
  | .message .chargerAttached _ => True
  | _ => False

/-- An event after a detach and before the next attach does not increase the state of charge,
and no client is told a greater one. -/
def NeverIncreases [DecidableEq τ] (c : SocConfig) (s : SocData τ)
    (events : List (SocEvent τ)) : Prop :=
  ∀ pre detach mid last, pre ++ detach :: (mid ++ [last]) <+: events → IsDetach detach →
    (∀ event ∈ mid ++ [last], ¬ IsAttach event) →
    ∀ s₁ s₂ sent, run (socStep c) s (pre ++ detach :: mid) = some s₁ →
      handle c s₁ last = some (s₂, sent) →
      s₂.getBatterySoc ≤ s₁.getBatterySoc ∧
        ∀ task percent, .updateInd task percent ∈ sent → percent ≤ s₁.getBatterySoc

def Permits (c : SocConfig) (_ : SocData τ) : SocEvent τ → Prop
  | .message (.batteryLevelUpdateVoltage voltage_mv) _ =>
    Scannable c.socConfigTable (c.clamp voltage_mv)
  | _ => True

/-! ## Steps -/

variable {c : SocConfig} {s s' : SocData τ} {sent : List (SocMessage τ)} {event : SocEvent τ}
  {percent : UInt8} {task : τ}

/-- The index is inside of the table, unless there is no index. -/
def InTable (c : SocConfig) (s : SocData τ) : Prop :=
  c.socConfigTable = [] ∨ s.configIndex.toNat < c.socConfigTable.length

instance : Decidable (InTable c s) :=
  inferInstanceAs (Decidable (_ ∨ _))

/-- The clients are told the state of charge. -/
theorem percent_of_mem_serviceClients (h : .updateInd task percent ∈ (serviceClients s).2) :
    percent = s.getBatterySoc := by
  obtain ⟨client, -, hsent⟩ := mem_filterMap.mp h
  split_ifs at hsent
  cases hsent
  rfl

theorem updateStateOfCharge_configIndex {percentage : UInt8} {hashChecking : Bool} :
    (updateStateOfCharge s percentage hashChecking).1.configIndex = s.configIndex := by
  unfold updateStateOfCharge storePercentage
  split_ifs <;> rfl

theorem updateContext_eq : ∃ context, (updateContext s).1 = { s with socContext := context } := by
  unfold updateContext
  split_ifs
  · exact ⟨_, rfl⟩
  · exact ⟨_, rfl⟩

/-- The other notifications do not tell a percentage. -/
theorem notMem_notifyBatteryChanged {clients : List (SocRegisteredClient τ)}
    {context : BatteryProviderContext} :
    .updateInd task percent ∉ notifyBatteryChanged clients context := by
  cases context <;> simp [notifyBatteryChanged]

theorem notMem_updateContext :
    .updateInd task percent ∉ (updateContext s).2 := by
  unfold updateContext
  split_ifs
  · exact notMem_notifyBatteryChanged
  · exact not_mem_nil

/-- A message takes its input, compares the percentage at the index and tells the context. -/
theorem handleMessage_cases {input : SocInput} {hashChecking : Bool}
    (h : handleMessage c s input hashChecking = some (s', sent)) :
    ∃ (s₁ : SocData τ) (entry : SocLookup) (context : BatteryProviderContext),
      takeInput c s input = some s₁ ∧
      s' = { (updateStateOfCharge s₁ entry.percentage hashChecking).1 with
        socContext := context } ∧
      ∀ task percent, .updateInd task percent ∈ sent →
        .updateInd task percent ∈ (updateStateOfCharge s₁ entry.percentage hashChecking).2 := by
  obtain ⟨s₁, hs1, h⟩ := bind_eq_some_iff.mp h
  obtain ⟨entry, -, h⟩ := map_eq_some_iff.mp h
  obtain ⟨hs', hsent⟩ := Prod.mk.inj h
  obtain ⟨context, hcontext⟩ :=
    updateContext_eq (s := (updateStateOfCharge s₁ entry.percentage hashChecking).1)
  refine ⟨s₁, entry, context, hs1, hs'.symm.trans hcontext, fun task percent hmem => ?_⟩
  rw [← hsent] at hmem
  exact (mem_append.mp hmem).resolve_right notMem_updateContext

/-! ## The index -/

/-- **The searches agree on a voltage exactly when it is scannable.** -/
theorem searchRight_iff (hasc : Ascending c.socConfigTable) (hs : InTable c s) :
    SearchRight c s event ↔ Permits c s event := by
  obtain ⟨voltage_mv, hashChecking, rfl⟩ | hother : (∃ voltage_mv hashChecking,
      event = .message (.batteryLevelUpdateVoltage voltage_mv) hashChecking) ∨
      ∀ voltage_mv hashChecking,
        event ≠ .message (.batteryLevelUpdateVoltage voltage_mv) hashChecking := by
    by_cases h : ∃ voltage_mv hashChecking,
        event = .message (.batteryLevelUpdateVoltage voltage_mv) hashChecking
    · exact .inl h
    · exact .inr fun v b hv => h ⟨v, b, hv⟩
  · rw [SearchRight, Permits]
    constructor
    · rintro ⟨index, turns, -, hlevel, hscan⟩
      exact (getIndex_iff hasc).mp ⟨turns, index, hscan, (isLevel_iff hasc).mp hlevel⟩
    · intro hscannable
      obtain ⟨turns, r, hr, hlevel⟩ := (getIndex_iff hasc).mpr hscannable
      have hne := ((scannable_iff hasc).mp hscannable).1
      have hlt := hs.resolve_left (ne_nil_of_length_pos hne)
      refine ⟨r, turns, ?_, (isLevel_iff hasc).mpr hlevel, hr⟩
      rw [stateOfChargeUpdate_eq hasc hlt, ← hlevel, UInt8.ofNat_toNat]
  · refine iff_of_true ?_ ?_
    · unfold SearchRight
      split
      · exact absurd rfl (hother _ _)
      · trivial
    · unfold Permits
      split
      · exact absurd rfl (hother _ _)
      · trivial

section

variable [DecidableEq τ]

theorem inTable_of_handle (hasc : Ascending c.socConfigTable) (hs : InTable c s)
    (h : handle c s event = some (s', sent)) : InTable c s' := by
  refine hs.imp_right fun hlt => ?_
  cases event with
  | message input hashChecking =>
    obtain ⟨s₁, entry, context, hs1, rfl, -⟩ := handleMessage_cases h
    change (updateStateOfCharge s₁ _ _).1.configIndex.toNat < _
    rw [updateStateOfCharge_configIndex]
    cases input with
    | batteryLevelUpdateVoltage voltage_mv =>
      obtain ⟨index, hindex, rfl⟩ := map_eq_some_iff.mp hs1
      rw [stateOfChargeUpdate_eq hasc hlt] at hindex
      cases hindex
      have hle : reached c.socConfigTable (c.clamp voltage_mv) ≤ c.socConfigTable.length :=
        reached_le
      have hmod := Nat.mod_le (reached c.socConfigTable (c.clamp voltage_mv) - 1) (2 ^ 8)
      change (UInt8.ofNat _).toNat < _
      rw [UInt8.toNat_ofNat']
      omega
    | chargerAttached | chargerDetached | other =>
      cases hs1
      exact hlt
  | register task allocated =>
    obtain ⟨rfl, -⟩ := Prod.mk.inj (some.inj h)
    cases allocated
    · exact hlt
    · exact hlt
  | unregister task | setReportingLimits low high | forceNotifyBatteryChanged =>
    cases h
    exact hlt

end

/-! ## The report -/

/-- The charger stays away, and nothing greater than the state of charge is reported. -/
structure Falls (s : SocData τ) (r : SocData τ × List (SocMessage τ)) : Prop where
  detached : r.1.chargerConnected = false
  soc : r.1.getBatterySoc ≤ s.getBatterySoc
  told : ∀ task percent, .updateInd task percent ∈ r.2 → percent ≤ s.getBatterySoc

theorem Falls.refl (hs : s.chargerConnected = false) : Falls s (s, []) :=
  ⟨hs, UInt8.le_refl _, fun _ _ hmem => absurd hmem not_mem_nil⟩

theorem falls_serviceClients {t : SocData τ} (ht : t.chargerConnected = false)
    (hle : t.getBatterySoc ≤ s.getBatterySoc) : Falls s (serviceClients t) :=
  ⟨ht, hle, fun _ _ hmem => percent_of_mem_serviceClients hmem ▸ hle⟩

/-- Without the charger only a lower percentage is stored. -/
theorem falls_updateStateOfCharge (hs : s.chargerConnected = false) (percentage : UInt8)
    (hashChecking : Bool) :
    Falls s (updateStateOfCharge s percentage hashChecking) := by
  unfold updateStateOfCharge storePercentage
  rw [if_neg (ne_true_of_eq_false hs)]
  split_ifs with hlt hchecking
  · exact Falls.refl hs
  · refine falls_serviceClients hs (UInt8.le_of_lt ?_)
    have hsoc : ({ s with stateOfCharge := percentage.toUInt16 } : SocData τ).getBatterySoc =
        percentage := by
      rw [SocData.getBatterySoc, UInt8.toUInt8_toUInt16]
    rwa [hsoc]
  · exact Falls.refl hs

variable [DecidableEq τ]

/-- What an event between a detach and the next attach does to the report. -/
theorem falls_handle (hs : s.chargerConnected = false) (hno : ¬ IsAttach event)
    (h : handle c s event = some (s', sent)) : Falls s (s', sent) := by
  cases event with
  | message input hashChecking =>
    obtain ⟨s₁, entry, context, hs1, rfl, hsent⟩ := handleMessage_cases h
    have hkeeps : s₁.chargerConnected = false ∧ s₁.getBatterySoc = s.getBatterySoc := by
      cases input with
      | batteryLevelUpdateVoltage voltage_mv =>
        obtain ⟨index, -, rfl⟩ := map_eq_some_iff.mp hs1
        exact ⟨hs, rfl⟩
      | chargerAttached => exact absurd trivial hno
      | chargerDetached =>
        cases hs1
        exact ⟨rfl, rfl⟩
      | other =>
        cases hs1
        exact ⟨hs, rfl⟩
    obtain ⟨hdetached, hsoc, htold⟩ :=
      falls_updateStateOfCharge hkeeps.1 entry.percentage hashChecking
    rw [hkeeps.2] at hsoc htold
    exact ⟨hdetached, hsoc, fun task percent hmem => htold task percent (hsent task percent hmem)⟩
  | register task allocated =>
    obtain rfl | rfl := allocated.eq_false_or_eq_true.symm
    · cases h
      exact Falls.refl hs
    · rw [← some.inj h]
      exact falls_serviceClients hs (UInt8.le_refl _)
  | unregister task | setReportingLimits low high =>
    cases h
    exact ⟨hs, UInt8.le_refl _, fun _ _ hmem => absurd hmem not_mem_nil⟩
  | forceNotifyBatteryChanged =>
    cases h
    exact ⟨hs, UInt8.le_refl _, fun _ _ hmem => absurd hmem notMem_notifyBatteryChanged⟩

theorem detached_of_isDetach (hdetach : IsDetach event)
    (h : handle c s event = some (s', sent)) : s'.chargerConnected = false := by
  obtain ⟨hashChecking, rfl⟩ : ∃ hashChecking, event = .message .chargerDetached hashChecking := by
    unfold IsDetach at hdetach
    split at hdetach
    · exact ⟨_, rfl⟩
    · exact hdetach.elim
  obtain ⟨s₁, entry, context, hs1, rfl, -⟩ := handleMessage_cases h
  cases hs1
  exact (falls_updateStateOfCharge rfl _ _).detached

theorem handle_of_socStep (h : socStep c s event = some s') :
    ∃ sent, handle c s event = some (s', sent) := by
  obtain ⟨⟨t, sent⟩, ht, rfl⟩ := map_eq_some_iff.mp h
  exact ⟨sent, ht⟩

/-- The charger stays away until the next attach. -/
theorem detached_of_run {events : List (SocEvent τ)} (hs : s.chargerConnected = false)
    (hno : ∀ event ∈ events, ¬ IsAttach event) (h : run (socStep c) s events = some s') :
    s'.chargerConnected = false := by
  induction events generalizing s with
  | nil =>
    cases h
    exact hs
  | cons event events ih =>
    obtain ⟨t, ht, hrun⟩ := run_cons.mp h
    obtain ⟨hevent, hrest⟩ := forall_mem_cons.mp hno
    obtain ⟨sent, ht⟩ := handle_of_socStep ht
    exact ih (falls_handle hs hevent ht).detached hrest hrun

/-- **Between a detach and the next attach the report never increases.** -/
theorem neverIncreases (c : SocConfig) (s : SocData τ) (events : List (SocEvent τ)) :
    NeverIncreases c s events := by
  intro pre detach mid last _ hdetach hno s₁ s₂ sent hrun hlast
  obtain ⟨t, -, hrun⟩ := run_append.mp hrun
  obtain ⟨u, hu, hrun⟩ := run_cons.mp hrun
  obtain ⟨_, hu⟩ := handle_of_socStep hu
  obtain ⟨hmid, hlastNo⟩ := forall_mem_append.mp hno
  have hs1 := detached_of_run (detached_of_isDetach hdetach hu) hmid hrun
  have hfalls := falls_handle hs1 (hlastNo last mem_cons_self) hlast
  exact ⟨hfalls.soc, hfalls.told⟩

/-! ## Runs -/

/-- **The run is right exactly when every voltage is scannable.** -/
theorem search_right_iff_scannable (c : SocConfig) (s : SocData τ) (events : List (SocEvent τ))
    (hasc : Ascending c.socConfigTable) (hs : InTable c s) :
    Meets (socStep c) (SearchRight c) s events ∧ NeverIncreases c s events ↔
      Meets (socStep c) (Permits c) s events := by
  rw [and_iff_left (neverIncreases c s events)]
  have hiff : ∀ (t : SocData τ) event, InTable c t → (SearchRight c t event ↔ Permits c t event) :=
    fun t event ht => searchRight_iff hasc ht
  have hkeeps : ∀ (t : SocData τ) (event : SocEvent τ) t', InTable c t → Permits c t event →
      socStep c t event = some t' → InTable c t' := by
    intro t event t' ht _ hstep
    obtain ⟨sent, hstep⟩ := handle_of_socStep hstep
    exact inTable_of_handle hasc ht hstep
  exact meets_iff_meets hiff hkeeps hs

/-- A table of three levels, and a battery that is critical below the first. -/
def threeLevels : SocConfig where
  socConfigTable := [⟨3300, 0⟩, ⟨3600, 50⟩, ⟨4200, 100⟩]
  batteryVoltageCritical := 3000
  batteryFullyCharged := 4200

/-- A client registers, the battery is charged, and it goes down after a detach and recovers. -/
def chargeAndDrain : List (SocEvent ℕ) :=
  [.register 7 true, .message .chargerAttached false,
    .message (.batteryLevelUpdateVoltage 3700) false,
    .message (.batteryLevelUpdateVoltage 4200) false, .message .chargerDetached false,
    .message (.batteryLevelUpdateVoltage 3500) false,
    .message (.batteryLevelUpdateVoltage 3900) false]

theorem search_right_iff_scannable_chargeAndDrain :
    Meets (socStep threeLevels) (SearchRight threeLevels) (socInit none false) chargeAndDrain ∧
      NeverIncreases threeLevels (socInit none false) chargeAndDrain ↔
    Meets (socStep threeLevels) (Permits threeLevels) (socInit none false) chargeAndDrain :=
  search_right_iff_scannable threeLevels _ _ (by decide) (by decide)

/-- **Below the first voltage the search finds the first level, and the scan the last.** -/
theorem not_search_right :
    stateOfChargeUpdate threeLevels 0 3100 = some 0 ∧
    convertLevelToPercentage threeLevels 3 3100 = some 100 ∧
    ¬ Meets (socStep threeLevels) (SearchRight threeLevels) (socInit none false : SocData ℕ)
      [.message (.batteryLevelUpdateVoltage 3100) false] := by
  refine ⟨by decide, by decide, fun h => ?_⟩
  obtain ⟨index, turns, hupdate, -, hscan⟩ := h.1
  have hupdate' : stateOfChargeUpdate threeLevels 0 3100 = some 0 := by decide
  obtain rfl : (0 : UInt8) = index := Option.some.inj (hupdate'.symm.trans hupdate)
  have hasc : Ascending threeLevels.socConfigTable := by decide
  obtain ⟨first, hfirst, hv, -⟩ := (getIndex_iff hasc).mp ⟨turns, 0, hscan, by decide⟩
  cases hfirst
  revert hv
  decide

end Mh40.StateOfCharge
