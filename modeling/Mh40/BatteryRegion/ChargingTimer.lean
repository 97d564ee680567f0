import Mh40.BatteryRegion.Regions
import Mh40.Lib.Run

/-!
# The charging timer

* `Guarded`: a connected charger in a timed region has its timer pending, or is disabled; and no
  timer is pending for another region, or after a detach has been told.
* `StartsRight`: an update starts the timer on the entry to a region, and not while it stays there.
* **`timed_right_iff`**: the exact condition on the events of a run. A detach that is handled
  after the charger is back, and an attach before the next update, leave a region without a timer.
-/

namespace Mh40.BatteryRegion

open Lib List Option

variable {c : RegionContext} {s s' : RegionData} {event : RegionEvent} {voltage : UInt16}
  {temperature : Int8} {i : UInt8} {newRegion : ChargeRegion}

/-! ## Statement -/

def currentRegion (s : RegionData) : Option ChargeRegion :=
  if s.region = batteryRegionUndefined then none
  else s.regionTable.regions[s.region.toNat]?

/-- The current region has a current and a charging timer. -/
def timed (s : RegionData) : Bool :=
  (currentRegion s).any isTimed

/-- The charger is detached, and the region task has been told. -/
def Detached (s : RegionData) : Prop :=
  s.chargerIsConnected = false ∧ .detached ∉ s.notifications

structure Guarded (s : RegionData) : Prop where
  covered : s.chargerIsConnected = true → s.updated = true → timed s = true →
    s.chargingTimers ≠ [] ∨ s.disableReasonTimeout = true
  needed : s.chargingTimers ≠ [] → timed s = true ∧ ¬ Detached s

/-- An update that stays in a region leaves the timer, and one that enters a region starts its
timer, or leaves none. -/
def StartsRight (s s' : RegionData) : RegionEvent → Prop
  | .updateTrigger _ _ =>
    if s'.region = s.region ∧ s'.regionTable = s.regionTable then
      s'.chargingTimers = s.chargingTimers ∧ s'.started = s.started
    else ∀ newRegion ∈ currentRegion s',
      s'.chargingTimers = if isTimed newRegion then [timerDelay newRegion] else []
  | _ => True

def Right (c : RegionContext) (s : RegionData) (event : RegionEvent) : Prop :=
  ∃ s', regionStep c s event = some s' ∧ Guarded s' ∧ StartsRight s s' event

/-- A detach is not handled in a guarded region. An update does not enter a timed region after a
detach, or again; it does not leave its table for one without a region while a timer is pending;
and the first one since an attach does not stay in a timed region without a timer. -/
def Permits (c : RegionContext) (s : RegionData) : RegionEvent → Prop
  | .updateTrigger voltage temperature =>
    match regionChange (switchTable c s) voltage temperature with
    | some (.enter i) =>
      ((switchTable c s).regionTable.regions[i.toNat]?).any isTimed = true →
        ¬ Detached s ∧ i ≠ (switchTable c s).region
    | _ =>
      if s.regionTable = modeTable c s then
        s.chargerIsConnected = true → s.updated = false → timed s = true →
          s.chargingTimers ≠ [] ∨ s.disableReasonTimeout = true
      else s.chargingTimers = []
  | .notification =>
    s.notifications ≠ [] ∧
      (s.notifications.head? = some .detached →
        ¬ (s.chargerIsConnected = true ∧ s.updated = true ∧ timed s = true))
  | .chargingTimer => s.chargingTimers ≠ []
  | _ => True

/-! ## Events -/

/-- A state that agrees on what `Guarded` reads. -/
theorem Guarded.of_timers (h : Guarded s) (hcovered : s'.chargerIsConnected = true →
    s'.updated = true → timed s' = true →
      s'.chargingTimers ≠ [] ∨ s'.disableReasonTimeout = true)
    (htimed : timed s' = timed s) (htimers : s'.chargingTimers ≠ [] → s.chargingTimers ≠ [])
    (hdetached : Detached s' → Detached s) : Guarded s' :=
  ⟨hcovered, fun hne => ⟨htimed ▸ (h.needed (htimers hne)).1,
    fun hd => (h.needed (htimers hne)).2 (hdetached hd)⟩⟩

theorem guarded_updateConnected (h : Guarded s) (chargerIsConnected : Bool) :
    Guarded (updateConnected s chargerIsConnected) := by
  unfold updateConnected
  split_ifs
  · exact h
  · refine h.of_timers (fun _ hupdated => Bool.noConfusion hupdated) rfl id fun hd => ?_
    exact Bool.noConfusion hd.1
  · exact h
  · refine h.of_timers (fun hconnected => Bool.noConfusion hconnected) rfl id fun hd => ?_
    exact absurd (mem_append_right _ mem_cons_self) hd.2

theorem right_notification_iff (h : Guarded s) :
    Right c s .notification ↔ Permits c s .notification := by
  unfold Right regionStep handleEvent Permits
  cases hn : s.notifications with
  | nil =>
    refine iff_of_false ?_ fun hp => hp.1 rfl
    rintro ⟨s', hs', -⟩
    cases hs'
  | cons notification rest =>
    have hdetached : ∀ t : RegionData, t.isConnected = s.isConnected → t.notifications = rest →
        notification = .attached → Detached t → Detached s := by
      rintro t hconnected rfl rfl ⟨haway, hnone⟩
      refine ⟨?_, ?_⟩
      · rw [← haway, RegionData.chargerIsConnected, RegionData.chargerIsConnected, hconnected]
      · rw [hn]
        exact not_mem_cons_of_ne_of_not_mem (by decide) hnone
    cases notification with
    | attached =>
      refine iff_of_true ⟨_, rfl, ?_, trivial⟩ ⟨cons_ne_nil _ _, fun hd => ?_⟩
      · exact h.of_timers h.covered rfl id (hdetached _ rfl rfl rfl)
      · cases hd
    | detached =>
      constructor
      · rintro ⟨s', hs', hguarded, -⟩
        cases hs'
        refine ⟨cons_ne_nil _ _, fun _ ⟨hconnected, hupdated, htimed⟩ => ?_⟩
        obtain hne | hdisabled := hguarded.covered hconnected hupdated htimed
        · exact hne rfl
        · exact Bool.noConfusion hdisabled
      · rintro ⟨-, hp⟩
        refine ⟨_, rfl, ⟨fun hconnected hupdated htimed => ?_, fun hne => absurd rfl hne⟩, trivial⟩
        exact absurd ⟨hconnected, hupdated, htimed⟩ (hp rfl)

theorem right_chargingTimer_iff (h : Guarded s) :
    Right c s .chargingTimer ↔ Permits c s .chargingTimer := by
  unfold Right regionStep handleEvent Permits
  cases ht : s.chargingTimers with
  | nil =>
    refine iff_of_false ?_ fun hp => hp rfl
    rintro ⟨s', hs', -⟩
    cases hs'
  | cons timer rest =>
    refine iff_of_true ⟨_, rfl, ?_, trivial⟩ (cons_ne_nil _ _)
    refine h.of_timers (fun _ _ _ => .inr rfl) rfl (fun _ => ?_) id
    rw [ht]
    exact cons_ne_nil _ _

/-! ## Updates -/

theorem switchTable_of_eq (h : s.regionTable = modeTable c s) : switchTable c s = s :=
  if_neg (not_not_intro h)

theorem switchTable_region (h : s.regionTable ≠ modeTable c s) :
    (switchTable c s).region = batteryRegionUndefined := by
  rw [switchTable, if_pos h]

theorem switchTable_regionTable : (switchTable c s).regionTable = modeTable c s := by
  unfold switchTable
  split_ifs with h
  · rfl
  · exact not_not.mp h

/-- The choice of the table leaves the charger and the messages. -/
theorem switchTable_keeps : (switchTable c s).chargerIsConnected = s.chargerIsConnected ∧
    (switchTable c s).notifications = s.notifications ∧
    (switchTable c s).chargingTimers = s.chargingTimers ∧
    (switchTable c s).started = s.started := by
  unfold switchTable
  split_ifs
  · exact ⟨rfl, rfl, rfl, rfl⟩
  · exact ⟨rfl, rfl, rfl, rfl⟩

theorem timed_of_undefined (h : s.region = batteryRegionUndefined) : timed s = false := by
  rw [timed, currentRegion, if_pos h]
  rfl

theorem currentRegion_of_getElem? (hi : s.region ≠ batteryRegionUndefined)
    (h : s.regionTable.regions[s.region.toNat]? = some newRegion) :
    currentRegion s = some newRegion := by
  rw [currentRegion, if_neg hi, h]

/-- An update that does not enter a region. -/
theorem right_stay_iff (h : Guarded s)
    (hstep : regionStep c s (.updateTrigger voltage temperature) =
      some { switchTable c s with updated := true }) :
    Right c s (.updateTrigger voltage temperature) ↔
      if s.regionTable = modeTable c s then
        s.chargerIsConnected = true → s.updated = false → timed s = true →
          s.chargingTimers ≠ [] ∨ s.disableReasonTimeout = true
      else s.chargingTimers = [] := by
  unfold Right
  rw [hstep]
  split_ifs with htable
  · rw [switchTable_of_eq htable]
    constructor
    · rintro ⟨s', hs', hguarded, -⟩ hconnected - htimed
      cases hs'
      exact hguarded.covered hconnected rfl htimed
    · intro hp
      refine ⟨_, rfl, h.of_timers (fun hconnected _ htimed => ?_) rfl id id, ?_⟩
      · by_cases hupdated : s.updated = true
        · exact h.covered hconnected hupdated htimed
        · exact hp hconnected (Bool.eq_false_iff.mpr hupdated) htimed
      · exact (if_pos ⟨rfl, rfl⟩).mpr ⟨rfl, rfl⟩
  · have hundefined := switchTable_region htable
    have huntimed : timed { switchTable c s with updated := true } = false :=
      timed_of_undefined hundefined
    constructor
    · rintro ⟨s', hs', hguarded, -⟩
      cases hs'
      by_contra hne
      have hne' : (switchTable c s).chargingTimers ≠ [] := by rwa [switchTable_keeps.2.2.1]
      rw [(hguarded.needed hne').1] at huntimed
      cases huntimed
    · intro hnone
      refine ⟨_, rfl, ⟨fun _ _ htimed => ?_, fun hne => ?_⟩, ?_⟩
      · rw [htimed] at huntimed
        cases huntimed
      · exact absurd (switchTable_keeps.2.2.1.trans hnone) hne
      · refine (if_neg fun hsame => htable ?_).mpr fun newRegion hmem => ?_
        · exact hsame.2.symm.trans switchTable_regionTable
        · rw [currentRegion, if_pos hundefined] at hmem
          exact absurd hmem (not_mem_none _)

/-- An update that enters a region. -/
theorem right_enter_iff (h : Guarded s) (hi : i ≠ batteryRegionUndefined)
    (hget : (switchTable c s).regionTable.regions[i.toNat]? = some newRegion)
    (hstep : regionStep c s (.updateTrigger voltage temperature) =
      some { (enterRegion c (switchTable c s) i newRegion).1 with updated := true }) :
    Right c s (.updateTrigger voltage temperature) ↔
      (isTimed newRegion = true → ¬ Detached s ∧ i ≠ (switchTable c s).region) := by
  obtain ⟨hconnected, hnotifications, htimers, hstarted⟩ := switchTable_keeps (c := c) (s := s)
  unfold Right
  rw [hstep]
  generalize hs' : { (enterRegion c (switchTable c s) i newRegion).1 with updated := true } = s'
  have hcurrent : currentRegion s' = some newRegion := by
    subst hs'
    exact currentRegion_of_getElem? hi hget
  have htimed : timed s' = isTimed newRegion := by
    rw [timed, hcurrent, any_some]
  have hdetached : Detached s' ↔ Detached s := by
    subst hs'
    exact and_congr (by rw [← hconnected]; rfl) (by rw [← hnotifications]; rfl)
  have hsame : s'.region = s.region ∧ s'.regionTable = s.regionTable ↔
      i = (switchTable c s).region := by
    subst hs'
    by_cases htable : s.regionTable = modeTable c s
    · rw [switchTable_of_eq htable]
      exact and_iff_left rfl
    · refine iff_of_false (fun hboth => htable ?_) fun heq => hi ?_
      · exact hboth.2.symm.trans switchTable_regionTable
      · exact heq.trans (switchTable_region htable)
  by_cases hnew : isTimed newRegion = true
  · have htimers' : s'.chargingTimers = [timerDelay newRegion] := by
      subst hs'
      exact if_pos hnew
    have hstarted' : s'.started = s.started + 1 := by
      subst hs'
      exact (if_pos hnew).trans (congrArg (· + 1) hstarted)
    constructor
    · rintro ⟨t, ht, hguarded, hstarts⟩ -
      obtain rfl : s' = t := some.inj ht
      have hneeded := (hguarded.needed (by rw [htimers']; exact cons_ne_nil _ _)).2
      refine ⟨fun hd => hneeded (hdetached.mpr hd), fun heq => ?_⟩
      have hboth := (if_pos (hsame.mpr heq)).mp hstarts
      have := hstarted'.symm.trans hboth.2
      omega
    · intro hp
      obtain ⟨haway, hother⟩ := hp hnew
      refine ⟨s', rfl, ⟨fun _ _ _ => .inl ?_, fun _ => ⟨htimed.trans hnew, ?_⟩⟩, ?_⟩
      · rw [htimers']
        exact cons_ne_nil _ _
      · exact fun hd => haway (hdetached.mp hd)
      · refine (if_neg fun hboth => hother (hsame.mp hboth)).mpr fun region hmem => ?_
        rw [← some.inj (hcurrent.symm.trans hmem), if_pos hnew, htimers']
  · have htimers' : s'.chargingTimers = [] := by
      subst hs'
      exact if_neg hnew
    refine iff_of_true ⟨s', rfl, ⟨fun _ _ ht => ?_, fun hne => absurd htimers' hne⟩, ?_⟩
      fun ht => absurd ht hnew
    · exact absurd (htimed.symm.trans ht) hnew
    · by_cases hboth : s'.region = s.region ∧ s'.regionTable = s.regionTable
      · refine (if_pos hboth).mpr ⟨?_, ?_⟩
        · have huntimed : timed s = isTimed newRegion := by
            rw [← htimed, timed, timed, currentRegion, currentRegion, hboth.1, hboth.2]
          rw [htimers']
          by_contra hne
          exact hnew (huntimed.symm.trans (h.needed (Ne.symm hne)).1)
        · subst hs'
          exact (if_neg hnew).trans hstarted
      · refine (if_neg hboth).mpr fun region hmem => ?_
        rw [← some.inj (hcurrent.symm.trans hmem), if_neg hnew, htimers']

/-! ## Runs -/

/-- **An event leaves a guarded state guarded exactly when it is permitted.** -/
theorem right_iff (hin : InTable s) (h : Guarded s) : Right c s event ↔ Permits c s event := by
  cases event with
  | updateConnected chargerIsConnected =>
    exact iff_of_true ⟨_, rfl, guarded_updateConnected h chargerIsConnected, trivial⟩ trivial
  | chargeTimeout =>
    refine iff_of_true ⟨_, rfl, ?_, trivial⟩ trivial
    exact h.of_timers (fun _ _ _ => .inr rfl) rfl id id
  | notification => exact right_notification_iff h
  | chargingTimer => exact right_chargingTimer_iff h
  | updateTrigger voltage temperature =>
    obtain ⟨change, hchange, hstay, hupdate⟩ | ⟨i, newRegion, hchange, hlt, hget, hupdate⟩ :=
      updateRegion_cases (c := c) hin voltage temperature
    · have hstep : regionStep c s (.updateTrigger voltage temperature) =
          some { switchTable c s with updated := true } := by
        unfold regionStep handleEvent
        dsimp only
        rw [hupdate]
        rfl
      rw [right_stay_iff h hstep]
      unfold Permits
      dsimp only
      rw [hchange]
      cases change with
      | keep | notLocated => exact Iff.rfl
      | enter i => exact absurd rfl (hstay i)
    · have hi : i ≠ batteryRegionUndefined := by
        rintro rfl
        have h255 := (switchTable c s).regionTableLen.toNat_lt
        have hundefined : batteryRegionUndefined.toNat = 255 := rfl
        omega
      have hstep : regionStep c s (.updateTrigger voltage temperature) =
          some { (enterRegion c (switchTable c s) i newRegion).1 with updated := true } := by
        unfold regionStep handleEvent
        dsimp only
        rw [hupdate]
        rfl
      rw [right_enter_iff h hi hget hstep]
      unfold Permits
      dsimp only
      rw [hchange]
      dsimp only
      rw [hget, any_some]

theorem guarded_regionInit (isConnected : ChargerConnection) (disableReasonTimeout : Bool) :
    Guarded (regionInit isConnected disableReasonTimeout) :=
  ⟨fun _ hupdated => Bool.noConfusion hupdated, fun hne => absurd rfl hne⟩

/-- **The charging timer guards a run exactly when every event is permitted.** -/
theorem timed_right_iff (c : RegionContext) (isConnected : ChargerConnection)
    (disableReasonTimeout : Bool) (events : List RegionEvent) :
    Meets (regionStep c) (Right c) (regionInit isConnected disableReasonTimeout) events ↔
      Meets (regionStep c) (Permits c) (regionInit isConnected disableReasonTimeout) events := by
  have hiff : ∀ s event, InTable s ∧ Guarded s → (Right c s event ↔ Permits c s event) :=
    fun s event hs => right_iff hs.1 hs.2
  have hkeeps : ∀ s event s', InTable s ∧ Guarded s → Permits c s event →
      regionStep c s event = some s' → InTable s' ∧ Guarded s' := by
    rintro s event s' ⟨hin, h⟩ hp hstep
    obtain ⟨t, ht, hguarded, -⟩ := (right_iff hin h).mpr hp
    obtain rfl : s' = t := Option.some.inj (hstep.symm.trans ht)
    exact ⟨inTable_regionStep hin hstep, hguarded⟩
  exact meets_iff_meets hiff hkeeps
    ⟨inTable_regionInit, guarded_regionInit isConnected disableReasonTimeout⟩

/-- A charging table of one region with a timer, and a discharging table without timers. -/
def oneRegion : RegionContext where
  chargeTable := ⟨1, [⟨500, 3000, 4200, 50, 0, 45, 1, .normal, 360⟩]⟩
  dischargeTable := ⟨2, [⟨0, 3000, 4200, 50, -20, 60, 1, .normal, 0⟩]⟩
  safetyHandler := false
  chargingTimeoutHandler := false
  transitionHandler := false
  clients := 0

/-- **A charger that comes back before the next update charges without a timer.** -/
theorem not_right :
    ¬ Meets (regionStep oneRegion) (Right oneRegion) (regionInit .connected false)
      [.notification, .updateTrigger 3700 20, .updateConnected false, .notification,
        .updateConnected true, .notification, .updateTrigger 3700 20] := by
  intro h
  have hsplit : [RegionEvent.notification, .updateTrigger 3700 20, .updateConnected false,
      .notification, .updateConnected true, .notification, .updateTrigger 3700 20] =
    [.notification, .updateTrigger 3700 20, .updateConnected false, .notification,
      .updateConnected true, .notification] ++ [.updateTrigger 3700 20] := rfl
  rw [hsplit] at h
  obtain ⟨-, s', hs', hguarded, -⟩ := h.snoc rfl
  cases hs'
  exact absurd (hguarded.covered (by decide) (by decide) (by decide)) (by decide)

end Mh40.BatteryRegion
