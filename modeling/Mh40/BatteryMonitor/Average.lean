import Mathlib.Algebra.Order.Ring.Nat
import Mh40.BatteryMonitor.MedianFilter
import Mh40.Lib.Run

/-!
# The average of the battery voltage

Model of the ADC results of `battery_monitor.c`, over `MedianFilter.lean`. The average counts in
hundredths of a millivolt.

* `voltages`: the readings that the results give to the filter.
* `FilterRight`: what holds of the filter and the average after these readings.
* **`filtered_right`**: the filter is right after every results, with a window of 1 to 255
  readings, and with a larger one for the first 255 readings. A pointwise greater sequence never
  has the smaller average.
* `not_filtered_right`: a window of no readings, and a window of 256.
-/

namespace Mh40.BatteryMonitor

open Lib List Option

/-! ## Model -/

/-- What the handler does not compute: the reference constant, the memory that an allocation
returns, and the turns that a loop is given. -/
structure AdcEnvironment where
  vrefConstant : UInt16
  fresh : ℕ → UInt16
  turns : ℕ

inductive AdcSource where
  | pmuVbatSns
  | vrefHqBuff
  | other
  deriving DecidableEq

/-- `MessageAdcResult`, and whether a level test is on then. -/
structure AdcResult where
  adcSource : AdcSource
  reading : UInt16
  batteryLevelTestOn : Bool
  deriving DecidableEq

/-- `batteryTaskData` without the clients, and the static variables of the two filters. -/
structure BatteryTaskData where
  period : UInt16
  vrefRaw : UInt16
  cfmSent : Bool
  medianFilterWindow : UInt16
  instantaneous : UInt16
  weight : UInt8
  lastEma : UInt32
  currentEma : UInt32
  median : MedianFilter
  t : UInt8
  deriving DecidableEq

inductive BatteryMessage where
  | initCfm
  | internalMeasurementTrigger (delay : UInt16)
  deriving DecidableEq

/-- `batteryMonitor_ExponentialAverage`, with its static variable `t` afterwards. -/
def exponentialAverage (b : BatteryTaskData) (reading : UInt16) : UInt32 × UInt8 :=
  if b.t = 1 then (reading.toUInt32 * 100, b.t + 1)
  else (b.weight.toUInt32 * reading.toUInt32 + (100 - b.weight.toUInt32) * b.lastEma / 100, b.t)

/-- The reading of the battery in millivolts. -/
def vbattMv (vrefConstant vrefRaw reading : UInt16) : UInt16 :=
  (vrefConstant.toUInt32 * reading.toUInt32 / vrefRaw.toUInt32).toUInt16

/-- The two filters, on a reading in millivolts. -/
def filterReading (e : AdcEnvironment) (b : BatteryTaskData) (vbatt_mv : UInt16) :
    Option (BatteryTaskData × UInt16) :=
  (medianFiltering e.turns e.fresh b.medianFilterWindow b.median vbatt_mv).map
    fun (median, medianReading) =>
      let b := { b with median, instantaneous := medianReading, lastEma := b.currentEma }
      let (ema, t) := exponentialAverage b medianReading
      ({ b with currentEma := ema, t }, medianReading)

/-- `appBatteryAdcResultHandler`: the state afterwards, the messages and the answer. -/
def adcResultHandler (e : AdcEnvironment) (b : BatteryTaskData) (result : AdcResult) :
    Option (BatteryTaskData × List BatteryMessage × Bool) :=
  match result.adcSource with
  | .pmuVbatSns =>
    let cfm : List BatteryMessage := if b.cfmSent then [] else [.initCfm]
    let b := { b with cfmSent := true }
    let filtered : Option (BatteryTaskData × UInt16) :=
      if b.vrefRaw ≠ 0 then filterReading e b (vbattMv e.vrefConstant b.vrefRaw result.reading)
      else some (b, 0)
    filtered.map fun (b, medianReading) =>
      let next : List BatteryMessage :=
        if result.batteryLevelTestOn then [] else [.internalMeasurementTrigger b.period]
      (b, cfm ++ next, medianReading ≠ 0)
  | .vrefHqBuff => some ({ b with vrefRaw := result.reading }, [], false)
  | .other => some (b, [], false)

def adcStep (e : AdcEnvironment) (b : BatteryTaskData) (result : AdcResult) :
    Option BatteryTaskData :=
  (adcResultHandler e b result).map Prod.fst

/-- `appBatteryInit`. -/
def batteryInit (period window : UInt16) (weight : UInt8) : BatteryTaskData where
  period := period
  vrefRaw := 0
  cfmSent := false
  medianFilterWindow := window
  instantaneous := 0
  weight := weight
  lastEma := 0
  currentEma := 0
  median := ⟨none, 0⟩
  t := 1

/-- `appBatteryGetVoltageAverage`, of a level that is not faked. -/
def getVoltageAverage (b : BatteryTaskData) : UInt16 :=
  (b.currentEma / 100).toUInt16

/-! ## Statement -/

/-- The readings in millivolts that the results give to the filter. -/
def voltages (vrefConstant : UInt16) : UInt16 → List AdcResult → List UInt16
  | _, [] => []
  | vrefRaw, result :: results =>
    match result.adcSource with
    | .pmuVbatSns =>
      if vrefRaw ≠ 0 then
        vbattMv vrefConstant vrefRaw result.reading :: voltages vrefConstant vrefRaw results
      else voltages vrefConstant vrefRaw results
    | .vrefHqBuff => voltages vrefConstant result.reading results
    | .other => voltages vrefConstant vrefRaw results

/-- The median of the last readings. -/
def medianOf (window : UInt16) (vs : List UInt16) : Option UInt16 :=
  lowerMedian (lastReadings window.toNat vs)

/-- After the readings `vs` the filter has returned the lower median of the last ones, and the
average is between the medians so far, and the reading where all readings are equal. -/
structure FilterRight (window : UInt16) (vs : List UInt16) (b : BatteryTaskData) : Prop where
  median : medianOf window vs = some b.instantaneous
  between : ∀ lo hi : UInt16,
    (∀ pre median, pre <+: vs → medianOf window pre = some median → lo ≤ median ∧ median ≤ hi) →
    100 * lo.toNat ≤ b.currentEma.toNat ∧ b.currentEma.toNat ≤ 100 * hi.toNat
  equal : ∀ v, (∀ reading ∈ vs, reading = v) → b.currentEma.toNat = 100 * v.toNat
  rounded : (getVoltageAverage b).toNat = b.currentEma.toNat / 100

/-! ## The exponential average -/

variable {e : AdcEnvironment} {b b' : BatteryTaskData} {window period : UInt16} {weight : UInt8}
  {vs ws seen : List UInt16} {ema ema' : Option ℕ} {lo hi : ℕ} {results : List AdcResult} {w : ℕ}

/-- The next average, in the numbers. -/
def smooth (weight : ℕ) (ema : Option ℕ) (median : ℕ) : ℕ :=
  match ema with
  | none => median * 100
  | some last => weight * median + (100 - weight) * last / 100

/-- The average after the readings `vs`, where `seen` were read before. -/
def averageFrom (window : UInt16) (weight : ℕ) :
    List UInt16 → Option ℕ → List UInt16 → Option ℕ
  | _, ema, [] => ema
  | seen, ema, v :: vs =>
    averageFrom window weight (seen ++ [v])
      ((medianOf window (seen ++ [v])).map fun median => smooth weight ema median.toNat) vs

theorem averageFrom_append : averageFrom window w seen ema (vs ++ ws) =
    averageFrom window w (seen ++ vs) (averageFrom window w seen ema vs) ws := by
  induction vs generalizing seen ema with
  | nil => rw [nil_append, append_nil, averageFrom]
  | cons v vs ih =>
    rw [cons_append, averageFrom, averageFrom, ih, append_assoc, singleton_append]

/-- A weighted average stays between the bounds: a multiple of a hundred is divided exactly. -/
theorem smooth_between {w median : ℕ} (hw : w ≤ 100)
    (hema : ∀ last ∈ ema, 100 * lo ≤ last ∧ last ≤ 100 * hi) (hlo : lo ≤ median)
    (hhi : median ≤ hi) : 100 * lo ≤ smooth w ema median ∧ smooth w ema median ≤ 100 * hi := by
  cases ema with
  | none =>
    rw [smooth]
    omega
  | some last =>
    obtain ⟨hlast, hlast'⟩ := hema last rfl
    have hsplit (x : ℕ) : w * x + (100 - w) * (100 * x) / 100 = 100 * x := by
      rw [Nat.mul_left_comm, Nat.mul_div_cancel_left _ (by omega), ← Nat.add_mul,
        Nat.add_sub_cancel' hw]
    rw [smooth, ← hsplit lo, ← hsplit hi]
    exact ⟨Nat.add_le_add (Nat.mul_le_mul_left w hlo)
        (Nat.div_le_div_right (Nat.mul_le_mul_left _ hlast)),
      Nat.add_le_add (Nat.mul_le_mul_left w hhi)
        (Nat.div_le_div_right (Nat.mul_le_mul_left _ hlast'))⟩

theorem smooth_mono {w x y : ℕ} (hema : Option.Rel (· ≤ ·) ema ema') (hxy : x ≤ y) :
    smooth w ema x ≤ smooth w ema' y := by
  cases hema with
  | none => exact Nat.mul_le_mul_right 100 hxy
  | some hle =>
    exact Nat.add_le_add (Nat.mul_le_mul_left w hxy)
      (Nat.div_le_div_right (Nat.mul_le_mul_left _ hle))

theorem averageFrom_between (hw : w ≤ 100)
    (hbounds : ∀ pre median, pre <+: seen ++ vs → medianOf window pre = some median →
      lo ≤ median.toNat ∧ median.toNat ≤ hi)
    (hema : ∀ last ∈ ema, 100 * lo ≤ last ∧ last ≤ 100 * hi) :
    ∀ last ∈ averageFrom window w seen ema vs, 100 * lo ≤ last ∧ last ≤ 100 * hi := by
  induction vs generalizing seen ema with
  | nil => exact hema
  | cons v vs ih =>
    rw [append_cons] at hbounds
    rw [averageFrom]
    refine ih hbounds fun last hlast => ?_
    obtain ⟨median, hmedian, rfl⟩ := map_eq_some_iff.mp hlast
    obtain ⟨hlo, hhi⟩ := hbounds _ median (prefix_append _ _) hmedian
    exact smooth_between hw hema hlo hhi

/-- **A pointwise greater sequence has the greater median.** -/
theorem medianOf_mono (h : List.Forall₂ (· ≤ ·) vs ws) :
    Option.Rel (· ≤ ·) (medianOf window vs) (medianOf window ws) := by
  have hlen := h.length_eq
  have hlast : List.Forall₂ (· ≤ ·) (lastReadings window.toNat vs)
      (lastReadings window.toNat ws) := by
    rw [lastReadings, lastReadings, hlen]
    exact List.forall₂_drop _ h
  have hsame : (medianOf window vs).isSome ↔ (medianOf window ws).isSome := by
    rw [medianOf, lowerMedian, orderStatistic_isSome_iff, medianOf, lowerMedian,
      orderStatistic_isSome_iff, hlast.length_eq]
  cases hv : medianOf window vs with
  | none =>
    have hw : medianOf window ws = none := by
      rw [← not_isSome_iff_eq_none, ← hsame, hv]
      exact Bool.false_ne_true
    rw [hw]
    exact .none
  | some x =>
    obtain ⟨y, hy⟩ := isSome_iff_exists.mp (hsame.mp (by rw [hv]; rfl))
    rw [hy]
    rw [medianOf, lowerMedian] at hv hy
    rw [← hlast.length_eq] at hy
    exact .some (orderStatistic_mono hlast hv hy)

/-- **A pointwise greater sequence has the greater average.** -/
theorem averageFrom_mono {seen' : List UInt16} (hvs : List.Forall₂ (· ≤ ·) vs ws)
    (hseen : List.Forall₂ (· ≤ ·) seen seen') (hema : Option.Rel (· ≤ ·) ema ema') :
    Option.Rel (· ≤ ·) (averageFrom window w seen ema vs) (averageFrom window w seen' ema' ws) := by
  induction hvs generalizing seen seen' ema ema' with
  | nil => exact hema
  | @cons v v' vs ws hle hvs ih =>
    have hseen' : List.Forall₂ (· ≤ ·) (seen ++ [v]) (seen' ++ [v']) :=
      rel_append hseen (.cons hle .nil)
    rw [averageFrom, averageFrom]
    refine ih hseen' ?_
    have hmedian : Option.Rel (· ≤ ·) (medianOf window (seen ++ [v]))
        (medianOf window (seen' ++ [v'])) := medianOf_mono hseen'
    revert hmedian
    generalize medianOf window (seen ++ [v]) = median
    generalize medianOf window (seen' ++ [v']) = median'
    rintro (hxy | _)
    · exact .some (smooth_mono hema (UInt16.le_iff_toNat_le.mp hxy))
    · exact .none

/-! ## Runs -/

/-- The state after the readings `vs`. -/
structure Averaged (e : AdcEnvironment) (window : UInt16) (weight : UInt8) (vs : List UInt16)
    (b : BatteryTaskData) : Prop where
  holds : Holds e.fresh window vs b.median
  sameWindow : b.medianFilterWindow = window
  sameWeight : b.weight = weight
  average : (vs = [] ∧ b.t = 1 ∧ b.currentEma = 0) ∨
    b.t = 2 ∧ averageFrom window weight.toNat [] none vs = some b.currentEma.toNat ∧
      medianOf window vs = some b.instantaneous ∧ b.currentEma.toNat ≤ 100 * 65535

theorem averaged_batteryInit (e : AdcEnvironment) (period window : UInt16) (weight : UInt8) :
    Averaged e window weight [] (batteryInit period window weight) :=
  ⟨holds_nil, rfl, rfl, .inl ⟨rfl, rfl, rfl⟩⟩

/-- The average fits its thirty-two bits. -/
theorem toNat_average {weight : UInt8} {reading : UInt16} {last : UInt32}
    (hweight : weight.toNat ≤ 100) (hlast : last.toNat ≤ 100 * 65535) :
    (weight.toUInt32 * reading.toUInt32 + (100 - weight.toUInt32) * last / 100).toNat =
      smooth weight.toNat (some last.toNat) reading.toNat := by
  have hreading := reading.toNat_lt
  have hsub : (100 - weight.toUInt32).toNat = 100 - weight.toNat :=
    UInt32.toNat_sub_of_le 100 weight.toUInt32
      (UInt32.le_iff_toNat_le.mpr (by rw [UInt8.toNat_toUInt32]; exact hweight))
  have hnew : weight.toNat * reading.toNat ≤ 100 * 65535 :=
    Nat.mul_le_mul hweight (by omega)
  have hold : (100 - weight.toNat) * last.toNat ≤ 100 * (100 * 65535) :=
    Nat.mul_le_mul (Nat.sub_le _ _) hlast
  have h100 : (100 : UInt32).toNat = 100 := rfl
  rw [smooth, UInt32.toNat_add, UInt32.toNat_mul, UInt32.toNat_div, UInt32.toNat_mul, hsub,
    UInt8.toNat_toUInt32, UInt16.toNat_toUInt32, h100,
    Nat.mod_eq_of_lt (a := weight.toNat * reading.toNat) (by omega),
    Nat.mod_eq_of_lt (a := (100 - weight.toNat) * last.toNat) (by omega)]
  exact Nat.mod_eq_of_lt (by omega)

theorem filterReading_eq {median : MedianFilter} {reading medianReading : UInt16}
    (h : medianFiltering e.turns e.fresh b.medianFilterWindow b.median reading =
      some (median, medianReading)) :
    filterReading e b reading = some
      ({ b with
          median
          instantaneous := medianReading
          lastEma := b.currentEma
          currentEma := (exponentialAverage { b with lastEma := b.currentEma } medianReading).1
          t := (exponentialAverage { b with lastEma := b.currentEma } medianReading).2 },
        medianReading) := by
  rw [filterReading, h]
  rfl

section

variable (h : Averaged e window weight vs b)
include h

/-- A reading goes through the two filters. -/
theorem averaged_filterReading (hw : 1 ≤ window.toNat) (hweight : weight.toNat ≤ 100)
    (hturns : 256 ≤ e.turns) (hfits : window.toNat ≤ 255 ∨ vs.length < 255) (v : UInt16) :
    ∃ b' median, filterReading e b v = some (b', median) ∧ b'.vrefRaw = b.vrefRaw ∧
      Averaged e window weight (vs ++ [v]) b' := by
  obtain ⟨median, medianReading, hfilter, hmedian, hholds⟩ :=
    medianFiltering_eq hw h.holds hfits hturns v
  rw [← h.sameWindow] at hfilter
  refine ⟨_, medianReading, filterReading_eq hfilter, rfl, ?_⟩
  have hnext : averageFrom window weight.toNat [] none (vs ++ [v]) =
      averageFrom window weight.toNat ([] ++ vs) (averageFrom window weight.toNat [] none vs) [v] :=
    averageFrom_append
  rw [nil_append, averageFrom, averageFrom, medianOf, hmedian, map_some] at hnext
  have hreading := medianReading.toNat_lt
  refine ⟨hholds, h.sameWindow, h.sameWeight, .inr ?_⟩
  obtain ⟨rfl, ht, -⟩ | ⟨ht, haverage, -, hbound⟩ := h.average
  · have hema : (medianReading.toUInt32 * 100).toNat = medianReading.toNat * 100 := by
      rw [UInt32.toNat_mul, UInt16.toNat_toUInt32]
      have h100 : (100 : UInt32).toNat = 100 := rfl
      rw [h100]
      exact Nat.mod_eq_of_lt (by omega)
    have heq : exponentialAverage { b with lastEma := b.currentEma } medianReading =
        (medianReading.toUInt32 * 100, 2) := by
      rw [exponentialAverage, if_pos ht, ht]
      rfl
    rw [heq]
    refine ⟨rfl, ?_, hmedian, ?_⟩
    · rw [hnext, averageFrom, smooth, hema]
    · change (medianReading.toUInt32 * 100).toNat ≤ _
      omega
  · have heq : exponentialAverage { b with lastEma := b.currentEma } medianReading =
        (weight.toUInt32 * medianReading.toUInt32 +
          (100 - weight.toUInt32) * b.currentEma / 100, 2) := by
      rw [exponentialAverage, if_neg (by rw [ht]; decide), h.sameWeight, ht]
    rw [heq]
    refine ⟨rfl, ?_, hmedian, ?_⟩
    · rw [hnext, haverage, ← toNat_average hweight hbound]
    · rw [toNat_average hweight hbound]
      have hema : ∀ last ∈ some b.currentEma.toNat, 100 * 0 ≤ last ∧ last ≤ 100 * 65535 := by
        rintro last ⟨⟩
        exact ⟨Nat.zero_le _, hbound⟩
      exact (smooth_between hweight hema (Nat.zero_le _) (by omega)).2

/-- A result gives the filters a reading or none. -/
theorem averaged_adcStep {result : AdcResult} (hw : 1 ≤ window.toNat) (hweight : weight.toNat ≤ 100)
    (hturns : 256 ≤ e.turns)
    (hfits : window.toNat ≤ 255 ∨
      (vs ++ voltages e.vrefConstant b.vrefRaw (result :: results)).length ≤ 255) :
    ∃ b' now, adcStep e b result = some b' ∧ Averaged e window weight (vs ++ now) b' ∧
      ∀ results, voltages e.vrefConstant b.vrefRaw (result :: results) =
        now ++ voltages e.vrefConstant b'.vrefRaw results := by
  obtain ⟨adcSource, reading, batteryLevelTestOn⟩ := result
  cases adcSource with
  | pmuVbatSns =>
    by_cases hvref : b.vrefRaw ≠ 0
    · have hcfm : Averaged e window weight vs { b with cfmSent := true } :=
        ⟨h.holds, h.sameWindow, h.sameWeight, h.average⟩
      have hfits' : window.toNat ≤ 255 ∨ vs.length < 255 := by
        refine hfits.imp_right fun hle => ?_
        rw [voltages] at hle
        simp only [hvref, ne_eq, not_false_eq_true, if_true, length_append,
          length_cons] at hle
        omega
      obtain ⟨b', median, hfilter, hraw, hb'⟩ := averaged_filterReading hcfm hw hweight hturns
        hfits' (vbattMv e.vrefConstant b.vrefRaw reading)
      refine ⟨b', _, ?_, hb', fun results => ?_⟩
      · simp [adcStep, adcResultHandler, hvref, hfilter]
      · rw [voltages, hraw]
        simp [hvref]
    · refine ⟨{ b with cfmSent := true }, [], ?_, ?_, fun results => ?_⟩
      · simp [adcStep, adcResultHandler, hvref]
      · rw [append_nil]
        exact ⟨h.holds, h.sameWindow, h.sameWeight, h.average⟩
      · rw [voltages]
        simp [hvref]
  | vrefHqBuff =>
    refine ⟨{ b with vrefRaw := reading }, [], rfl, ?_, fun results => rfl⟩
    rw [append_nil]
    exact ⟨h.holds, h.sameWindow, h.sameWeight, h.average⟩
  | other =>
    refine ⟨b, [], rfl, ?_, fun results => rfl⟩
    rw [append_nil]
    exact h

/-- **The run rule of the filters.** -/
theorem averaged_run (hw : 1 ≤ window.toNat) (hweight : weight.toNat ≤ 100) (hturns : 256 ≤ e.turns)
    (hfits : window.toNat ≤ 255 ∨ (vs ++ voltages e.vrefConstant b.vrefRaw results).length ≤ 255) :
    ∃ b', run (adcStep e) b results = some b' ∧
      Averaged e window weight (vs ++ voltages e.vrefConstant b.vrefRaw results) b' := by
  induction results generalizing vs b with
  | nil =>
    rw [voltages, append_nil]
    exact ⟨b, rfl, h⟩
  | cons result results ih =>
    obtain ⟨b₁, now, hstep, h1, hnow⟩ := averaged_adcStep h hw hweight hturns hfits
    rw [hnow, ← append_assoc] at hfits ⊢
    obtain ⟨b', hrun, h'⟩ := ih h1 hfits
    exact ⟨b', run_cons.mpr ⟨b₁, hstep, hrun⟩, h'⟩

theorem Averaged.average_eq (hvs : vs ≠ []) :
    averageFrom window weight.toNat [] none vs = some b.currentEma.toNat :=
  (h.average.resolve_left fun hnil => hvs hnil.1).2.1

end

/-- What the run leaves is right. -/
theorem filterRight_of_averaged (hweight : weight.toNat ≤ 100) (hvs : vs ≠ [])
    (h : Averaged e window weight vs b) : FilterRight window vs b := by
  obtain ⟨-, haverage, hmedian, hbound⟩ := h.average.resolve_left fun hnil => hvs hnil.1
  have hbetween : ∀ lo hi : UInt16,
      (∀ pre median, pre <+: vs → medianOf window pre = some median →
        lo ≤ median ∧ median ≤ hi) →
      100 * lo.toNat ≤ b.currentEma.toNat ∧ b.currentEma.toNat ≤ 100 * hi.toNat := by
    intro lo hi hbounds
    have hbounds' : ∀ pre median, pre <+: [] ++ vs → medianOf window pre = some median →
        lo.toNat ≤ median.toNat ∧ median.toNat ≤ hi.toNat := fun pre median hpre hm =>
      (hbounds pre median hpre hm).imp UInt16.le_iff_toNat_le.mp UInt16.le_iff_toNat_le.mp
    have hnone : ∀ last ∈ (none : Option ℕ), 100 * lo.toNat ≤ last ∧ last ≤ 100 * hi.toNat :=
      fun last hlast => absurd hlast (not_mem_none last)
    exact averageFrom_between hweight hbounds' hnone _ haverage
  refine ⟨hmedian, hbetween, fun v hv => ?_, ?_⟩
  · have hmedians : ∀ pre median, pre <+: vs → medianOf window pre = some median →
        v ≤ median ∧ median ≤ v := by
      intro pre median hpre hm
      have hmem : median ∈ vs :=
        hpre.subset (drop_subset _ _ (mem_of_orderStatistic hm))
      rw [hv median hmem]
      exact ⟨le_rfl, le_rfl⟩
    obtain ⟨hlo, hhi⟩ := hbetween v v hmedians
    exact Nat.le_antisymm hhi hlo
  · have h100 : (100 : UInt32).toNat = 100 := rfl
    rw [getVoltageAverage, UInt32.toNat_toUInt16, UInt32.toNat_div, h100]
    exact Nat.mod_eq_of_lt (by omega)

/-- **A pointwise greater sequence never has the smaller average.** -/
theorem average_mono (hweight : weight.toNat ≤ 100) (hle : List.Forall₂ (· ≤ ·) vs ws)
    (h : Averaged e window weight vs b) (h' : Averaged e window weight ws b') :
    b.currentEma ≤ b'.currentEma ∧ getVoltageAverage b ≤ getVoltageAverage b' := by
  by_cases hvs : vs = []
  · subst hvs
    cases hle
    have hzero : ∀ {c : BatteryTaskData}, Averaged e window weight [] c → c.currentEma = 0 := by
      intro c hc
      obtain ⟨-, -, hema⟩ | ⟨-, haverage, -⟩ := hc.average
      · exact hema
      · cases haverage
    rw [getVoltageAverage, getVoltageAverage, hzero h, hzero h']
    exact ⟨UInt32.le_refl _, UInt16.le_refl _⟩
  · have hws : ws ≠ [] := by
      rintro rfl
      cases hle
      exact hvs rfl
    have hema : b.currentEma.toNat ≤ b'.currentEma.toNat := by
      have hrel : Option.Rel (· ≤ ·) (averageFrom window weight.toNat [] none vs)
          (averageFrom window weight.toNat [] none ws) := averageFrom_mono hle .nil .none
      rw [h.average_eq hvs, h'.average_eq hws] at hrel
      cases hrel with
      | some hle => exact hle
    refine ⟨UInt32.le_iff_toNat_le.mpr hema, UInt16.le_iff_toNat_le.mpr ?_⟩
    rw [(filterRight_of_averaged hweight hvs h).rounded,
      (filterRight_of_averaged hweight hws h').rounded]
    exact Nat.div_le_div_right hema

/-- **The filter is right after every results, and the average is monotone.** -/
theorem filtered_right (e : AdcEnvironment) (period window : UInt16) (weight : UInt8)
    (results : List AdcResult) (hturns : 256 ≤ e.turns) (hweight : weight ≤ 100)
    (hwindow : 1 ≤ window)
    (hfits : window ≤ 255 ∨ (voltages e.vrefConstant 0 results).length ≤ 255) :
    ∃ b, run (adcStep e) (batteryInit period window weight) results = some b ∧
      (voltages e.vrefConstant 0 results ≠ [] →
        FilterRight window (voltages e.vrefConstant 0 results) b) ∧
      ∀ greater b', run (adcStep e) (batteryInit period window weight) greater = some b' →
        List.Forall₂ (· ≤ ·) (voltages e.vrefConstant 0 results)
          (voltages e.vrefConstant 0 greater) →
        b.currentEma ≤ b'.currentEma ∧ getVoltageAverage b ≤ getVoltageAverage b' := by
  have hw : 1 ≤ window.toNat := UInt16.le_iff_toNat_le.mp hwindow
  have hweight : weight.toNat ≤ 100 := UInt8.le_iff_toNat_le.mp hweight
  have hfits : window.toNat ≤ 255 ∨ (voltages e.vrefConstant 0 results).length ≤ 255 :=
    hfits.imp_left UInt16.le_iff_toNat_le.mp
  have hinit := averaged_batteryInit e period window weight
  obtain ⟨b, hrun, hb⟩ := averaged_run hinit hw hweight hturns hfits
  refine ⟨b, hrun, fun hvs => filterRight_of_averaged hweight hvs hb,
    fun greater b' hrun' hle => ?_⟩
  rw [hle.length_eq] at hfits
  obtain ⟨c, hrun'', hc⟩ := averaged_run hinit hw hweight hturns hfits
  obtain rfl : b' = c := Option.some.inj (hrun'.symm.trans hrun'')
  exact average_mono hweight hle hb hc

/-- **With a window of 256 readings or more a run does not survive the 256th.** -/
theorem run_full (h : Averaged e window weight vs b) (hw : 256 ≤ window.toNat)
    (hweight : weight.toNat ≤ 100) (hturns : 256 ≤ e.turns) (hvs : vs.length ≤ 255)
    (hfull : 256 ≤ (vs ++ voltages e.vrefConstant b.vrefRaw results).length) :
    run (adcStep e) b results = none := by
  induction results generalizing vs b with
  | nil =>
    rw [voltages, append_nil] at hfull
    omega
  | cons result results ih =>
    by_cases hfirst : (vs ++ voltages e.vrefConstant b.vrefRaw [result]).length ≤ 255
    · obtain ⟨b₁, now, hstep, h1, hnow⟩ :=
        averaged_adcStep h (by omega) hweight hturns (.inr hfirst)
      rw [hnow, voltages, append_nil] at hfirst
      rw [hnow, ← append_assoc] at hfull
      rw [run, hstep, bind_some]
      exact ih h1 hfirst hfull
    · have hnone : adcStep e b result = none := by
        obtain ⟨adcSource, reading, batteryLevelTestOn⟩ := result
        cases adcSource with
        | pmuVbatSns =>
          by_cases hvref : b.vrefRaw ≠ 0
          · have hlen : vs.length = 255 := by
              rw [voltages] at hfirst
              simp only [hvref, ne_eq, not_false_eq_true, if_true, length_append, voltages,
                length_singleton] at hfirst
              omega
            have hfilter (reading : UInt16) :
                medianFiltering e.turns e.fresh window b.median reading = none :=
              medianFiltering_full h.holds hw hlen
            simp [adcStep, adcResultHandler, hvref, filterReading, h.sameWindow, hfilter]
          · rw [voltages] at hfirst
            simp only [hvref, if_false, voltages, append_nil] at hfirst
            exact absurd hvs hfirst
        | vrefHqBuff | other =>
          change ¬ (vs ++ []).length ≤ 255 at hfirst
          rw [append_nil] at hfirst
          exact absurd hvs hfirst
      rw [run, hnone, bind_none]

/-- The converter of a battery at 3600 mV. -/
def adc (turns : ℕ) : AdcEnvironment where
  vrefConstant := 1800
  fresh := fun _ => 0
  turns := turns

/-- The reference, and four readings: a window of three is filled, and one goes out again. -/
def fourReadings : List AdcResult :=
  ⟨.vrefHqBuff, 1000, false⟩ :: [2000, 2100, 1900, 2050].map fun reading =>
    ⟨.pmuVbatSns, reading, false⟩

theorem filtered_right_fourReadings :
    ∃ b, run (adcStep (adc 256)) (batteryInit 1000 3 50) fourReadings = some b ∧
      FilterRight 3 (voltages 1800 0 fourReadings) b ∧
      ∀ greater b', run (adcStep (adc 256)) (batteryInit 1000 3 50) greater = some b' →
        List.Forall₂ (· ≤ ·) (voltages 1800 0 fourReadings) (voltages 1800 0 greater) →
        b.currentEma ≤ b'.currentEma ∧ getVoltageAverage b ≤ getVoltageAverage b' := by
  obtain ⟨b, hb, hright, hmono⟩ := filtered_right (adc 256) 1000 3 50 fourReadings (by decide)
    (by decide) (by decide) (.inl (by decide))
  exact ⟨b, hb, hright (by decide), hmono⟩

/-- **A window of no readings is written outside of, and with one of 256 readings the sort of
the 256th reading does not end.** -/
theorem not_filtered_right :
    (¬ ∃ turns b, 256 ≤ turns ∧ run (adcStep (adc turns)) (batteryInit 1000 0 50)
      [⟨.vrefHqBuff, 1000, false⟩, ⟨.pmuVbatSns, 2000, false⟩] = some b) ∧
    ¬ ∃ turns b, 256 ≤ turns ∧ run (adcStep (adc turns)) (batteryInit 1000 256 50)
      (⟨.vrefHqBuff, 1000, false⟩ :: List.replicate 256 ⟨.pmuVbatSns, 2000, false⟩) =
        some b := by
  constructor
  · rintro ⟨turns, b, -, hrun⟩
    cases hrun
  · rintro ⟨turns, b, hturns, hrun⟩
    have hfull : 256 ≤ ([] ++ voltages 1800 0
        (⟨.vrefHqBuff, 1000, false⟩ :: List.replicate 256 ⟨.pmuVbatSns, 2000, false⟩)).length := by
      decide +kernel
    rw [run_full (averaged_batteryInit (adc turns) 1000 256 50) (by decide) (by decide) hturns
      (by decide) hfull] at hrun
    cases hrun

end Mh40.BatteryMonitor
