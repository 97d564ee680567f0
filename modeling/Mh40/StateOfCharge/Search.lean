import Mh40.Lib.OrderStatistic

/-!
# The two searches of the state of charge table

* `stateOfChargeUpdate`: the search from the previous index, forwards or backwards.
* `getIndex`: the scan of `Soc_ConvertLevelToPercentage` from the start, with an eight bit index.
* `IsLevel`: the index that a voltage has in the table; `isLevel_iff`: it is one less than the
  number of the entries that do not exceed the voltage.
* **`stateOfChargeUpdate_eq`**: the first search finds the level from every previous index, and
  **`getIndex_iff`** says when the second one does.
-/

namespace Mh40.StateOfCharge

open List Option

/-! ## Model -/

/-- `soc_lookup_t`. -/
structure SocLookup where
  voltage : UInt16
  percentage : UInt8
  deriving DecidableEq

/-- The configuration table, and the voltages that the battery configuration clamps to. -/
structure SocConfig where
  socConfigTable : List SocLookup
  batteryVoltageCritical : UInt16
  batteryFullyCharged : UInt16
  deriving DecidableEq

def SocConfig.clamp (c : SocConfig) (batteryVoltage : UInt16) : UInt16 :=
  if batteryVoltage < c.batteryVoltageCritical then c.batteryVoltageCritical
  else if c.batteryFullyCharged < batteryVoltage then c.batteryFullyCharged
  else batteryVoltage

def socMinIndex : ℕ := 0

/-- The search through higher voltages: `rest` are the entries from `index` on. -/
def searchForwards (batteryVoltage : UInt16) (size : ℕ) : List SocLookup → ℕ → UInt16 → ℕ
  | [], _, _ => size - 1
  | entry :: rest, index, this_mv =>
    if batteryVoltage < entry.voltage ∧ this_mv ≤ batteryVoltage then index - 1
    else searchForwards batteryVoltage size rest (index + 1) entry.voltage

/-- The search through lower voltages: `none` is a read outside of the table. -/
def searchBackwards (table : List SocLookup) (batteryVoltage : UInt16) : ℕ → UInt16 → Option ℕ
  | 0, _ => some socMinIndex
  | index + 1, this_mv =>
    table[index]?.bind fun entry =>
      if batteryVoltage < this_mv ∧ entry.voltage ≤ batteryVoltage then some index
      else searchBackwards table batteryVoltage index entry.voltage

/-- `soc_StateOfChargeUpdate`: the new `config_index`, from the previous one. -/
def stateOfChargeUpdate (c : SocConfig) (configIndex : UInt8) (batteryVoltage : UInt16) :
    Option UInt8 :=
  let voltage := c.clamp batteryVoltage
  let prevIndex := configIndex.toNat
  c.socConfigTable[prevIndex]?.bind fun prev =>
    if prev.voltage ≤ voltage then
      some (UInt8.ofNat (searchForwards voltage c.socConfigTable.length
        (c.socConfigTable.drop (prevIndex + 1)) (prevIndex + 1) prev.voltage))
    else
      (searchBackwards c.socConfigTable voltage prevIndex prev.voltage).map UInt8.ofNat

/-- The loop of `soc_getIndex`: `none` when `turns` turns do not end it. The index has eight
bits, and is compared with a size of thirty-two. -/
def getIndexLoop (table : List SocLookup) (batteryVoltage : UInt16) :
    ℕ → UInt8 → UInt16 → Option UInt8
  | 0, _, _ => none
  | turns + 1, i, this_mv =>
    if i.toNat < table.length then
      table[i.toNat]?.bind fun entry =>
        if batteryVoltage < entry.voltage ∧ this_mv ≤ batteryVoltage then some (i - 1)
        else getIndexLoop table batteryVoltage turns (i + 1) entry.voltage
    else some (UInt8.ofNat (table.length - 1))

/-- `soc_getIndex`. -/
def getIndex (table : List SocLookup) (turns : ℕ) (batteryVoltage : UInt16) : Option UInt8 :=
  table[socMinIndex]?.bind fun entry =>
    getIndexLoop table batteryVoltage turns 1 entry.voltage

/-- `Soc_ConvertLevelToPercentage`. -/
def convertLevelToPercentage (c : SocConfig) (turns : ℕ) (batteryLevel : UInt16) :
    Option UInt8 :=
  (getIndex c.socConfigTable turns (c.clamp batteryLevel)).bind fun index =>
    c.socConfigTable[index.toNat]?.map SocLookup.percentage

/-! ## Levels -/

variable {table rest : List SocLookup} {entry : SocLookup} {v this_mv : UInt16}
  {i j index turns : ℕ}

/-- The voltages increase strictly. -/
def Ascending (table : List SocLookup) : Prop :=
  table.Pairwise fun entry next => entry.voltage < next.voltage

instance : Decidable (Ascending table) :=
  inferInstanceAs (Decidable (table.Pairwise _))

/-- The greatest index whose voltage does not exceed `v`, or the minimum index if there is
none. -/
def IsLevel (table : List SocLookup) (v : UInt16) (i : ℕ) : Prop :=
  (∃ entry, table[i]? = some entry ∧ entry.voltage ≤ v ∧
    ∀ (j : ℕ) next, i < j → table[j]? = some next → v < next.voltage) ∨
  i = socMinIndex ∧ ∀ entry ∈ table, v < entry.voltage

/-- The number of the entries that do not exceed a voltage. -/
def reached (table : List SocLookup) (v : UInt16) : ℕ :=
  table.countP fun entry => entry.voltage ≤ v

theorem reached_le : reached table v ≤ table.length :=
  countP_le_length

section

variable (h : Ascending table)
include h

/-- In an ascending table the entries that do not exceed a voltage come first. -/
theorem voltage_le_iff (hj : table[j]? = some entry) :
    entry.voltage ≤ v ↔ j < reached table v := by
  have hprefix : table.Pairwise fun entry next =>
      decide (next.voltage ≤ v) = true → decide (entry.voltage ≤ v) = true := by
    refine h.imp fun {entry next} hlt hnext => ?_
    exact decide_eq_true (UInt16.le_trans (UInt16.le_of_lt hlt) (of_decide_eq_true hnext))
  rw [reached, ← Lib.satisfies_iff_lt_countP hprefix hj, decide_eq_true_eq]

theorem lt_voltage_iff (hj : table[j]? = some entry) :
    v < entry.voltage ↔ reached table v ≤ j := by
  rw [← UInt16.not_le, voltage_le_iff h hj, Nat.not_lt]

theorem isLevel_iff : IsLevel table v i ↔ i = reached table v - 1 := by
  constructor
  · rintro (⟨entry, hi, hle, hnext⟩ | ⟨rfl, hall⟩)
    · have hlt := (voltage_le_iff h hi).mp hle
      have hge : reached table v ≤ i + 1 := by
        cases hj : table[i + 1]? with
        | none => exact Nat.le_trans reached_le (List.getElem?_eq_none_iff.mp hj)
        | some next => exact (lt_voltage_iff h hj).mp (hnext (i + 1) next (Nat.lt_succ_self i) hj)
      omega
    · have hzero : reached table v = 0 := by
        refine countP_eq_zero.mpr fun e he => ?_
        rw [decide_eq_true_eq, UInt16.not_le]
        exact hall e he
      rw [hzero, socMinIndex]
  · rintro rfl
    by_cases hzero : reached table v = 0
    · refine .inr ⟨by rw [hzero, socMinIndex], fun entry he => ?_⟩
      obtain ⟨j, hj⟩ := getElem?_of_mem he
      rw [lt_voltage_iff h hj, hzero]
      exact Nat.zero_le j
    · have hlt : reached table v - 1 < table.length := by
        have : reached table v ≤ table.length := reached_le
        omega
      have hi := getElem?_eq_getElem hlt
      refine .inl ⟨_, hi, (voltage_le_iff h hi).mpr (by omega), fun j next hij hj => ?_⟩
      rw [lt_voltage_iff h hj]
      omega

/-! ## The search from the previous index -/

theorem searchForwards_eq (hrest : table.drop index = rest) (hindex : 1 ≤ index)
    (hin : index ≤ table.length) (hreached : index ≤ reached table v) (hprev : this_mv ≤ v) :
    searchForwards v table.length rest index this_mv = reached table v - 1 := by
  induction rest generalizing index this_mv with
  | nil =>
    have hlen := drop_eq_nil_iff.mp hrest
    have : reached table v ≤ table.length := reached_le
    rw [searchForwards]
    omega
  | cons entry rest ih =>
    have hentry : table[index]? = some entry := by
      rw [← head?_drop, hrest, head?_cons]
    have hlt := (List.getElem?_eq_some_iff.mp hentry).1
    rw [searchForwards]
    by_cases hv : v < entry.voltage
    · rw [if_pos ⟨hv, hprev⟩]
      have := (lt_voltage_iff h hentry).mp hv
      omega
    · rw [if_neg fun hstop => hv hstop.1]
      have hle := UInt16.not_lt.mp hv
      refine ih ?_ (by omega) (by omega) ((voltage_le_iff h hentry).mp hle) hle
      rw [← tail_drop, hrest, tail_cons]

theorem searchBackwards_eq (hentry : table[index]? = some entry) (hv : v < entry.voltage) :
    searchBackwards table v index entry.voltage = some (reached table v - 1) := by
  induction index generalizing entry with
  | zero =>
    have := (lt_voltage_iff h hentry).mp hv
    rw [searchBackwards, socMinIndex, Nat.le_zero.mp this]
  | succ index ih =>
    have hlt : index < table.length := by
      have := (List.getElem?_eq_some_iff.mp hentry).1
      omega
    have hprev := getElem?_eq_getElem hlt
    rw [searchBackwards, hprev, bind_some]
    by_cases hle : table[index].voltage ≤ v
    · rw [if_pos ⟨hv, hle⟩]
      have hlo := (voltage_le_iff h hprev).mp hle
      have hhi := (lt_voltage_iff h hentry).mp hv
      congr 1
      omega
    · rw [if_neg fun hstop => hle hstop.2]
      exact ih hprev (UInt16.not_le.mp hle)

end

/-- **The search finds the level from every previous index**, in the eight bits that it is
stored in. -/
theorem stateOfChargeUpdate_eq {c : SocConfig} (h : Ascending c.socConfigTable)
    {configIndex : UInt8} (hin : configIndex.toNat < c.socConfigTable.length) :
    stateOfChargeUpdate c configIndex v =
      some (UInt8.ofNat (reached c.socConfigTable (c.clamp v) - 1)) := by
  have hprev := getElem?_eq_getElem hin
  rw [stateOfChargeUpdate, hprev, bind_some]
  split_ifs with hle
  · rw [searchForwards_eq h rfl (by omega) (by omega)
      (by have := (voltage_le_iff h hprev).mp hle; omega) hle]
  · rw [searchBackwards_eq h hprev (UInt16.not_le.mp hle), map_some]

/-! ## The scan from the start -/

/-- The voltage of the entry before has been reached exactly when its index is. -/
def Follows (table : List SocLookup) (v : UInt16) (i : UInt8) (this_mv : UInt16) : Prop :=
  this_mv ≤ v ↔ (i - 1).toNat < reached table v

theorem Follows.next (h : Ascending table) {i : UInt8} (hi : table[i.toNat]? = some entry) :
    Follows table v (i + 1) entry.voltage := by
  rw [Follows, UInt8.add_sub_cancel]
  exact voltage_le_iff h hi

/-- One turn of the scan. -/
theorem getIndexLoop_succ (h : Ascending table) {i : UInt8} (hi : Follows table v i this_mv)
    (hlt : i.toNat < table.length) :
    getIndexLoop table v (turns + 1) i this_mv =
      if reached table v ≤ i.toNat ∧ (i - 1).toNat < reached table v then some (i - 1)
      else getIndexLoop table v turns (i + 1) table[i.toNat].voltage := by
  have hentry := getElem?_eq_getElem hlt
  rw [getIndexLoop, if_pos hlt, hentry, bind_some]
  exact if_congr (and_congr (lt_voltage_iff h hentry) hi) rfl rfl

theorem getIndexLoop_end {i : UInt8} (hge : table.length ≤ i.toNat) :
    getIndexLoop table v (turns + 1) i this_mv = some (UInt8.ofNat (table.length - 1)) := by
  rw [getIndexLoop, if_neg (Nat.not_lt.mpr hge)]

theorem toNat_sub_one {i : UInt8} (hi : 1 ≤ i.toNat) : (i - 1).toNat = i.toNat - 1 := by
  rw [UInt8.toNat_sub_of_le i 1 (UInt8.le_iff_toNat_le.mpr hi)]
  rfl

/-- The scan stops below the first entry that exceeds the voltage. -/
theorem stops_iff {i : UInt8} :
    reached table v ≤ i.toNat ∧ (i - 1).toNat < reached table v ↔
      1 ≤ i.toNat ∧ reached table v = i.toNat := by
  by_cases hi : 1 ≤ i.toNat
  · rw [toNat_sub_one hi]
    omega
  · have hzero : i = 0 := UInt8.toNat_inj.mp (Nat.lt_one_iff.mp (Nat.not_le.mp hi))
    subst hzero
    have h255 : ((0 : UInt8) - 1).toNat = 255 := rfl
    have h0 : (0 : UInt8).toNat = 0 := rfl
    omega

/-- What the scan returns: the level of a voltage in the table, or else the last index. -/
theorem getIndexLoop_cases (h : Ascending table) {i r : UInt8} (hne : 0 < table.length)
    (hi : Follows table v i this_mv) (hpast : reached table v = 0 ∨ i.toNat ≤ reached table v)
    (hr : getIndexLoop table v turns i this_mv = some r) :
    (1 ≤ reached table v ∧ reached table v ≤ 255 ∧ r.toNat = reached table v - 1) ∨
      table.length ≤ 255 ∧ r.toNat = table.length - 1 ∧
        (reached table v = 0 ∨ reached table v = table.length) := by
  induction turns generalizing i this_mv with
  | zero => cases hr
  | succ turns ih =>
    have h255 := i.toNat_lt
    by_cases hlt : i.toNat < table.length
    · rw [getIndexLoop_succ h hi hlt] at hr
      split_ifs at hr with hstop
      · obtain ⟨h1, heq⟩ := stops_iff.mp hstop
        cases hr
        rw [toNat_sub_one h1]
        omega
      · refine ih (Follows.next h (getElem?_eq_getElem hlt)) ?_ hr
        rw [stops_iff] at hstop
        rw [UInt8.toNat_add]
        have h1 : (1 : UInt8).toNat = 1 := rfl
        omega
    · rw [getIndexLoop_end (Nat.not_lt.mp hlt)] at hr
      cases hr
      have hle : reached table v ≤ table.length := reached_le
      rw [UInt8.toNat_ofNat_of_lt' (by simp only [UInt8.size]; omega)]
      omega

/-- The scan ends at an index that its eight bits hold. -/
theorem getIndexLoop_ends (h : Ascending table) {bound : ℕ} {i : UInt8}
    (hbound : bound ≤ 255) (hstop : bound = table.length ∨ bound = reached table v)
    (hi : Follows table v i this_mv) (h1 : 1 ≤ i.toNat) (hle : i.toNat ≤ bound) :
    ∃ turns r, getIndexLoop table v turns i this_mv = some r := by
  induction hd : bound - i.toNat generalizing i this_mv with
  | zero =>
    refine ⟨1, ?_⟩
    by_cases hlt : i.toNat < table.length
    · rw [getIndexLoop_succ h hi hlt, if_pos (stops_iff.mpr (by omega))]
      exact ⟨_, rfl⟩
    · exact ⟨_, getIndexLoop_end (Nat.not_lt.mp hlt)⟩
  | succ d ih =>
    by_cases hlt : i.toNat < table.length
    · have hnext : (i + 1).toNat = i.toNat + 1 := by
        rw [UInt8.toNat_add]
        have : (1 : UInt8).toNat = 1 := rfl
        omega
      obtain ⟨turns, r, hr⟩ := ih (Follows.next h (getElem?_eq_getElem hlt)) (by omega)
        (by omega) (by omega)
      refine ⟨turns + 1, ?_⟩
      rw [getIndexLoop_succ h hi hlt]
      split_ifs
      · exact ⟨_, rfl⟩
      · exact ⟨r, hr⟩
    · exact ⟨1, _, getIndexLoop_end (Nat.not_lt.mp hlt)⟩

/-- The voltage is not below the table, unless it has one entry only, and is below the entry
of the index that eight bits cannot count past. -/
def Scannable (table : List SocLookup) (v : UInt16) : Prop :=
  ∃ first ∈ table[socMinIndex]?, (first.voltage ≤ v ∨ table.length = 1) ∧
    ∀ entry ∈ table[255]?, v < entry.voltage

theorem scannable_iff (h : Ascending table) :
    Scannable table v ↔ 0 < table.length ∧ (0 < reached table v ∨ table.length = 1) ∧
      (table.length ≤ 255 ∨ reached table v ≤ 255) := by
  have hlast : (∀ entry ∈ table[255]?, v < entry.voltage) ↔
      table.length ≤ 255 ∨ reached table v ≤ 255 := by
    cases hentry : table[255]? with
    | none =>
      refine iff_of_true (fun entry he => ?_) (.inl (List.getElem?_eq_none_iff.mp hentry))
      cases he
    | some entry =>
      have hlt := (List.getElem?_eq_some_iff.mp hentry).1
      rw [or_iff_right (Nat.not_le.mpr hlt), ← lt_voltage_iff h hentry]
      exact ⟨fun hall => hall entry rfl, fun hv _ he => some.inj he ▸ hv⟩
  constructor
  · rintro ⟨first, hfirst, hv, hend⟩
    refine ⟨(List.getElem?_eq_some_iff.mp hfirst).1, ?_, hlast.mp hend⟩
    rwa [voltage_le_iff h hfirst] at hv
  · rintro ⟨hne, hv, hend⟩
    have hfirst := getElem?_eq_getElem hne
    refine ⟨_, hfirst, ?_, hlast.mpr hend⟩
    rwa [voltage_le_iff h hfirst]

/-- **The scan returns the level exactly of the scannable voltages.** -/
theorem getIndex_iff (h : Ascending table) :
    (∃ turns r, getIndex table turns v = some r ∧ r.toNat = reached table v - 1) ↔
      Scannable table v := by
  rw [scannable_iff h]
  have hle : reached table v ≤ table.length := reached_le
  constructor
  · rintro ⟨turns, r, hr, hlevel⟩
    obtain ⟨first, hfirst, hr⟩ := bind_eq_some_iff.mp hr
    have hne := (List.getElem?_eq_some_iff.mp hfirst).1
    have hfollows : Follows table v 1 first.voltage := voltage_le_iff h hfirst
    have h1 : (1 : UInt8).toNat = 1 := rfl
    have := getIndexLoop_cases h (Nat.zero_lt_of_lt hne) hfollows (by omega) hr
    omega
  · rintro ⟨hne, hv, hend⟩
    have hfirst := getElem?_eq_getElem hne
    have hfollows : Follows table v 1 table[0].voltage := voltage_le_iff h hfirst
    have h1 : (1 : UInt8).toNat = 1 := rfl
    have hbound : ∃ bound ≤ 255, 1 ≤ bound ∧
        (bound = table.length ∨ bound = reached table v) := by
      by_cases hlen : table.length ≤ 255
      · exact ⟨table.length, hlen, hne, .inl rfl⟩
      · exact ⟨reached table v, by omega, by omega, .inr rfl⟩
    obtain ⟨bound, hbound, hpos, hstop⟩ := hbound
    obtain ⟨turns, r, hr⟩ := getIndexLoop_ends h hbound hstop hfollows (by omega) (by omega)
    refine ⟨turns, r, by rw [getIndex, socMinIndex, hfirst, bind_some, hr], ?_⟩
    have := getIndexLoop_cases h hne hfollows (by omega) hr
    omega

end Mh40.StateOfCharge
