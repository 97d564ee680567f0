import Mh40.Lib.Mask
import Mh40.RulesEngine.Engine

/-!
# What completing rules does

`RulesEngine_ResetEvent` and `RulesEngine_UpdateRuleStatus`, each by one lemma that says what it
does to every event and to the status of every rule: `resetEvent_events`, `resetEvent_rulesState`
and **`updateRuleStatus_spec`**. The proofs about the engine use these and not the loops.
-/

namespace Mh40.RulesEngine

open Lib List

variable {n : ℕ} {rules : Fin n → RuleEntry} {sel : Selector} {i : Fin n} {new : RuleStatus}
  {m : Marking n}

/-- The masks of the rule and of the argument have a common event. -/
def Overlaps (rules : Fin n → RuleEntry) (i : Fin n) (event : RuleEvents) : Prop :=
  ∃ b, Has (rules i).events b ∧ Has event b

theorem overlaps_iff {event : RuleEvents} :
    (rules i).events &&& event ≠ 0 ↔ Overlaps rules i event := and_ne_zero_iff

instance (i : Fin n) (event : RuleEvents) : Decidable (Overlaps rules i event) :=
  decidable_of_iff _ overlaps_iff

/-- All events of the rule are in the mask. -/
def Within (rules : Fin n → RuleEntry) (i : Fin n) (events : RuleEvents) : Prop :=
  ∀ b, Has (rules i).events b → Has events b

theorem within_iff {events : RuleEvents} :
    (rules i).events &&& events = (rules i).events ↔ Within rules i events := and_eq_left_iff

instance (i : Fin n) (events : RuleEvents) : Decidable (Within rules i events) :=
  decidable_of_iff _ within_iff

theorem Within.mono {x y : RuleEvents} (h : Within rules i x) (hxy : ∀ b, Has x b → Has y b) :
    Within rules i y := fun b hb => hxy b (h b hb)

/-- The rule is not an always-evaluate rule. -/
abbrev Ordinary (rules : Fin n → RuleEntry) (i : Fin n) : Prop :=
  (rules i).flags ≠ .alwaysEvaluate

/-! ## `RulesEngine_ResetEvent` -/

theorem resetEvent_events (rs : RuleSet n) (event : RuleEvents) :
    (resetEvent rules rs event).events = rs.events &&& ~~~event := rfl

/-- Resetting events resets every ordinary rule of one of them. -/
theorem resetEvent_rulesState (rs : RuleSet n) (event : RuleEvents) (i : Fin n) :
    (resetEvent rules rs event).rulesState i =
      if Overlaps rules i event ∧ Ordinary rules i then .notDone else rs.rulesState i := by
  have h := congrFun (foldl_update (fun i s => if (rules i).events &&& event ≠ 0 ∧
    Ordinary rules i then RuleStatus.notDone else s) rs.rulesState) i
  simp only [overlaps_iff] at h
  rw [← h]
  simp only [resetEvent, overlaps_iff]

theorem resetEvent_zero (rs : RuleSet n) : resetEvent rules rs 0 = rs := by
  have hst : (resetEvent rules rs 0).rulesState = rs.rulesState := by
    funext i
    rw [resetEvent_rulesState, if_neg]
    rintro ⟨⟨b, -, hb⟩, -⟩
    exact has_zero hb
  cases rs
  exact congrArg₂ (RuleSet.mk · · _) diff_zero hst

/-! ## The loops of `RulesEngine_UpdateRuleStatus` -/

theorem setRuleStatus_eq_some {rulesState st : Fin n → RuleStatus} :
    setRuleStatus rules rulesState i new = some st ↔
      Ordinary rules i ∧ st = Function.update rulesState i new := by
  unfold setRuleStatus
  split
  · rename_i h
    simp [h]
  · rename_i h
    simp [h, eq_comm]

/-- What the first loop has done after the rules of `l`. -/
structure Marked (rules : Fin n → RuleEntry) (sel : Selector) (new : RuleStatus) (l : List (Fin n))
    (m m' : Marking n) : Prop where
  ordinary : ∀ i ∈ l, sel.Selects rules m.rulesState i → Ordinary rules i
  state : ∀ i, m'.rulesState i =
    if i ∈ l ∧ sel.Selects rules m.rulesState i then new else m.rulesState i
  mask : ∀ b, Has m'.eventMask b ↔
    Has m.eventMask b ∨ ∃ i ∈ l, sel.Selects rules m.rulesState i ∧ Has (rules i).events b
  did : m'.didSetStatus = true ↔
    m.didSetStatus = true ∨ ∃ i ∈ l, sel.Selects rules m.rulesState i

/-- A rule's own status is all of the state that its selection reads. -/
theorem selects_congr {st st' : Fin n → RuleStatus} (h : st i = st' i) :
    sel.Selects rules st i ↔ sel.Selects rules st' i := by
  unfold Selector.Selects
  rw [h]

theorem marked_of_foldlM :
    ∀ {l : List (Fin n)} {m m' : Marking n}, l.Nodup →
      l.foldlM (markRule rules sel new) m = some m' → Marked rules sel new l m m'
  | [], m, m', _, h => by
    cases h
    constructor <;> simp
  | j :: l, m, m', hnd, h => by
    rw [nodup_cons] at hnd
    rw [foldlM_cons] at h
    obtain ⟨m₁, h1, h2⟩ := Option.bind_eq_some_iff.mp h
    have ih := marked_of_foldlM hnd.2 h2
    unfold markRule at h1
    split at h1
    · rename_i hj
      obtain ⟨st, hst, rfl⟩ := Option.map_eq_some_iff.mp h1
      obtain ⟨hord, rfl⟩ := setRuleStatus_eq_some.mp hst
      -- the loop visits `j` once, so the rest of it selects as in the state it started from
      have hsel : ∀ i ∈ l, sel.Selects rules (Function.update m.rulesState j new) i ↔
          sel.Selects rules m.rulesState i := fun i hi =>
        selects_congr (Function.update_of_ne (fun e : i = j => hnd.1 (e ▸ hi)) _ _)
      constructor
      · intro i hi hs
        rcases mem_cons.mp hi with rfl | hi
        · exact hord
        · exact ih.ordinary i hi ((hsel i hi).mpr hs)
      · intro i
        rw [ih.state i]
        by_cases hij : i = j
        · subst hij
          simp [hnd.1, hj]
        · have : i ∈ l → (sel.Selects rules (Function.update m.rulesState j new) i ↔
            sel.Selects rules m.rulesState i) := hsel i
          by_cases hi : i ∈ l <;> simp [hi, hij, hsel]
      · intro b
        rw [ih.mask b]
        simp only [has_or, mem_cons, exists_eq_or_imp, hj, true_and, or_assoc]
        exact or_congr_right (or_congr_right (exists_congr fun i =>
          and_congr_right fun hi => by rw [hsel i hi]))
      · rw [ih.did]
        simp [hj]
    · rename_i hj
      cases h1
      constructor
      · intro i hi hs
        rcases mem_cons.mp hi with rfl | hi
        · exact absurd hs hj
        · exact ih.ordinary i hi hs
      · intro i
        rw [ih.state i]
        by_cases hij : i = j
        · subst hij
          simp [hnd.1, hj]
        · simp [hij]
      · intro b
        rw [ih.mask b]
        simp [hj]
      · rw [ih.did]
        simp [hj]

theorem markRules_spec {st : Fin n → RuleStatus} (h : markRules rules sel new st = some m) :
    (∀ i, sel.Selects rules st i → Ordinary rules i) ∧
      (∀ i, m.rulesState i = if sel.Selects rules st i then new else st i) ∧
      (∀ b, Has m.eventMask b ↔ ∃ i, sel.Selects rules st i ∧ Has (rules i).events b) ∧
      (m.didSetStatus = true ↔ ∃ i, sel.Selects rules st i) := by
  have := marked_of_foldlM (nodup_finRange n) h
  refine ⟨fun i => this.ordinary i (mem_finRange i), fun i => ?_, fun b => ?_, ?_⟩
  · simpa using this.state i
  · simpa using this.mask b
  · simpa using this.did

theorem has_completedEvents {event : RuleEvents} {b : ℕ} :
    Has (completedEvents rules event m) b ↔ Has m.eventMask b ∧
      ∀ i, Overlaps rules i event → m.rulesState i ≠ .complete → ¬ Has (rules i).events b := by
  unfold completedEvents
  rw [has_foldl_diff (fun i => (rules i).events &&& event ≠ 0 ∧ m.rulesState i ≠ .complete)
    fun i => (rules i).events]
  simp only [mem_finRange, true_implies, overlaps_iff, and_imp]

/-! ## `RulesEngine_UpdateRuleStatus` -/

/-- The event `b` is in the mask that completing the selected rules hands to
`RulesEngine_ResetEvent`: a selected rule has it, and every other rule that has it and matches the
event argument was complete before. -/
def Clears (rules : Fin n → RuleEntry) (sel : Selector) (st : Fin n → RuleStatus) (b : ℕ) : Prop :=
  (∃ i, sel.Selects rules st i ∧ Has (rules i).events b) ∧
    ∀ i, Overlaps rules i sel.event → st i ≠ .complete → ¬ sel.Selects rules st i →
      ¬ Has (rules i).events b

instance (sel : Selector) (st : Fin n → RuleStatus) (b : ℕ) : Decidable (Clears rules sel st b) := by
  unfold Clears
  infer_instance

theorem completedEvents_iff_clears {st : Fin n → RuleStatus}
    (h : markRules rules sel .complete st = some m) (b : ℕ) :
    Has (completedEvents rules sel.event m) b ↔ Clears rules sel st b := by
  obtain ⟨-, hst, hmask, -⟩ := markRules_spec h
  rw [has_completedEvents, hmask]
  unfold Clears
  refine and_congr_right fun _ => forall_congr' fun i => forall_congr' fun _ => ?_
  rw [hst i]
  by_cases hs : sel.Selects rules st i <;> simp [hs]

/-- **What completing rules does**: the events that `Clears` describes are reset, with every
ordinary rule of one of them, and the other selected rules are complete. -/
theorem updateRuleStatus_spec {rs rs' : RuleSet n} {did : Bool}
    (h : updateRuleStatus rules sel .complete rs = some (rs', did)) :
    (∀ i, sel.Selects rules rs.rulesState i → Ordinary rules i) ∧
      ∃ mask : RuleEvents, (∀ b, Has mask b ↔ Clears rules sel rs.rulesState b) ∧
        rs'.events = rs.events &&& ~~~mask ∧
        ∀ i, rs'.rulesState i =
          if Overlaps rules i mask ∧ Ordinary rules i then .notDone
          else if sel.Selects rules rs.rulesState i then .complete else rs.rulesState i := by
  unfold updateRuleStatus at h
  obtain ⟨m, hm, h⟩ := Option.map_eq_some_iff.mp h
  obtain ⟨hord, hst, -, -⟩ := markRules_spec hm
  refine ⟨hord, completedEvents rules sel.event m, completedEvents_iff_clears hm, ?_⟩
  obtain rfl : resetEvent rules { rs with rulesState := m.rulesState }
      (completedEvents rules sel.event m) = rs' := by
    obtain ⟨rfl, -⟩ := Prod.mk.inj h
    by_cases hz : completedEvents rules sel.event m = 0
    · simp only [hz, resetEvent_zero, ne_eq, not_true_eq_false, if_false]
    · simp only [ne_eq, hz, not_false_eq_true, if_true]
  refine ⟨rfl, fun i => ?_⟩
  rw [resetEvent_rulesState]
  exact if_congr Iff.rfl rfl (hst i)

/-! ## Fewer events, fewer rules in progress -/

/-- The events and the rules in progress of `rs'` are among those of `rs`. -/
structure Shrinks (rs rs' : RuleSet n) : Prop where
  events : ∀ b, Has rs'.events b → Has rs.events b
  inProgress : ∀ i, rs'.rulesState i = .inProgress → rs.rulesState i = .inProgress

theorem updateRuleStatus_shrinks {rs rs' : RuleSet n} {did : Bool}
    (h : updateRuleStatus rules sel .complete rs = some (rs', did)) : Shrinks rs rs' := by
  obtain ⟨-, mask, -, hev, hst⟩ := updateRuleStatus_spec h
  refine ⟨fun b hb => ?_, fun i hi => ?_⟩
  · rw [hev] at hb
    exact (has_diff.mp hb).1
  · rw [hst i] at hi
    split at hi
    · cases hi
    · split at hi
      · cases hi
      · exact hi

theorem resetEvent_shrinks (rs : RuleSet n) (event : RuleEvents) :
    Shrinks rs (resetEvent rules rs event) := by
  refine ⟨fun b hb => (has_diff.mp hb).1, fun i hi => ?_⟩
  rw [resetEvent_rulesState] at hi
  split at hi
  · cases hi
  · exact hi

end Mh40.RulesEngine
