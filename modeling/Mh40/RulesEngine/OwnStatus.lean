import Mh40.RulesEngine.Machine

/-!
# A rule completes with others

A rule that returns `rule_action_complete` or `rule_action_ignore` is completed by
`RulesEngine_UpdateRuleStatus`, which is not told the rule but its message, its status and its
events, and completes all rules that have them.

* `CompletesItself`: the rule is completed, and no other is.
* `Single`: it is the only one with its message, its status and one of its events.
* **`completesItself_iff_single`**: over every run, a rule completes itself alone iff it is single.
-/

namespace Mh40.RulesEngine

open Lib

variable {n : ℕ} {rules : Fin n → RuleEntry} {st : Fin n → RuleStatus} {i : Fin n}

/-- The status of the rule `i` is set to complete, and no other; there is no panic. -/
def SetsOwnStatus (rules : Fin n → RuleEntry) (st : Fin n → RuleStatus) (i : Fin n) : Prop :=
  ∃ m, markRules rules (ownSelector rules st i) .complete st = some m ∧
    m.rulesState = Function.update st i .complete

/-- Evaluating a rule that returns complete or ignore sets its own status to complete and that of no
other rule, and only `RulesEngine_CopyRunParams` may panic. No status changes when the rule is
always evaluated. -/
def CompletesItself (rules : Fin n → RuleEntry) (e : Engine n) : Label → Prop
  | .visit o => ∀ i, Evaluates rules e i → (o.action = .complete ∨ o.action = .ignore) →
    (Ordinary rules i → SetsOwnStatus rules e.ruleSet.rulesState i) ∧
    ((copyRunParams e.ruleSet o.param).isSome → ∃ e', step rules e (.visit o) = some e' ∧
      (¬ Ordinary rules i → e'.ruleSet.rulesState = e.ruleSet.rulesState))
  | _ => True

/-- The rule has events, and no other rule with its message and its status has one of them. -/
def Single (rules : Fin n → RuleEntry) (st : Fin n → RuleStatus) (i : Fin n) : Prop :=
  (rules i).events ≠ 0 ∧ ∀ j, j ≠ i → (rules j).message = (rules i).message → st j = st i →
    (rules j).events &&& (rules i).events = 0

instance (st : Fin n → RuleStatus) (i : Fin n) : Decidable (Single rules st i) := by
  unfold Single
  infer_instance

/-- An ordinary rule that the step completes is single. -/
def CompletionSingle (rules : Fin n → RuleEntry) (e : Engine n) : Label → Prop
  | .visit o => ∀ i, Finishes rules e o i → Single rules e.ruleSet.rulesState i
  | _ => True

/-! ## One completion -/

/-- The first loop survives when no rule that it selects is always evaluated. -/
theorem foldlM_markRule {sel : Selector} {new : RuleStatus} : ∀ {l : List (Fin n)} {m : Marking n},
    (∀ j, sel.Selects rules m.rulesState j → Ordinary rules j) →
      ∃ m', l.foldlM (markRule rules sel new) m = some m'
  | [], m, _ => ⟨m, rfl⟩
  | j :: l, m, h => by
    rw [List.foldlM_cons]
    unfold markRule
    by_cases hj : sel.Selects rules m.rulesState j
    · have hset : setRuleStatus rules m.rulesState j new =
          some (Function.update m.rulesState j new) := setRuleStatus_eq_some.mpr ⟨h j hj, rfl⟩
      rw [if_pos hj, hset]
      refine foldlM_markRule fun k hk => ?_
      by_cases hkj : k = j
      · exact hkj ▸ h j hj
      · exact h k ((selects_congr (Function.update_of_ne hkj _ _)).mp hk)
    · rw [if_neg hj]
      exact foldlM_markRule h

/-- A rule selects itself iff it has events. -/
theorem selects_self : (ownSelector rules st i).Selects rules st i ↔ (rules i).events ≠ 0 := by
  unfold Selector.Selects ownSelector
  rw [BitVec.and_self]
  exact ⟨fun h => h.2.2, fun h => ⟨rfl, rfl, h⟩⟩

/-- The rules that are completed with the rule `i`. -/
theorem single_iff : Single rules st i ↔
    ∀ j, (ownSelector rules st i).Selects rules st j ↔ j = i := by
  constructor
  · rintro ⟨hevents, hother⟩ j
    constructor
    · intro hsel
      by_contra hji
      exact hsel.2.2 (hother j hji hsel.1 hsel.2.1)
    · rintro rfl
      exact selects_self.mpr hevents
  · intro h
    refine ⟨selects_self.mp ((h i).mpr rfl), fun j hji hmessage hstatus => ?_⟩
    by_contra hevents
    exact hji ((h j).mp ⟨hmessage, hstatus, hevents⟩)

/-- **A rule that is not complete sets its own status alone iff it is single.** -/
theorem setsOwnStatus_iff_single (hord : Ordinary rules i) (hopen : st i ≠ .complete) :
    SetsOwnStatus rules st i ↔ Single rules st i := by
  rw [single_iff]
  constructor
  · rintro ⟨m, hmark, hst⟩ j
    obtain ⟨-, hstate, -, -⟩ := markRules_spec hmark
    have hj := hstate j
    rw [hst] at hj
    constructor
    · intro hsel
      by_contra hji
      rw [Function.update_of_ne hji, if_pos hsel] at hj
      exact hopen (hsel.2.1.symm.trans hj)
    · rintro rfl
      by_contra hsel
      rw [Function.update_self, if_neg hsel] at hj
      exact hopen hj.symm
  · intro h
    obtain ⟨m, hmark⟩ : ∃ m, markRules rules (ownSelector rules st i) .complete st = some m :=
      foldlM_markRule fun j hj => (h j).mp hj ▸ hord
    refine ⟨m, hmark, funext fun j => ?_⟩
    rw [(markRules_spec hmark).2.1 j]
    by_cases hji : j = i
    · subst hji
      rw [if_pos ((h j).mpr rfl), Function.update_self]
    · rw [if_neg (fun hj => hji ((h j).mp hj)), Function.update_of_ne hji]

/-! ## Runs -/

/-- A rule of an engine that is evaluated is visited. -/
theorem step_evaluates {e : Engine n} {o : RuleOutcome} (hi : Evaluates rules e i)
    (ha : o.action = .complete ∨ o.action = .ignore) :
    step rules e (.visit o) = (copyRunParams e.ruleSet o.param).bind fun ruleSet =>
      (finishRule rules i { e.pass with ruleSet }).map fun pass =>
        { pass, next := e.next + 1 } := by
  obtain ⟨hval, hmatches, hcomplete, hprogress⟩ := hi
  have hn : e.next < n := hval ▸ i.isLt
  obtain rfl : i = ⟨e.next, hn⟩ := Fin.ext hval
  have hvisit : visitRule rules ⟨e.next, hn⟩ o e.pass =
      evaluateRule rules ⟨e.next, hn⟩ o e.pass := by
    unfold visitRule
    rw [if_pos hmatches]
    cases hs : e.pass.ruleSet.rulesState ⟨e.next, hn⟩ <;> first
      | rfl
      | exact absurd hs hcomplete
      | exact absurd hs hprogress
  have hfinish : evaluateRule rules ⟨e.next, hn⟩ o e.pass =
      (copyRunParams e.ruleSet o.param).bind fun ruleSet =>
        finishRule rules ⟨e.next, hn⟩ { e.pass with ruleSet } := by
    unfold evaluateRule
    rcases ha with ha | ha <;> rw [ha]
  unfold step
  dsimp only
  rw [dif_pos hn, hvisit, hfinish, Option.map_bind]
  rfl

/-- **One step completes the rule alone iff the rule is single.** -/
theorem completesItself_iff_step (e : Engine n) (l : Label) :
    CompletesItself rules e l ↔ CompletionSingle rules e l := by
  cases l with
  | setEvent | resetEvent | setRuleWithEventComplete => exact Iff.rfl
  | visit o =>
    constructor
    · rintro h i ⟨hi, hord, ha⟩
      exact (setsOwnStatus_iff_single hord hi.2.2.1).mp ((h i hi ha).1 hord)
    · intro h i hi ha
      have hown : Ordinary rules i → SetsOwnStatus rules e.ruleSet.rulesState i := fun hord =>
        (setsOwnStatus_iff_single hord hi.2.2.1).mpr (h i ⟨hi, hord, ha⟩)
      refine ⟨hown, fun hcopy => ?_⟩
      obtain ⟨rs, hrs⟩ := Option.isSome_iff_exists.mp hcopy
      have hstates := (copyRunParams_frame hrs).2
      rw [step_evaluates hi ha, hrs, Option.bind_some]
      unfold finishRule
      by_cases hord : Ordinary rules i
      · obtain ⟨m, hmark, -⟩ := hown hord
        rw [if_neg hord]
        dsimp only
        unfold updateRuleStatus
        rw [hstates]
        rw [ownSelector] at hmark
        rw [hmark]
        exact ⟨_, rfl, fun hno => absurd hord hno⟩
      · rw [if_pos (not_not.mp hord)]
        exact ⟨_, rfl, fun _ => hstates⟩

/-- **Over every run, a rule completes itself alone iff it is single** when it is evaluated. -/
theorem completesItself_iff_single (rules : Fin n → RuleEntry) (ls : List Label) :
    Meets (step rules) (CompletesItself rules) create ls ↔
      Meets (step rules) (CompletionSingle rules) create ls := by
  have hiff : CompletesItself rules = CompletionSingle rules :=
    funext fun e => funext fun l => propext (completesItself_iff_step e l)
  rw [hiff]

/-- Two rules with one message and one event. -/
def oneMessage : Fin 2 → RuleEntry := fun _ => ⟨0x1, .noFlags, 1⟩

/-- An always-evaluate rule does not return `rule_action_defer`. -/
def NeverDefers (rules : Fin n → RuleEntry) (e : Engine n) : Label → Prop
  | .visit o => ∀ i, Evaluates rules e i → ¬ Ordinary rules i → o.action ≠ .defer
  | _ => True

/-- **A rule does not complete itself alone**: the second rule is completed with the first one. -/
theorem not_completesItself_two : ¬ ∀ (n : ℕ) (rules : Fin n → RuleEntry) (ls : List Label),
    Meets (step rules) (NeverDefers rules) create ls →
      Meets (step rules) (CompletesItself rules) create ls := by
  intro h
  have hmeets := h 2 oneMessage [.setEvent 0x1, .visit ⟨.complete, none⟩]
    ⟨trivial, fun i _ hno => absurd (fun h => nomatch h) hno, by
      split
      · trivial
      · trivial⟩
  have hvisit := (hmeets.tail rfl).1
  obtain ⟨m, hmark, hst⟩ := (hvisit 0 (by decide) (.inl rfl)).1 (by decide)
  have hother := congrFun hst 1
  obtain ⟨-, hstate, -, -⟩ := markRules_spec hmark
  rw [hstate 1] at hother
  revert hother
  decide

end Mh40.RulesEngine
