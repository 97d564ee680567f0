import Mh40.RulesEngine.Machine

/-!
# Rules of a common event run one after the other

A pass takes the events of a rule in progress out of its local copy when it visits that rule, so no
later rule of one of these events matches any more. A rule that stands before it has been visited
already: when it deferred, and a later rule of the same event was run, the next pass runs it while
the later rule is still in progress (`deferred_rule_overtakes`).

* `StartsAlone` is the condition on one visit: the rules in progress that share an event with the
  rule it runs stand before that rule, with all their events set.
* **`overlapping_rules_serialised`**: in a run of such visits no two rules of a common event are in
  progress together. The filter of the pass does the work: `Serial.behind` says that the rules
  already passed have lost their events in the copy.
-/

namespace Mh40.RulesEngine

open Lib

variable {n : ℕ} {rules : Fin n → RuleEntry} {e e' : Engine n}

/-- The visit runs the rule `i`: it will be in progress. -/
def Starts (rules : Fin n → RuleEntry) (e : Engine n) (o : RuleOutcome) (i : Fin n) : Prop :=
  Evaluates rules e i ∧ Ordinary rules i ∧ (o.action = .run ∨ o.action = .runWithParam)

instance (e : Engine n) (o : RuleOutcome) (i : Fin n) : Decidable (Starts rules e o i) := by
  unfold Starts
  infer_instance

/-- When the visit runs a rule, the rules in progress that share an event with it stand before it
and have all their events set. -/
def StartsAlone (rules : Fin n → RuleEntry) (e : Engine n) : Label → Prop
  | .visit o => ∀ i, Starts rules e o i → ∀ j, j ≠ i → e.ruleSet.rulesState j = .inProgress →
      Overlaps rules j (rules i).events → j < i ∧ Within rules j e.ruleSet.events
  | _ => True

instance (e : Engine n) : ∀ l, Decidable (StartsAlone rules e l)
  | .visit o => by
    unfold StartsAlone
    infer_instance
  | .setEvent _ => .isTrue trivial
  | .resetEvent _ => .isTrue trivial
  | .setRuleWithEventComplete _ _ => .isTrue trivial

/-- No two rules with a common event are in progress. -/
def Serialised (rules : Fin n → RuleEntry) (st : Fin n → RuleStatus) : Prop :=
  ∀ i j, i ≠ j → st i = .inProgress → st j = .inProgress → ¬ Overlaps rules i (rules j).events

instance (st : Fin n → RuleStatus) : Decidable (Serialised rules st) := by
  unfold Serialised
  infer_instance

theorem overlaps_symm {i j : Fin n} (h : Overlaps rules i (rules j).events) :
    Overlaps rules j (rules i).events := by
  obtain ⟨b, hi, hj⟩ := h
  exact ⟨b, hj, hi⟩

/-- What holds after every step. The rules in progress still to be visited keep their set events in
the local copy; the visited ones whose events are all set have none left in it. -/
structure Serial (rules : Fin n → RuleEntry) (e : Engine n) : Prop where
  serialised : Serialised rules e.ruleSet.rulesState
  ahead : ∀ j : Fin n, e.next ≤ j → e.ruleSet.rulesState j = .inProgress →
    ∀ b, Has (rules j).events b → Has e.ruleSet.events b → Has e.pass.events b
  behind : ∀ j : Fin n, j < e.next → e.ruleSet.rulesState j = .inProgress →
    Within rules j e.ruleSet.events → ∀ b, Has (rules j).events b → ¬ Has e.pass.events b

theorem serial_create : Serial rules create where
  serialised _ _ _ h := by cases h
  ahead _ _ h := by cases h
  behind _ _ h := by cases h

/-! ## The steps -/

theorem Serialised.of_shrinks {rs rs' : RuleSet n} (h : Serialised rules rs.rulesState)
    (hs : Shrinks rs rs') : Serialised rules rs'.rulesState :=
  fun i j hij hi hj => h i j hij (hs.inProgress i hi) (hs.inProgress j hj)

theorem serial_check {rs : RuleSet n} {sent : List Output} (h : Serialised rules rs.rulesState) :
    Serial rules (check rs sent) where
  serialised := h
  ahead _ _ _ _ _ hb := hb
  behind _ hj := absurd hj (Nat.not_lt_zero _)

/-- One visit that starts no rule: the rule set shrinks, the copy keeps what it had but for rules in
progress, and the visited rule is filtered if it is in progress. -/
theorem serial_of_shrinks (hs : Serial rules e) (hn : e.next < n) (hnext : e'.next = e.next + 1)
    (hsh : Shrinks e.ruleSet e'.ruleSet) (hle : ∀ b, Has e'.pass.events b → Has e.pass.events b)
    (hkeep : ∀ j : Fin n, e.next < j → e'.ruleSet.rulesState j = .inProgress →
      ∀ b, Has (rules j).events b → Has e.pass.events b → Has e'.pass.events b)
    (hself : e'.ruleSet.rulesState ⟨e.next, hn⟩ = .inProgress →
      Within rules ⟨e.next, hn⟩ e'.ruleSet.events →
      ∀ b, Has (rules ⟨e.next, hn⟩).events b → ¬ Has e'.pass.events b) : Serial rules e' where
  serialised := hs.serialised.of_shrinks hsh
  ahead j hj hp b hb hev :=
    hkeep j (by omega) hp b hb
      (hs.ahead j (by omega) (hsh.inProgress j hp) b hb (hsh.events b hev))
  behind j hj hp hw b hb hl := by
    by_cases hji : j = ⟨e.next, hn⟩
    · subst hji
      exact hself hp hw b hb hl
    · have hlt : j < e.next := by
        have : j.val ≠ e.next := fun h => hji (Fin.ext h)
        omega
      exact hs.behind j hlt (hsh.inProgress j hp) (hw.mono hsh.events) b hb (hle b hl)

/-- Running a rule of the copy, next to no rule in progress ahead of it. -/
theorem serial_of_ran (hs : Serial rules e) (hn : e.next < n) (hnext : e'.next = e.next + 1)
    (hin : Within rules ⟨e.next, hn⟩ e.pass.events)
    (halone : ∀ j : Fin n, j ≠ ⟨e.next, hn⟩ → e.ruleSet.rulesState j = .inProgress →
      Overlaps rules j (rules ⟨e.next, hn⟩).events →
        j < ⟨e.next, hn⟩ ∧ Within rules j e.ruleSet.events)
    (hev : e'.ruleSet.events = e.ruleSet.events)
    (hst : e'.ruleSet.rulesState = Function.update e.ruleSet.rulesState ⟨e.next, hn⟩ .inProgress)
    (hl : e'.pass.events = e.pass.events &&& ~~~(rules ⟨e.next, hn⟩).events) :
    Serial rules e' := by
  generalize hi : (⟨e.next, hn⟩ : Fin n) = i at *
  have hin' : i.val = e.next := by rw [← hi]
  -- a rule in progress that shares an event with `i` has been visited, and its events are gone
  have hfree : ∀ j, j ≠ i → e.ruleSet.rulesState j = .inProgress →
      ¬ Overlaps rules j (rules i).events := by
    intro j hj hp ho
    obtain ⟨hlt, hw⟩ := halone j hj hp ho
    obtain ⟨b, hbj, hbi⟩ := ho
    exact hs.behind j (hin' ▸ hlt) hp hw b hbj (hin b hbi)
  have hold : ∀ j, j ≠ i → e'.ruleSet.rulesState j = .inProgress →
      e.ruleSet.rulesState j = .inProgress := by
    intro j hj hp
    rwa [hst, Function.update_of_ne hj] at hp
  constructor
  · intro j k hjk hj hk
    by_cases hji : j = i
    · subst hji
      exact fun ho => hfree k hjk.symm (hold k hjk.symm hk) (overlaps_symm ho)
    · by_cases hki : k = i
      · subst hki
        exact hfree j hji (hold j hji hj)
      · exact hs.serialised j k hjk (hold j hji hj) (hold k hki hk)
  · intro j hj hp b hb hbe
    have hji : j ≠ i := fun h => by
      subst h
      omega
    rw [hev] at hbe
    rw [hl, has_diff]
    exact ⟨hs.ahead j (by omega) (hold j hji hp) b hb hbe,
      fun hbi => hfree j hji (hold j hji hp) ⟨b, hb, hbi⟩⟩
  · intro j hj hp hw b hb hbl
    rw [hl, has_diff] at hbl
    by_cases hji : j = i
    · subst hji
      exact hbl.2 hb
    · have hlt : j < e.next := by
        have : j.val ≠ i.val := fun h => hji (Fin.ext h)
        omega
      exact hs.behind j hlt (hold j hji hp) (hev ▸ hw) b hb hbl.1

theorem serial_visit {o : RuleOutcome} (hs : Serial rules e) (ha : StartsAlone rules e (.visit o))
    (h : step rules e (.visit o) = some e') :
    Serial rules e' := by
  obtain ⟨hn, hv, hnext⟩ := step_visit h
  cases hv with
  | skipped he hw hp =>
    have hsame : e'.ruleSet = e.ruleSet := congrArg Pass.ruleSet hp
    refine serial_of_shrinks hs hn hnext (hsame ▸ ⟨fun _ => id, fun _ => id⟩)
      (fun b hb => hp ▸ hb) (fun j _ _ b _ hb => hp ▸ hb) fun hprog hwin b hb hl => ?_
    -- a rule in progress whose events are all set is not skipped: the copy still has its events
    rw [hsame] at hprog hwin
    refine hw (.inl (within_iff.mpr fun c hc => ?_)) hprog
    exact hs.ahead _ le_rfl hprog c hc (hwin c hc)
  | waiting hm hst hp =>
    have hsame : e'.ruleSet = e.ruleSet := by rw [Engine.ruleSet, hp]
    have hl : e'.pass.events = e.pass.events &&& ~~~(rules ⟨e.next, hn⟩).events := by rw [hp]
    refine serial_of_shrinks hs hn hnext (hsame ▸ ⟨fun _ => id, fun _ => id⟩) ?_ ?_ ?_
    · intro b hb
      rw [hl] at hb
      exact (has_diff.mp hb).1
    · intro j hj hprog b hb hbl
      rw [hl, has_diff]
      refine ⟨hbl, fun hbi => ?_⟩
      have hji : j ≠ ⟨e.next, hn⟩ := fun h => by
        subst h
        exact lt_irrefl _ hj
      exact hs.serialised j _ hji (hsame ▸ hprog) hst ⟨b, hb, hbi⟩
    · intro _ _ b hb hbl
      rw [hl, has_diff] at hbl
      exact hbl.2 hb
  | always he ho hev hst hl =>
    refine serial_of_shrinks hs hn hnext ⟨fun b hb => hev ▸ hb, fun i hi => hst ▸ hi⟩
      (fun b hb => hl ▸ hb) (fun j _ _ b _ hb => hl ▸ hb) fun hprog => ?_
    exact absurd (hst ▸ hprog) he.2.2
  | ran he ho hact hev hst hl =>
    exact serial_of_ran hs hn hnext (within_iff.mp (he.1.resolve_right ho))
      (ha _ ⟨⟨rfl, he⟩, ho, hact⟩) hev hst hl
  | finished he ho hact rs rs' did hrs hu hp hl =>
    have hsh : Shrinks e.ruleSet e'.ruleSet := by
      obtain ⟨h1, h2⟩ := updateRuleStatus_shrinks hu
      rw [Engine.ruleSet, Engine.ruleSet, hp]
      exact ⟨fun b hb => hrs.1 ▸ h1 b hb, fun i hi => hrs.2 ▸ h2 i hi⟩
    refine serial_of_shrinks hs hn hnext hsh
      (fun b hb => hl ▸ hb) (fun j _ _ b _ hb => hl ▸ hb) fun hprog => ?_
    exact absurd (hsh.inProgress _ hprog) he.2.2
  | deferred he ho hact hev hst hl =>
    have hsh : Shrinks e.ruleSet e'.ruleSet := by
      refine ⟨fun b hb => hev ▸ hb, fun i hi => ?_⟩
      rw [Engine.ruleSet, hst] at hi
      by_cases hin : i = ⟨e.next, hn⟩
      · rw [hin, Function.update_self] at hi
        cases hi
      · rwa [Function.update_of_ne hin] at hi
    refine serial_of_shrinks hs hn hnext hsh
      (fun b hb => hl ▸ hb) (fun j _ _ b _ hb => hl ▸ hb) fun hprog => ?_
    exact absurd (hsh.inProgress _ hprog) he.2.2

theorem serial_step (e : Engine n) (l : Label) (e' : Engine n) (hs : Serial rules e)
    (ha : StartsAlone rules e l) (h : step rules e l = some e') : Serial rules e' := by
  cases l with
  | setEvent eventMask =>
    obtain ⟨-, rfl⟩ := step_setEvent h
    exact serial_check hs.serialised
  | resetEvent event =>
    obtain ⟨hn, rfl⟩ := step_resetEvent h
    have hsh : Shrinks e.ruleSet (resetEvent rules e.ruleSet event) := resetEvent_shrinks _ _
    exact ⟨hs.serialised.of_shrinks hsh, fun j hj => absurd hj (by simp [hn]), fun j hj hp hw =>
      hs.behind j hj (hsh.inProgress j hp) (hw.mono hsh.events)⟩
  | setRuleWithEventComplete message event =>
    obtain ⟨-, rs, did, sent, hu, rfl⟩ := step_setRuleWithEventComplete h
    exact serial_check (hs.serialised.of_shrinks (updateRuleStatus_shrinks hu))
  | visit o => exact serial_visit hs ha h

/-! ## The runs -/

/-- **Rules of a common event are never in progress together**, in a run whose visits all start
their rule alone; and when a rule is started, no rule that shares an event with it is in
progress. -/
theorem overlapping_rules_serialised {ls : List Label} {e : Engine n}
    (hm : Meets (step rules) (StartsAlone rules) create ls)
    (hr : run (step rules) create ls = some e) :
    (∀ i j, i ≠ j → e.ruleSet.rulesState i = .inProgress → e.ruleSet.rulesState j = .inProgress →
      ¬ Overlaps rules i (rules j).events) ∧
      ∀ o, StartsAlone rules e (.visit o) → ∀ i, Starts rules e o i →
        ∀ j, j ≠ i → e.ruleSet.rulesState j = .inProgress →
          ¬ Overlaps rules j (rules i).events := by
  have hs : Serial rules e := invariant_of_meets serial_step serial_create hm hr
  refine ⟨hs.serialised, fun o ha i hi j hj hp ho => ?_⟩
  obtain ⟨hlt, hw⟩ := ha i hi j hj hp ho
  have hin := within_iff.mp (hi.1.2.1.resolve_right hi.2.1)
  obtain ⟨b, hbj, hbi⟩ := ho
  exact hs.behind j (hi.1.1 ▸ hlt) hp hw b hbj (hin b hbi)

/-- The first rule defers and the second runs; the event is set again and the first runs too. -/
def deferThenRun : List Label :=
  [.setEvent 0x1, .visit ⟨.defer, none⟩, .visit ⟨.run, none⟩, .setEvent 0x1,
    .visit ⟨.run, none⟩]

/-- Both rules of the event are in progress. -/
theorem deferred_rule_overtakes :
    ∃ e, run (step twoRules) create deferThenRun = some e ∧ ∃ i j, i ≠ j ∧
      Ordinary twoRules i ∧ Ordinary twoRules j ∧ e.ruleSet.rulesState i = .inProgress ∧
      e.ruleSet.rulesState j = .inProgress ∧ Overlaps twoRules i (twoRules j).events :=
  ⟨_, rfl, 0, 1, by decide, by decide, by decide, by decide, by decide, by decide⟩

/-- The first rule runs, and the event set again does not run the second. -/
def runThenSet : List Label :=
  [.setEvent 0x1, .visit ⟨.run, none⟩, .visit ⟨.run, none⟩, .setEvent 0x1,
    .visit ⟨.run, none⟩, .visit ⟨.run, none⟩]

theorem overlapping_rules_serialised_two :
    ∃ e, run (step twoRules) create runThenSet = some e ∧ e.ruleSet.rulesState 0 = .inProgress ∧
      ¬ (e.ruleSet.rulesState 1 = .inProgress) :=
  ⟨_, rfl, by decide, fun h =>
    (@overlapping_rules_serialised 2 twoRules runThenSet _ (by decide) rfl).1 0 1 (by decide)
      (by decide) h (by decide)⟩

end Mh40.RulesEngine
