import Mh40.RulesEngine.Machine

/-!
# Rules run only while their events are active

A rule is meant to be called only while all its events are set. `RulesEngine_RunRules` decides that
on the local copy of the events it took when the pass began, and a rule that completes during the
pass clears events of the rule set and not of the copy. A later rule of a cleared event is then
called although the event is gone (`stale_copy_evaluates`).

* `CopyKept` is the condition on one visit under which the copy does no harm: no event that the
  visit clears belongs to a later rule that still matches the copy.
* **`evaluated_while_active`**: in a run of such visits every rule called, and every rule in
  progress, has all its events set; a cleared event stays without calls until it is set again.
-/

namespace Mh40.RulesEngine

open Lib

variable {n : ℕ} {rules : Fin n → RuleEntry}

/-- When the visit completes a rule, no event that this clears belongs to a later rule whose events
are all in the local copy. -/
def CopyKept (rules : Fin n → RuleEntry) (e : Engine n) : Label → Prop
  | .visit o => ∀ i, Finishes rules e o i → ∀ j, i < j → Ordinary rules j →
      Within rules j e.pass.events → ∀ b, Has (rules j).events b →
        ¬ Clears rules (ownSelector rules e.ruleSet.rulesState i) e.ruleSet.rulesState b
  | _ => True

instance (e : Engine n) : ∀ l, Decidable (CopyKept rules e l)
  | .visit o => by
    unfold CopyKept
    infer_instance
  | .setEvent _ => .isTrue trivial
  | .resetEvent _ => .isTrue trivial
  | .setRuleWithEventComplete _ _ => .isTrue trivial

/-- What holds after every step: the copy is right about the rules still to be visited, and a rule
in progress has all its events set. -/
structure Fresh (rules : Fin n → RuleEntry) (e : Engine n) : Prop where
  copy : ∀ j : Fin n, e.next ≤ j → Ordinary rules j → Within rules j e.pass.events →
    Within rules j e.ruleSet.events
  active : ∀ j, e.ruleSet.rulesState j = .inProgress →
    Ordinary rules j ∧ Within rules j e.ruleSet.events

theorem fresh_create : Fresh rules create where
  copy j hj := absurd hj (by simp [create])
  active _ h := by cases h

/-! ## The steps -/

/-- A rule that is in progress after a completion was before, and the cleared events are not its. -/
theorem active_of_update {sel : Selector} {rs rs' : RuleSet n} {did : Bool}
    (ha : ∀ j, rs.rulesState j = .inProgress → Ordinary rules j ∧ Within rules j rs.events)
    (hu : updateRuleStatus rules sel .complete rs = some (rs', did)) :
    ∀ j, rs'.rulesState j = .inProgress → Ordinary rules j ∧ Within rules j rs'.events := by
  obtain ⟨-, mask, -, hev, hst⟩ := updateRuleStatus_spec hu
  intro j hj
  rw [hst j] at hj
  split at hj
  · cases hj
  · rename_i hno
    split at hj
    · cases hj
    · obtain ⟨hord, hin⟩ := ha j hj
      refine ⟨hord, fun b hb => ?_⟩
      rw [hev, has_diff]
      exact ⟨hin b hb, fun hm => hno ⟨⟨b, hb, hm⟩, hord⟩⟩

theorem active_of_reset {rs : RuleSet n} {event : RuleEvents}
    (ha : ∀ j, rs.rulesState j = .inProgress → Ordinary rules j ∧ Within rules j rs.events) :
    ∀ j, (resetEvent rules rs event).rulesState j = .inProgress →
      Ordinary rules j ∧ Within rules j (resetEvent rules rs event).events := by
  intro j hj
  rw [resetEvent_rulesState] at hj
  split at hj
  · cases hj
  · rename_i hno
    obtain ⟨hord, hin⟩ := ha j hj
    refine ⟨hord, fun b hb => ?_⟩
    rw [resetEvent_events, has_diff]
    exact ⟨hin b hb, fun hm => hno ⟨⟨b, hb, hm⟩, hord⟩⟩

/-- A pass starts with an exact copy. -/
theorem fresh_check {rs : RuleSet n} {sent : List Output}
    (ha : ∀ j, rs.rulesState j = .inProgress → Ordinary rules j ∧ Within rules j rs.events) :
    Fresh rules (check rs sent) where
  copy _ _ _ h := h
  active := ha

theorem fresh_visit {e e' : Engine n} {o : RuleOutcome} (hf : Fresh rules e)
    (hk : CopyKept rules e (.visit o)) (h : step rules e (.visit o) = some e') : Fresh rules e' := by
  obtain ⟨hn, hv, hnext⟩ := step_visit h
  have hle : ∀ j : Fin n, e'.next ≤ j → e.next ≤ j := fun j hj => by omega
  have hfilter : ∀ {j i : Fin n}, Within rules j (e.pass.events &&& ~~~(rules i).events) →
      Within rules j e.pass.events := fun hw => hw.mono fun b hb => (has_diff.mp hb).1
  cases hv with
  | skipped _ _ hp =>
    constructor
    · intro j hj ho hw
      rw [hp] at hw
      rw [Engine.ruleSet, hp]
      exact hf.copy j (hle j hj) ho hw
    · rw [Engine.ruleSet, hp]
      exact hf.active
  | waiting _ _ hp =>
    constructor
    · intro j hj ho hw
      rw [hp] at hw
      rw [Engine.ruleSet, hp]
      exact hf.copy j (hle j hj) ho (hfilter hw)
    · rw [Engine.ruleSet, hp]
      exact hf.active
  | always _ _ hev hst hl =>
    constructor
    · intro j hj ho hw
      rw [hl] at hw
      rw [Engine.ruleSet, hev]
      exact hf.copy j (hle j hj) ho hw
    · rw [Engine.ruleSet, hev, hst]
      exact hf.active
  | ran he ho _ hev hst hl =>
    constructor
    · intro j hj hoj hw
      rw [hl] at hw
      rw [Engine.ruleSet, hev]
      exact hf.copy j (hle j hj) hoj (hfilter hw)
    · intro j hj
      rw [Engine.ruleSet, hst] at hj
      rw [Engine.ruleSet, hev]
      by_cases hji : j = ⟨e.next, hn⟩
      · -- the rule that has just been run is the one the copy was consulted about
        subst hji
        refine ⟨ho, hf.copy _ le_rfl ho ?_⟩
        exact within_iff.mp (he.1.resolve_right ho)
      · rw [Function.update_of_ne hji] at hj
        exact hf.active j hj
  | finished he ho ha rs rs' did hrs hu hp hl =>
    have hact : ∀ j, rs.rulesState j = .inProgress → Ordinary rules j ∧ Within rules j rs.events := by
      rw [hrs.1, hrs.2]
      exact hf.active
    constructor
    · intro j hj hoj hw b hb
      rw [hl] at hw
      obtain ⟨-, mask, hmask, hev, -⟩ := updateRuleStatus_spec hu
      rw [Engine.ruleSet, hp, hev, has_diff, hrs.1]
      refine ⟨hf.copy j (hle j hj) hoj hw b hb, fun hm => ?_⟩
      rw [hmask, hrs.2] at hm
      have hlt : (⟨e.next, hn⟩ : Fin n) < j := by
        change e.next < j.val
        omega
      exact hk _ ⟨⟨rfl, he⟩, ho, ha⟩ j hlt hoj hw b hb hm
    · rw [Engine.ruleSet, hp]
      exact active_of_update hact hu
  | deferred _ _ _ hev hst hl =>
    constructor
    · intro j hj ho hw
      rw [hl] at hw
      rw [Engine.ruleSet, hev]
      exact hf.copy j (hle j hj) ho hw
    · intro j hj
      rw [Engine.ruleSet, hst] at hj
      rw [Engine.ruleSet, hev]
      by_cases hji : j = ⟨e.next, hn⟩
      · rw [hji, Function.update_self] at hj
        cases hj
      · rw [Function.update_of_ne hji] at hj
        exact hf.active j hj

theorem fresh_step (e : Engine n) (l : Label) (e' : Engine n) (hf : Fresh rules e)
    (hk : CopyKept rules e l) (h : step rules e l = some e') : Fresh rules e' := by
  cases l with
  | setEvent eventMask =>
    obtain ⟨-, rfl⟩ := step_setEvent h
    refine fresh_check fun j hj => ?_
    obtain ⟨ho, hw⟩ := hf.active j hj
    exact ⟨ho, hw.mono fun b hb => has_or.mpr (.inl hb)⟩
  | resetEvent event =>
    obtain ⟨hn, rfl⟩ := step_resetEvent h
    exact ⟨fun j hj => absurd hj (by simp [hn]), active_of_reset hf.active⟩
  | setRuleWithEventComplete message event =>
    obtain ⟨-, rs, did, sent, hu, rfl⟩ := step_setRuleWithEventComplete h
    exact fresh_check (active_of_update hf.active hu)
  | visit o => exact fresh_visit hf hk h

/-! ## The runs -/

/-- Only `RulesEngine_SetEvent` sets an event. -/
theorem step_event_of_not_set {e e' : Engine n} {l : Label} {b : ℕ}
    (hl : ∀ eventMask, l = .setEvent eventMask → ¬ Has eventMask b)
    (hb : ¬ Has e.ruleSet.events b) (h : step rules e l = some e') : ¬ Has e'.ruleSet.events b := by
  cases l with
  | setEvent eventMask =>
    obtain ⟨-, rfl⟩ := step_setEvent h
    simpa [check, hb] using hl eventMask rfl
  | resetEvent event =>
    obtain ⟨-, rfl⟩ := step_resetEvent h
    exact fun hc => hb ((resetEvent_shrinks _ event).events b hc)
  | setRuleWithEventComplete message event =>
    obtain ⟨-, rs, did, sent, hu, rfl⟩ := step_setRuleWithEventComplete h
    exact fun hc => hb ((updateRuleStatus_shrinks hu).events b hc)
  | visit o =>
    obtain ⟨_, hv, -⟩ := step_visit h
    unfold Engine.ruleSet
    cases hv with
    | skipped _ _ hp => rwa [hp]
    | waiting _ _ hp => rwa [hp]
    | always _ _ hev | ran _ _ _ hev | deferred _ _ _ hev => rwa [hev]
    | finished _ _ _ rs rs' did hrs hu hp _ =>
      rw [hp]
      exact fun hc => hb (hrs.1 ▸ (updateRuleStatus_shrinks hu).events b hc)

theorem run_event_of_not_set {b : ℕ} :
    ∀ {ls : List Label} {e e' : Engine n},
      (∀ eventMask, .setEvent eventMask ∈ ls → ¬ Has eventMask b) → ¬ Has e.ruleSet.events b →
        run (step rules) e ls = some e' → ¬ Has e'.ruleSet.events b
  | [], _, _, _, hb, hr => by
    cases hr
    exact hb
  | l :: ls, e, e', hl, hb, hr => by
    obtain ⟨t, ht, hr'⟩ := run_cons.mp hr
    have hbt := step_event_of_not_set
      (fun m hm => hl m (hm ▸ List.mem_cons_self)) hb ht
    exact run_event_of_not_set (fun m hm => hl m (List.mem_cons_of_mem _ hm)) hbt hr'

theorem fresh_run {ls : List Label} {e : Engine n}
    (hm : Meets (step rules) (CopyKept rules) create ls)
    (hr : run (step rules) create ls = some e) : Fresh rules e :=
  invariant_of_meets fresh_step fresh_create hm hr

theorem Fresh.evaluated {e : Engine n} (hf : Fresh rules e) {i : Fin n}
    (he : Evaluates rules e i) (ho : Ordinary rules i) : Within rules i e.ruleSet.events :=
  hf.copy i he.1.ge ho (within_iff.mp (he.2.1.resolve_right ho))

/-- **Rules run only while their events are active**, in a run whose completions all leave the
local copy right: the rule called and the rules in progress have all their events set, and after an
event is gone no rule of it is called before it is set again. -/
theorem evaluated_while_active {ls : List Label} {e : Engine n}
    (hm : Meets (step rules) (CopyKept rules) create ls)
    (hr : run (step rules) create ls = some e) :
    (∀ i, Evaluates rules e i → Ordinary rules i → Within rules i e.ruleSet.events) ∧
      (∀ i, e.ruleSet.rulesState i = .inProgress → Within rules i e.ruleSet.events) ∧
      ∀ b, ¬ Has e.ruleSet.events b → ∀ (ms : List Label) (e' : Engine n),
        (∀ eventMask, .setEvent eventMask ∈ ms → ¬ Has eventMask b) →
        Meets (step rules) (CopyKept rules) e ms → run (step rules) e ms = some e' →
        ∀ i, Evaluates rules e' i → Ordinary rules i → ¬ Has (rules i).events b := by
  have hf := fresh_run hm hr
  refine ⟨fun i => hf.evaluated, fun i hi => (hf.active i hi).2, ?_⟩
  intro b hb ms e' hms hm' hr' i he ho hib
  have hf' : Fresh rules e' := invariant_of_meets fresh_step hf hm' hr'
  exact run_event_of_not_set hms hb hr' (hf'.evaluated he ho b hib)

/-- The first rule defers, the second runs and completes, and then the first completes. -/
def deferThenComplete : List Label :=
  [.setEvent 0x1, .visit ⟨.defer, none⟩, .visit ⟨.run, none⟩,
    .setRuleWithEventComplete 2 (BitVec.allOnes 64), .visit ⟨.complete, none⟩]

/-- The completion of the first rule clears the event, and the pass calls the second rule again. -/
theorem stale_copy_evaluates : ∃ e, run (step twoRules) create deferThenComplete = some e ∧
    ∃ i, Evaluates twoRules e i ∧ Ordinary twoRules i ∧ ¬ Within twoRules i e.ruleSet.events :=
  ⟨_, rfl, 1, by decide, by decide, by decide⟩

/-- Both rules of the event complete in one pass, and the event is cleared once. -/
theorem evaluated_while_active_two :
    ∃ e, run (step twoRules) create [.setEvent 0x1, .visit ⟨.complete, none⟩] = some e ∧
      Evaluates twoRules e 1 ∧ Within twoRules 1 e.ruleSet.events :=
  ⟨_, rfl, by decide,
    (@evaluated_while_active 2 twoRules [.setEvent 0x1, .visit ⟨.complete, none⟩] _ (by decide)
      rfl).1 1 (by decide) (by decide)⟩

end Mh40.RulesEngine
