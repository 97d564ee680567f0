import Mh40.RulesEngine.Machine

/-!
# A completion clears the events whose rules are all complete

`RulesEngine_UpdateRuleStatus` collects the events of the rules it completes and takes out those of
the rules that are not complete, but it looks only at the rules that match the event argument. Two
things follow. An event outside the argument is cleared although one of its rules has not run
(`partial_completion_clears_open_event`), and an always-evaluate rule, which never completes, keeps
every event it shares with the argument set.

* `ClearsExactly`: the mask handed to `RulesEngine_ResetEvent` holds exactly the events whose
  ordinary rules are all complete.
* `Covered`: the condition on the event argument and the state before the call.
* **`completion_clears_exactly`**: in a run whose completions are covered, every event has a rule
  that is not complete in every state, and a completion clears exactly if and only if it is covered.
-/

namespace Mh40.RulesEngine

open Lib Option

variable {n : ℕ} {rules : Fin n → RuleEntry} {st : Fin n → RuleStatus} {sel : Selector}

/-- The ordinary rule `i` has the event `b`. -/
def Listens (rules : Fin n → RuleEntry) (b : ℕ) (i : Fin n) : Prop :=
  Ordinary rules i ∧ Has (rules i).events b

instance (b : ℕ) (i : Fin n) : Decidable (Listens rules b i) := by
  unfold Listens
  infer_instance

/-- The mask of the call holds exactly the events that have ordinary rules and whose ordinary rules
all have status complete. -/
def ClearsExactly (rules : Fin n → RuleEntry) (sel : Selector) (st : Fin n → RuleStatus) : Prop :=
  ∀ m, markRules rules sel .complete st = some m → ∀ b,
    Has (completedEvents rules sel.event m) b ↔
      (∃ i, Listens rules b i) ∧ ∀ i, Listens rules b i → m.rulesState i = .complete

/-- Every ordinary rule of the event was complete before the call or is completed by it. -/
def Settled (rules : Fin n → RuleEntry) (sel : Selector) (st : Fin n → RuleStatus) (b : ℕ) : Prop :=
  ∀ i, Listens rules b i → st i = .complete ∨ sel.Selects rules st i

instance (sel : Selector) (st : Fin n → RuleStatus) (b : ℕ) :
    Decidable (Settled rules sel st b) := by
  unfold Settled
  infer_instance

/-- The event argument is right for the event `b`. If `b` is settled, no always-evaluate rule of `b`
matches the argument; if it is not, some rule of `b` matches the argument and stays open. -/
def EventCovered (rules : Fin n → RuleEntry) (sel : Selector) (st : Fin n → RuleStatus) (b : ℕ) :
    Prop :=
  (Settled rules sel st b →
    ∀ k, ¬ Ordinary rules k → Overlaps rules k sel.event → ¬ Has (rules k).events b) ∧
  (¬ Settled rules sel st b → ∃ k, Overlaps rules k sel.event ∧ Has (rules k).events b ∧
    st k ≠ .complete ∧ ¬ sel.Selects rules st k)

instance (sel : Selector) (st : Fin n → RuleStatus) (b : ℕ) :
    Decidable (EventCovered rules sel st b) := by
  unfold EventCovered
  infer_instance

/-- The event argument is right for every event of the rules that the call completes. -/
def Covered (rules : Fin n → RuleEntry) (sel : Selector) (st : Fin n → RuleStatus) : Prop :=
  ∀ i, sel.Selects rules st i → ∀ b, Has (rules i).events b → EventCovered rules sel st b

instance (sel : Selector) (st : Fin n → RuleStatus) : Decidable (Covered rules sel st) := by
  unfold Covered
  infer_instance

/-- The arguments with which the step calls `RulesEngine_UpdateRuleStatus`. -/
def completion (rules : Fin n → RuleEntry) (e : Engine n) : Label → Option Selector
  | .visit o =>
    if h : e.next < n then
      if Finishes rules e o ⟨e.next, h⟩ then
        some (ownSelector rules e.ruleSet.rulesState ⟨e.next, h⟩)
      else none
    else none
  | .setRuleWithEventComplete message event => some ⟨message, .inProgress, event⟩
  | _ => none

/-- The completion of the step, if it makes one, is covered. -/
def CompletionCovered (rules : Fin n → RuleEntry) (e : Engine n) (l : Label) : Prop :=
  ∀ sel ∈ completion rules e l, Covered rules sel e.ruleSet.rulesState

instance (e : Engine n) (l : Label) : Decidable (CompletionCovered rules e l) := by
  unfold CompletionCovered
  infer_instance

/-- What holds after every step: an event with ordinary rules has one that is not complete, and the
always-evaluate rules stay as they were created. -/
structure Open (rules : Fin n → RuleEntry) (st : Fin n → RuleStatus) : Prop where
  unfinished : ∀ b, (∃ i, Listens rules b i) → ∃ i, Listens rules b i ∧ st i ≠ .complete
  always : ∀ i, ¬ Ordinary rules i → st i = .notDone

theorem open_create : Open rules (create (n := n)).ruleSet.rulesState where
  unfinished _ h := by
    obtain ⟨i, hi⟩ := h
    exact ⟨i, hi, by simp [create, check, createRuleSet]⟩
  always _ _ := rfl

/-! ## One completion -/

theorem clearsExactly_iff {m : Marking n} (h : markRules rules sel .complete st = some m) :
    ClearsExactly rules sel st ↔
      ∀ b, Clears rules sel st b ↔ (∃ i, Listens rules b i) ∧ Settled rules sel st b := by
  obtain ⟨-, hst, -, -⟩ := markRules_spec h
  have hdone : ∀ b, (∀ i, Listens rules b i → m.rulesState i = .complete) ↔
      Settled rules sel st b := by
    intro b
    refine forall_congr' fun i => forall_congr' fun _ => ?_
    rw [hst i]
    by_cases hs : sel.Selects rules st i <;> simp [hs]
  constructor
  · intro hc b
    rw [← completedEvents_iff_clears h, hc m h, hdone]
  · intro hc m' h' b
    obtain rfl : m = m' := some.inj (h.symm.trans h')
    rw [completedEvents_iff_clears h, hc, hdone]

/-- **A completion clears exactly if and only if it is covered**, where every event still has a rule
that is not complete. -/
theorem clearsExactly_iff_covered {m : Marking n} (ho : Open rules st)
    (h : markRules rules sel .complete st = some m) :
    ClearsExactly rules sel st ↔ Covered rules sel st := by
  obtain ⟨hord, -, -, -⟩ := markRules_spec h
  rw [clearsExactly_iff h]
  constructor
  · intro hc i hi b hb
    have hex : ∃ i, Listens rules b i := ⟨i, hord i hi, hb⟩
    constructor
    · intro hset k hk hov
      refine ((hc b).mpr ⟨hex, hset⟩).2 k hov ?_ fun hs => hk (hord k hs)
      simp [ho.always k hk]
    · intro hset
      have hno : ¬ Clears rules sel st b := fun hcl => hset ((hc b).mp hcl).2
      by_contra hnone
      refine hno ⟨⟨i, hi, hb⟩, fun k hov hkc hks hkb => hnone ⟨k, hov, hkb, hkc, hks⟩⟩
  · intro hc b
    constructor
    · rintro ⟨⟨i, hi, hb⟩, hrest⟩
      refine ⟨⟨i, hord i hi, hb⟩, ?_⟩
      by_contra hset
      obtain ⟨k, hov, hkb, hkc, hks⟩ := (hc i hi b hb).2 hset
      exact hrest k hov hkc hks hkb
    · rintro ⟨hex, hset⟩
      obtain ⟨i, hli, hic⟩ := ho.unfinished b hex
      have hi : sel.Selects rules st i := (hset i hli).resolve_left hic
      refine ⟨⟨i, hi, hli.2⟩, fun k hov hkc hks hkb => ?_⟩
      by_cases hk : Ordinary rules k
      · exact (hset k ⟨hk, hkb⟩).elim hkc hks
      · exact (hc i hi b hli.2).1 hset k hk hov hkb

/-- A covered completion leaves every event a rule that is not complete. -/
theorem open_of_update {rs rs' : RuleSet n} {did : Bool} (ho : Open rules rs.rulesState)
    (hc : Covered rules sel rs.rulesState)
    (hu : updateRuleStatus rules sel .complete rs = some (rs', did)) :
    Open rules rs'.rulesState := by
  obtain ⟨m, hm, -⟩ := map_eq_some_iff.mp hu
  have hex := (clearsExactly_iff hm).mp ((clearsExactly_iff_covered ho hm).mpr hc)
  obtain ⟨hord, mask, hmask, -, hst⟩ := updateRuleStatus_spec hu
  constructor
  · intro b hb
    by_cases hset : Settled rules sel rs.rulesState b
    · have hbm : Has mask b := (hmask b).mpr ((hex b).mpr ⟨hb, hset⟩)
      obtain ⟨i, hi⟩ := hb
      refine ⟨i, hi, ?_⟩
      rw [hst i, if_pos ⟨⟨b, hi.2, hbm⟩, hi.1⟩]
      decide
    · unfold Settled at hset
      push Not at hset
      obtain ⟨i, hi, hic, his⟩ := hset
      refine ⟨i, hi, ?_⟩
      rw [hst i, if_neg his]
      split
      · decide
      · exact hic
  · intro i hi
    rw [hst i, if_neg fun h => hi h.2, if_neg fun h => hi (hord i h)]
    exact ho.always i hi

/-! ## The steps -/

theorem open_of_reset {rs : RuleSet n} {event : RuleEvents} (ho : Open rules rs.rulesState) :
    Open rules (resetEvent rules rs event).rulesState := by
  constructor
  · intro b hb
    obtain ⟨i, hi, hic⟩ := ho.unfinished b hb
    refine ⟨i, hi, ?_⟩
    rw [resetEvent_rulesState]
    split
    · decide
    · exact hic
  · intro i hi
    rw [resetEvent_rulesState, if_neg fun h => hi h.2]
    exact ho.always i hi

theorem open_of_update_status {i : Fin n} {new : RuleStatus} (ho : Open rules st)
    (hi : Ordinary rules i) (hnew : new ≠ .complete) :
    Open rules (Function.update st i new) := by
  constructor
  · intro b hb
    obtain ⟨j, hj, hjc⟩ := ho.unfinished b hb
    refine ⟨j, hj, ?_⟩
    by_cases hji : j = i
    · rwa [hji, Function.update_self]
    · rwa [Function.update_of_ne hji]
  · intro j hj
    have hji : j ≠ i := fun h => hj (h ▸ hi)
    rw [Function.update_of_ne hji]
    exact ho.always j hj

theorem open_step (e : Engine n) (l : Label) (e' : Engine n) (ho : Open rules e.ruleSet.rulesState)
    (hc : CompletionCovered rules e l) (h : step rules e l = some e') :
    Open rules e'.ruleSet.rulesState := by
  cases l with
  | setEvent eventMask =>
    obtain ⟨-, rfl⟩ := step_setEvent h
    exact ho
  | resetEvent event =>
    obtain ⟨-, rfl⟩ := step_resetEvent h
    exact open_of_reset ho
  | setRuleWithEventComplete message event =>
    obtain ⟨-, rs, did, sent, hu, rfl⟩ := step_setRuleWithEventComplete h
    exact open_of_update ho (hc _ rfl) hu
  | visit o =>
    obtain ⟨hn, hv, -⟩ := step_visit h
    cases hv with
    | skipped _ _ hp | waiting _ _ hp => rwa [Engine.ruleSet, hp]
    | always _ _ _ hst => rwa [Engine.ruleSet, hst]
    | ran _ hord _ _ hst | deferred _ hord _ _ hst =>
      rw [Engine.ruleSet, hst]
      exact open_of_update_status ho hord (by decide)
    | finished he hord ha rs rs' did hrs hu hp _ =>
      have hfin : Finishes rules e o ⟨e.next, hn⟩ := ⟨⟨rfl, he⟩, hord, ha⟩
      have hcov : Covered rules (ownSelector rules rs.rulesState ⟨e.next, hn⟩) rs.rulesState := by
        rw [hrs.2]
        refine hc _ ?_
        simp only [completion, hn, dite_true, hfin, if_true, mem_def]
      rw [Engine.ruleSet, hp]
      exact open_of_update (hrs.2 ▸ ho) hcov hu

/-- A step with a completion that the engine survives marks the rules the completion selects. -/
theorem markRules_of_step {e e' : Engine n} {l : Label} (hsel : sel ∈ completion rules e l)
    (h : step rules e l = some e') :
    ∃ m, markRules rules sel .complete e.ruleSet.rulesState = some m := by
  cases l with
  | setEvent eventMask => cases hsel
  | resetEvent event => cases hsel
  | setRuleWithEventComplete message event =>
    cases hsel
    obtain ⟨-, rs, did, sent, hu, -⟩ := step_setRuleWithEventComplete h
    obtain ⟨m, hm, -⟩ := map_eq_some_iff.mp hu
    exact ⟨m, hm⟩
  | visit o =>
    obtain ⟨hn, hv, -⟩ := step_visit h
    simp only [completion, hn, dite_true, mem_def] at hsel
    split at hsel
    · rename_i hfin
      cases hsel
      obtain ⟨⟨-, he⟩, hord, ha⟩ := hfin
      cases hv with
      | finished _ _ _ rs rs' did hrs hu _ _ =>
        obtain ⟨m, hm, -⟩ := map_eq_some_iff.mp hu
        rw [hrs.2] at hm
        exact ⟨m, hm⟩
      | skipped hne => exact absurd he hne
      | waiting _ hs => exact absurd hs he.2.2
      | always _ hno => exact absurd hord hno
      | ran _ _ hact => rcases hact with h | h <;> simp [h] at ha
      | deferred _ _ hact => simp [hact] at ha
    · cases hsel

/-! ## The runs -/

/-- **A completion clears exactly the events whose rules are all complete**, in a run whose
completions are covered and for a next completion that is covered, and for no other; and no event
stays with all its rules complete. -/
theorem completion_clears_exactly {ls : List Label} {e : Engine n}
    (hm : Meets (step rules) (CompletionCovered rules) create ls)
    (hr : run (step rules) create ls = some e) :
    (∀ b, (∃ i, Listens rules b i) →
      ∃ i, Listens rules b i ∧ e.ruleSet.rulesState i ≠ .complete) ∧
      ∀ l e' sel, sel ∈ completion rules e l → step rules e l = some e' →
        (ClearsExactly rules sel e.ruleSet.rulesState ↔
          Covered rules sel e.ruleSet.rulesState) := by
  have ho : Open rules e.ruleSet.rulesState :=
    @invariant_of_meets _ _ _ _ (fun e => Open rules e.ruleSet.rulesState) open_step _ _ _
      open_create hm hr
  refine ⟨ho.unfinished, fun l e' sel hsel hstep => ?_⟩
  obtain ⟨m, hmark⟩ := markRules_of_step hsel hstep
  exact clearsExactly_iff_covered ho hmark

/-- A rule of the events 0 and 2, and a rule of the event 2. -/
def sharedRules : Fin 2 → RuleEntry
  | 0 => ⟨0x5, .noFlags, 1⟩
  | 1 => ⟨0x4, .noFlags, 2⟩

/-- Both events are set and the first rule runs. -/
def firstRuleRuns : List Label :=
  [.setEvent 0x5, .visit ⟨.run, none⟩, .visit ⟨.run, none⟩]

/-- Completing the first rule with the event 0 alone clears the event 2, whose other rule has not
been called. -/
theorem partial_completion_clears_open_event :
    ∃ e e', run (step sharedRules) create firstRuleRuns = some e ∧
      step sharedRules e (.setRuleWithEventComplete 1 0x1) = some e' ∧
      Has e.ruleSet.events 2 ∧ ¬ Has e'.ruleSet.events 2 ∧ Listens sharedRules 2 1 ∧
      e.ruleSet.rulesState 1 = .notDone ∧ (sharedRules 1).message ≠ 1 :=
  ⟨_, _, rfl, rfl, by decide, by decide, by decide, by decide, by decide⟩

/-- Completing it with both its events clears the event 0 alone. -/
theorem completion_clears_exactly_shared :
    ∃ e, run (step sharedRules) create firstRuleRuns = some e ∧
      ClearsExactly sharedRules ⟨1, .inProgress, 0x5⟩ e.ruleSet.rulesState :=
  ⟨_, rfl, ((@completion_clears_exactly 2 sharedRules firstRuleRuns _ (by decide) rfl).2
    (.setRuleWithEventComplete 1 0x5) _ _ rfl rfl).mpr (by decide)⟩

end Mh40.RulesEngine
