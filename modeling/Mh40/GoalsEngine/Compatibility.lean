import Mh40.Lib.Run
import Mh40.GoalsEngine.Spec

/-!
# A goal starts only next to goals it can run with

`goalsEngine_StartGoal` is reached on four paths of `GoalsEngine_ActivateGoal`: with nothing active,
after a cancelling goal has emptied the active mask, for a concurrent goal with an empty wait mask,
and after the cancellation of an exclusive goal has let the goal run at once. On each of them
`waitMask` of the goals active at that moment is empty (`startOrQueue_compatible`,
`admitGoal_compatible`).

* **`started_goals_compatible`**: in every run every goal is started with no goal active, or as a
  concurrent goal whose list has all the active ones.
-/

namespace Mh40.GoalsEngine

open Lib

variable {T : GoalTable} {o : Procedures} {e e' : Engine} {isNewGoal : Bool} {goal : GoalId}
  {d : Decision}

/-- A start is next to goals that the started goal need not wait for. -/
def Compatible (T : GoalTable) : ProcedureCall → Prop
  | .start goal _ active => waitMask T active goal = 0
  | .cancel _ => True

/-- Every call made so far is. -/
def AllCompatible (T : GoalTable) (e : Engine) : Prop := ∀ c ∈ e.calls, Compatible T c

theorem allCompatible_of_calls (h : AllCompatible T e) (hc : e'.calls = e.calls) :
    AllCompatible T e' := by
  unfold AllCompatible
  rwa [hc]

theorem allCompatible_snoc {c : ProcedureCall} (h : AllCompatible T e)
    (heq : e'.calls = e.calls ++ [c]) (hc : Compatible T c) : AllCompatible T e' := by
  unfold AllCompatible
  rw [heq]
  intro d hd
  rcases List.mem_append.mp hd with hd | hd
  · exact h d hd
  · exact List.mem_singleton.mp hd ▸ hc

/-! ## The paths to a start -/

theorem waitMask_of_canRunNow (h : goalCanRunNow e isNewGoal = true) :
    waitMask T e.activeGoalsMask goal = 0 := by
  unfold goalCanRunNow at h
  rw [Bool.and_eq_true, beq_iff_eq] at h
  rw [h.1, waitMask_eq_zero_iff]
  intro b hb
  exact absurd hb has_zero

theorem startGoal_compatible {goalData : Option (List UInt8)} (h : AllCompatible T e)
    (hw : waitMask T e.activeGoalsMask goal = 0) :
    AllCompatible T (startGoal T o e goal goalData) :=
  allCompatible_snoc h calls_startGoal hw

theorem startOrQueue_compatible {canStart : Bool} {mask : GoalMask} (h : AllCompatible T e)
    (hw : canStart = true → waitMask T e.activeGoalsMask d.goal = 0)
    (hs : startOrQueue T o e d canStart mask = some e') : AllCompatible T e' := by
  unfold startOrQueue at hs
  split at hs
  · rename_i hc
    cases hs
    exact startGoal_compatible h (hw hc)
  · exact allCompatible_of_calls h (calls_queueGoal hs)

theorem handleExclusiveGoals_compatible {mask : GoalMask} (h : AllCompatible T e) :
    AllCompatible T (handleExclusiveGoals T o e goal mask).1 := by
  simp only [handleExclusiveGoals]
  split
  · exact allCompatible_snoc (c := .cancel _) h (by rw [calls_cancelGoal, calls_dequeGoal]) trivial
  · exact h

theorem foldl_cancelGoal_compatible (l : List GoalId) (h : AllCompatible T e) :
    AllCompatible T (l.foldl (cancelGoal o) e) := by
  induction l generalizing e with
  | nil => exact h
  | cons goal l ih => exact ih (allCompatible_snoc h calls_cancelGoal trivial)

theorem admitGoal_compatible (h : AllCompatible T e) (ha : admitGoal T o e isNewGoal d = some e') :
    AllCompatible T e' := by
  unfold admitGoal at ha
  split at ha
  · rename_i hrun
    cases ha
    exact startGoal_compatible h (waitMask_of_canRunNow hrun)
  · split at ha
    · -- a cancelling goal starts only when every cancellation was confirmed at once
      refine startOrQueue_compatible (foldl_cancelGoal_compatible _ ?_) (fun hc => ?_) ha
      · exact allCompatible_of_calls h calls_clearPendingGoalsQueue
      · exact waitMask_of_canRunNow (Bool.and_eq_true _ _ ▸ hc).2
    · rw [handleConcurrentGoals_eq] at ha
      refine startOrQueue_compatible (handleExclusiveGoals_compatible h) (fun hc => ?_) ha
      rcases Bool.or_eq_true _ _ ▸ hc with hc | hc
      · rw [← active_handleExclusiveGoals]
        exact beq_iff_eq.mp (Bool.and_eq_true _ _ ▸ hc).2
      · exact waitMask_of_canRunNow hc

theorem activateGoal_compatible (h : AllCompatible T e)
    (ha : activateGoal T o e isNewGoal d = some e') : AllCompatible T e' := by
  unfold activateGoal at ha
  split at ha
  · cases ha
    exact h
  · have h1 : AllCompatible T (countDecision e isNewGoal) := by
      unfold countDecision
      split <;> exact h
    split at ha
    · cases ha
      exact allCompatible_of_calls h1 calls_clearPendingGoalsQueue
    · obtain ⟨e₁, ha1, rfl⟩ := Option.map_eq_some_iff.mp ha
      exact allCompatible_of_calls (admitGoal_compatible h1 ha1) calls_resetPendingQueueIfEmpty

/-! ## The runs -/

theorem step_compatible (e : Engine) (l : Label) (e' : Engine) (h : AllCompatible T e)
    (hs : step T e l = some e') : AllCompatible T e' := by
  cases l with
  | decide d o =>
    simp only [step] at hs
    split at hs
    · exact activateGoal_compatible h hs
    · cases hs
  | deliver k goal goalDataSize o =>
    simp only [step] at hs
    split at hs
    · cases hs
    · split at hs
      · have h1 : AllCompatible T (takeMessage e k) := allCompatible_of_calls h rfl
        exact activateGoal_compatible h1 hs
      · cases hs
  | clear goal =>
    simp only [step] at hs
    split at hs
    · cases hs
      exact allCompatible_of_calls h rfl
    · cases hs

/-- **A goal starts only next to goals it can run with**, whatever the table, the order of the
decisions, deliveries, completions and cancellations, and the synchronous ones among them. -/
theorem started_goals_compatible {ls : List Label} {e : Engine}
    (hr : run (step T) createGoalSet ls = some e) {goal : GoalId} {goalData : Option (List UInt8)}
    {active : GoalMask} (hc : .start goal goalData active ∈ e.calls) :
    active = 0 ∨ (T.goals goal).contention = .concurrent ∧
      ∀ h, Has active h → h ∈ (T.goals goal).concurrentGoals := by
  have hall : AllCompatible T e :=
    invariant_of_run step_compatible (fun c hc => absurd hc List.not_mem_nil) hr
  have hw := waitMask_eq_zero_iff.mp (hall _ hc)
  by_cases h0 : active = 0
  · exact .inl h0
  · obtain ⟨b, hb⟩ := ne_zero_iff.mp h0
    exact .inr ⟨(hw b hb).1, fun h hh => (hw h hh).2⟩

/-- The goals 1 and 2 run concurrently; the goal 3 waits, and cancels the goal 1. -/
def threeGoals : GoalTable where
  goals
    | 1 => ⟨.concurrent, 0, [2]⟩
    | 2 => ⟨.concurrent, 0, [1]⟩
    | _ => ⟨.wait, 1, []⟩
  goalsCount := 4
  validated := by decide

/-- Procedures that report everything later. -/
def later : Procedures := ⟨false, fun _ => false⟩

/-- The goal 2 starts while the goal 1 is active, which is on its list. -/
theorem started_goals_compatible_concurrent :
    ∃ e, run (step threeGoals) createGoalSet
      [.decide ⟨1, 1, none, 0⟩ later, .decide ⟨2, 2, none, 0⟩ later] = some e ∧
      .start 2 none 2 ∈ e.calls ∧ ∀ h, Has (2 : GoalMask) h → h ∈ (threeGoals.goals 2).concurrentGoals :=
  ⟨_, rfl, by decide, ((@started_goals_compatible threeGoals
    [.decide ⟨1, 1, none, 0⟩ later, .decide ⟨2, 2, none, 0⟩ later] _ rfl 2 none 2
      (by decide)).resolve_left (by decide)).2⟩

end Mh40.GoalsEngine
