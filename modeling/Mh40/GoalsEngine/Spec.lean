import Mh40.Lib.Mask
import Mh40.GoalsEngine.Engine

/-!
# What each function of the goals engine does to the active goals and to the calls

`active_handleExclusiveGoals` is the one with content: the goals that a synchronous cancellation
takes out of the active mask are those it takes out of the wait mask, so a wait mask computed before
the cancellation is right after it.
-/

namespace Mh40.GoalsEngine

open Lib

variable {T : GoalTable} {o : Procedures} {e : Engine} {goal : GoalId}
  {goalData : Option (List UInt8)} {active : GoalMask}

/-! ## Masks -/

theorem has_goalMask {goal b : ℕ} : Has (goalMask goal) b ↔ b = goal ∧ goal < 64 := has_single

theorem has_removeGoalFromMask {mask : GoalMask} {goal b : ℕ} :
    Has (removeGoalFromMask mask goal) b ↔ Has mask b ∧ b ≠ goal := by
  unfold removeGoalFromMask
  rw [has_diff, has_goalMask]
  constructor
  · rintro ⟨hb, hg⟩
    refine ⟨hb, fun h => hg ⟨h, ?_⟩⟩
    exact h ▸ hb.lt
  · rintro ⟨hb, hg⟩
    exact ⟨hb, fun h => hg h.1⟩

theorem isGoalActive_iff (h : goal < 64) :
    isGoalActive e goal = true ↔ Has e.activeGoalsMask goal := by
  unfold isGoalActive
  rw [beq_iff_eq, BitVec.and_comm, and_eq_left_iff]
  constructor
  · intro hall
    exact hall goal (has_goalMask.mpr ⟨rfl, h⟩)
  · intro hg b hb
    exact (has_goalMask.mp hb).1 ▸ hg

theorem has_foldl_goalMask {b : ℕ} : ∀ (l : List GoalId) (mask : GoalMask),
    Has (l.foldl (fun mask g => mask ||| goalMask g) mask) b ↔ Has mask b ∨ b ∈ l ∧ b < 64
  | [], mask => by simp
  | g :: l, mask => by
    rw [List.foldl_cons, has_foldl_goalMask l, has_or, has_goalMask, List.mem_cons]
    constructor
    · rintro ((h | ⟨rfl, hg⟩) | ⟨h, hb⟩)
      · exact .inl h
      · exact .inr ⟨.inl rfl, hg⟩
      · exact .inr ⟨.inr h, hb⟩
    · rintro (h | ⟨rfl | h, hb⟩)
      · exact .inl (.inl h)
      · exact .inl (.inr ⟨rfl, hb⟩)
      · exact .inr ⟨h, hb⟩

theorem has_getConcurrentGoalsMask {b : ℕ} :
    Has (getConcurrentGoalsMask T goal) b ↔ b ∈ (T.goals goal).concurrentGoals ∧ b < 64 := by
  unfold getConcurrentGoalsMask
  rw [has_foldl_goalMask]
  simp

/-- The active goals that a queued goal has to wait for. -/
def waitMask (T : GoalTable) (active : GoalMask) (goal : GoalId) : GoalMask :=
  if (T.goals goal).contention = .concurrent then active &&& ~~~getConcurrentGoalsMask T goal
  else active

/-- **No active goal is waited for** exactly when none is active, or the goal is a concurrent one
and each active goal is on its list. -/
theorem waitMask_eq_zero_iff :
    waitMask T active goal = 0 ↔ ∀ h, Has active h →
      (T.goals goal).contention = .concurrent ∧ h ∈ (T.goals goal).concurrentGoals := by
  unfold waitMask
  rw [eq_zero_iff]
  split
  · rename_i hc
    refine forall_congr' fun h => ?_
    rw [has_diff, has_getConcurrentGoalsMask, not_and, not_not]
    refine forall_congr' fun hh => ?_
    simp [hc, hh.lt]
  · rename_i hc
    refine forall_congr' fun h => ?_
    simp [hc]

theorem waitMask_remove {goal g : GoalId} :
    removeGoalFromMask (waitMask T active goal) g =
      waitMask T (removeGoalFromMask active g) goal := by
  unfold waitMask
  split
  · refine mask_ext fun b => ?_
    simp only [has_removeGoalFromMask, has_diff]
    exact and_right_comm
  · rfl

theorem handleConcurrentGoals_eq :
    handleConcurrentGoals T goal active = waitMask T active goal := by
  unfold handleConcurrentGoals waitMask goalRunsConcurrently
  simp only [beq_iff_eq]

/-! ## The active goals -/

@[simp] theorem active_resetPendingQueueIfEmpty :
    (resetPendingQueueIfEmpty e).activeGoalsMask = e.activeGoalsMask := by
  unfold resetPendingQueueIfEmpty
  split <;> rfl

@[simp] theorem active_dequeGoal :
    (dequeGoal e goal).activeGoalsMask = e.activeGoalsMask := by
  unfold dequeGoal
  split <;> rfl

theorem active_cancelGoal :
    (cancelGoal o e goal).activeGoalsMask =
      if o.cancelConfirms goal then removeGoalFromMask e.activeGoalsMask goal
      else e.activeGoalsMask := by
  unfold cancelGoal
  split <;> rfl

/-- **The wait mask survives the cancellation of an exclusive goal**: it loses the goals that the
active mask loses. -/
theorem active_handleExclusiveGoals :
    (handleExclusiveGoals T o e goal (waitMask T e.activeGoalsMask goal)).2 =
      waitMask T
        (handleExclusiveGoals T o e goal (waitMask T e.activeGoalsMask goal)).1.activeGoalsMask
        goal := by
  simp only [handleExclusiveGoals]
  by_cases h : (T.goals goal).exclusiveGoal ≠ goalIdNone ∧
      (T.goals goal).exclusiveGoal < T.goalsCount ∧ isGoalActive e (T.goals goal).exclusiveGoal
  · have h64 : (T.goals goal).exclusiveGoal < 64 :=
      lt_of_lt_of_le h.2.1 (T.validated.2.trans (by decide))
    have hact := (isGoalActive_iff h64).mp h.2.2
    rw [if_pos h]
    simp only [isGoalActive_iff h64, active_cancelGoal, active_dequeGoal]
    by_cases hc : o.cancelConfirms (T.goals goal).exclusiveGoal = true
    · simp only [if_pos hc, has_removeGoalFromMask, ne_eq, not_true_eq_false, and_false, if_false,
        waitMask_remove]
    · simp only [if_neg hc, if_pos hact]
  · simp only [if_neg h]

/-! ## The calls into the procedures -/

@[simp] theorem calls_resetPendingQueueIfEmpty :
    (resetPendingQueueIfEmpty e).calls = e.calls := by
  unfold resetPendingQueueIfEmpty
  split <;> rfl

@[simp] theorem calls_clearPendingGoalsQueue : (clearPendingGoalsQueue e).calls = e.calls :=
  calls_resetPendingQueueIfEmpty

@[simp] theorem calls_dequeGoal : (dequeGoal e goal).calls = e.calls := by
  unfold dequeGoal
  split <;> rfl

@[simp] theorem calls_updateQueueMasks : (updateQueueMasks T e).calls = e.calls := by
  unfold updateQueueMasks
  split <;> rfl

@[simp] theorem calls_cancelGoal :
    (cancelGoal o e goal).calls = e.calls ++ [.cancel goal] := by
  unfold cancelGoal
  split <;> rfl

theorem calls_startGoal :
    (startGoal T o e goal goalData).calls =
      e.calls ++ [.start goal goalData e.activeGoalsMask] := by
  unfold startGoal
  rw [calls_updateQueueMasks]
  split <;> rfl

theorem calls_queueGoal {e' : Engine} {ruleId : MessageId} {size : ℕ} {mask : GoalMask}
    (h : queueGoal e ruleId goalData size mask goal = some e') : e'.calls = e.calls := by
  obtain ⟨slot, -, rfl⟩ := Option.map_eq_some_iff.mp h
  rfl

end Mh40.GoalsEngine
