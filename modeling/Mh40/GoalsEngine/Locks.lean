import Mh40.Lib.Run
import Mh40.GoalsEngine.Queue

/-!
# The locks of the queued goals are exact

In a goal set whose goals have one rule message each, a decision waiting on `queue_task` is locked
by exactly the active goals that its goal cannot run with. `goalsEngine_QueueGoal` and
`GoalsEngine_ClearGoal` keep that, `goalsEngine_UpdateQueueMasks` recomputes it at every start
(`Queue.lean`), and it holds as long as `queue_msg_count` is right. The count is 8 bits wide: with
256 decisions waiting it is 0, and `goalsEngine_ResetPendingQueueIfEmpty` clears the entries under
them (`wrapped_count_unlocks`).

* **`queued_locks_exact`**: in a run with at most 255 decisions waiting at any time, every waiting
  decision is deliverable exactly when no active goal conflicts with its goal.
-/

namespace Mh40.GoalsEngine

open Lib List Option

variable {T : GoalTable} {ruleOf : GoalId → MessageId} {e e' : Engine} {k : ℕ}

/-- The goals keep to their rule messages: a decision has that of its goal, and a delivered one is
taken to the goal it was queued for. -/
def OneRule (ruleOf : GoalId → MessageId) (e : Engine) : Label → Prop
  | .decide d _ => d.goal ≠ 0 → d.ruleId = ruleOf d.goal
  | .deliver k goal _ _ => goal ≠ 0 ∧ ∀ m ∈ e.queueTask[k]?, m.ruleId = ruleOf goal
  | .clear _ => True

instance (e : Engine) : ∀ l, Decidable (OneRule ruleOf e l)
  | .decide d _ => inferInstanceAs (Decidable (d.goal ≠ 0 → d.ruleId = ruleOf d.goal))
  | .deliver k goal _ _ => inferInstanceAs (Decidable (goal ≠ 0 ∧ ∀ m ∈ e.queueTask[k]?, _))
  | .clear _ => .isTrue trivial

/-- At most 255 decisions are waiting, and the goals keep to their rule messages. -/
def WithinCount (ruleOf : GoalId → MessageId) (e : Engine) (l : Label) : Prop :=
  e.queueTask.length ≤ 255 ∧ OneRule ruleOf e l

instance (e : Engine) (l : Label) : Decidable (WithinCount ruleOf e l) := by
  unfold WithinCount
  infer_instance

/-- The decision waits on the entry of its goal, whose lock mask holds the active goals less those
the goal runs concurrently with, and whose lock is set when the mask is not empty. -/
def LockExact (T : GoalTable) (ruleOf : GoalId → MessageId) (e : Engine) (m : QueuedDecision) :
    Prop :=
  (e.pendingGoals m.slot).id ≠ 0 ∧ m.ruleId = ruleOf (e.pendingGoals m.slot).id ∧
    (e.pendingGoals m.slot).lockMask = waitMask T e.activeGoalsMask (e.pendingGoals m.slot).id ∧
    ((e.pendingGoals m.slot).lock ≠ 0 ↔ (e.pendingGoals m.slot).lockMask ≠ 0)

theorem wellQueued_step (hr : ∀ g, g ≠ 0 → g < T.goalsCount → ruleOf g ≠ 0) (e : Engine)
    (l : Label) (e' : Engine)
    (h : e.queueTask.length ≤ 255 → WellQueued T ruleOf e) (hl : WithinCount ruleOf e l)
    (hs : step T e l = some e') (hlen : e'.queueTask.length ≤ 255) : WellQueued T ruleOf e' := by
  have hw := h hl.1
  cases l with
  | decide d o =>
    simp only [step] at hs
    split at hs
    · rename_i hlt
      by_cases hg : d.goal = 0
      · rw [activateGoal, if_pos (show d.goal = goalIdNone from hg)] at hs
        cases hs
        exact hw
      · have hw1 : WellQueued T ruleOf (countDecision e true) := hw
        exact wellQueued_activateGoal hr hw1 hg hlt (hl.2 hg) hs hlen
    · cases hs
  | deliver k goal goalDataSize o =>
    simp only [step] at hs
    split at hs
    · cases hs
    · rename_i m hm
      split at hs
      · rename_i hlock
        exact wellQueued_activateGoal hr (wellQueued_takeMessage hw hm) hl.2.1 hlock.2
          (hl.2.2 m (mem_def.mpr hm)) hs hlen
      · cases hs
  | clear goal =>
    simp only [step] at hs
    split at hs
    · cases hs
      exact wellQueued_clearGoal hw
    · cases hs

theorem wellQueued_run (hr : ∀ g, g ≠ 0 → g < T.goalsCount → ruleOf g ≠ 0) {ls : List Label}
    (hm : Meets (step T) (WithinCount ruleOf) createGoalSet ls)
    (hrun : run (step T) createGoalSet ls = some e) (hlen : e.queueTask.length ≤ 255) :
    WellQueued T ruleOf e :=
  @invariant_of_meets _ _ _ _ (fun e => e.queueTask.length ≤ 255 → WellQueued T ruleOf e)
    (wellQueued_step hr) _ _ _ (fun _ => wellQueued_create) hm hrun hlen

theorem lockExact_of_wellQueued (h : WellQueued T ruleOf e) {m : QueuedDecision}
    (hm : m ∈ e.queueTask) : LockExact T ruleOf e m := by
  obtain ⟨hid, hrule⟩ := h.slots.sent m hm
  exact ⟨hid, hrule.trans (h.slots.rule _ hid), h.exact m hm, h.slots.lock _⟩

/-- A decision is deliverable exactly when no active goal conflicts with its goal. -/
theorem LockExact.deliverable_iff {m : QueuedDecision} (h : LockExact T ruleOf e m) :
    (e.pendingGoals m.slot).lock = 0 ↔ ∀ g, Has e.activeGoalsMask g →
      (T.goals (e.pendingGoals m.slot).id).contention = .concurrent ∧
        g ∈ (T.goals (e.pendingGoals m.slot).id).concurrentGoals := by
  obtain ⟨-, -, hmask, hlock⟩ := h
  rw [← not_iff_not, ← Ne, hlock, hmask, Ne, waitMask_eq_zero_iff]

/-- **The locks of the queued goals are exact**, in a run with at most 255 decisions waiting at any
time: every waiting decision is locked by the active goals its goal cannot run with and by no
others, and none is locked when no goal is active. -/
theorem queued_locks_exact (hr : ∀ g, g ≠ 0 → g < T.goalsCount → ruleOf g ≠ 0) {ls : List Label}
    (hm : Meets (step T) (WithinCount ruleOf) createGoalSet ls)
    (hrun : run (step T) createGoalSet ls = some e) (hlen : e.queueTask.length ≤ 255) :
    ∀ m ∈ e.queueTask, LockExact T ruleOf e m ∧
      ((e.pendingGoals m.slot).lock = 0 ↔ ∀ g, Has e.activeGoalsMask g →
        (T.goals (e.pendingGoals m.slot).id).contention = .concurrent ∧
          g ∈ (T.goals (e.pendingGoals m.slot).id).concurrentGoals) ∧
      (e.activeGoalsMask = 0 → (e.pendingGoals m.slot).lock = 0) := by
  intro m hmem
  have hex := lockExact_of_wellQueued (wellQueued_run hr hm hrun hlen) hmem
  refine ⟨hex, hex.deliverable_iff, fun h0 => hex.deliverable_iff.mpr fun g hg => ?_⟩
  rw [h0] at hg
  exact absurd hg has_zero

/-! ## The count of 256 waiting decisions -/

/-- Two goals that wait for each other. -/
def twoGoals : GoalTable where
  goals _ := ⟨.wait, 0, []⟩
  goalsCount := 3
  validated := by decide

def ruleOfGoal (goal : GoalId) : MessageId := if goal = 1 then 1 else 2

def decideGoal (goal : GoalId) : Label :=
  .decide ⟨goal, ruleOfGoal goal, none, 0⟩ ⟨false, fun _ => false⟩

/-- The goal 1 is active and `k` decisions for the goal 2 are waiting. -/
def waiting (k : ℕ) : Engine where
  activeGoalsMask := 2
  queueMsgCount := UInt8.ofNat k
  queueMsgCountMax := UInt8.ofNat k
  pendingGoals := if k = 0 then fun _ => clearedEntry
    else fun i => if i = 0 then ⟨2, 2, 1, 2⟩ else clearedEntry
  queueTask := List.replicate k ⟨2, none, 0⟩
  calls := [.start 1 none 0]

theorem findSlot_waiting (k : ℕ) : findSlot (waiting k) 2 = some 0 := by
  have hslots : List.finRange initialGoalQueueCount = [0, 1, 2, 3, 4, 5, 6, 7] := by decide
  by_cases hk : k = 0
  · subst hk
    decide
  · have h : (waiting k).pendingGoals 0 = ⟨2, 2, 1, 2⟩ := by
      simp only [waiting, if_neg hk, if_true]
    simp [findSlot, hslots, h]

/-- The entries with one more decision queued. -/
theorem pendingGoals_waiting (k : ℕ) :
    (fun i => if i = 0 then
        PendingGoalEntry.setLock { (waiting k).pendingGoals i with id := 2, ruleId := 2 } 2
      else (waiting k).pendingGoals i) = (waiting (k + 1)).pendingGoals := by
  funext i
  by_cases hi : i = 0
  · simp [waiting, hi, PendingGoalEntry.setLock]
  · by_cases hk : k = 0 <;> simp [waiting, hi, hk]

theorem step_waiting (hk : k < 255) :
    step twoGoals (waiting k) (decideGoal 2) = some (waiting (k + 1)) := by
  have hact : step twoGoals (waiting k) (decideGoal 2) =
      (queueGoal (waiting k) 2 none 0 2 2).map resetPendingQueueIfEmpty := rfl
  have hcount : UInt8.ofNat k + 1 = UInt8.ofNat (k + 1) := by simp
  have hlt : UInt8.ofNat k < UInt8.ofNat (k + 1) := by
    rw [UInt8.lt_iff_toNat_lt, UInt8.toNat_ofNat', UInt8.toNat_ofNat']
    omega
  have hne : UInt8.ofNat (k + 1) ≠ 0 := by
    intro h
    rw [h] at hlt
    exact UInt8.not_lt_zero hlt
  rw [hact, queueGoal, findSlot_waiting]
  simp only [map_some, resetPendingQueueIfEmpty, some.injEq]
  rw [pendingGoals_waiting]
  simp only [waiting, hcount, hlt, if_true, hne, if_false, map_none]
  rw [← replicate_succ']

theorem run_waiting (hk : k ≤ 255) :
    run (step twoGoals) createGoalSet (decideGoal 1 :: List.replicate k (decideGoal 2)) =
      some (waiting k) := by
  induction k with
  | zero => rfl
  | succ k ih =>
    rw [replicate_succ', ← cons_append]
    refine run_append.mpr ⟨waiting k, ih (by omega), ?_⟩
    exact run_cons.mpr ⟨_, step_waiting (by omega), rfl⟩

/-- The decision that wraps the count clears the entries. -/
theorem step_waiting_wrap (hk : UInt8.ofNat k + 1 = 0) :
    ∃ e, step twoGoals (waiting k) (decideGoal 2) = some e ∧
      e.activeGoalsMask = (waiting k).activeGoalsMask ∧ ⟨2, none, 0⟩ ∈ e.queueTask ∧
      e.pendingGoals = fun _ => clearedEntry := by
  have hact : step twoGoals (waiting k) (decideGoal 2) =
      (queueGoal (waiting k) 2 none 0 2 2).map resetPendingQueueIfEmpty := rfl
  rw [hact, queueGoal, findSlot_waiting, map_some, map_some]
  refine ⟨_, rfl, active_resetPendingQueueIfEmpty, ?_, ?_⟩
  · unfold resetPendingQueueIfEmpty
    split <;> exact mem_append_right _ mem_cons_self
  · exact pendingGoals_reset_of_zero hk

/-- With the 256th decision for the goal 2 the count is 0 and the entries are cleared: the decisions
are deliverable while the goal 1 is active. -/
theorem wrapped_count_unlocks :
    ∃ e, run (step twoGoals) createGoalSet (decideGoal 1 :: List.replicate 256 (decideGoal 2)) =
        some e ∧ Has e.activeGoalsMask 1 ∧ ∃ m ∈ e.queueTask, m.ruleId = ruleOfGoal 2 ∧
          (e.pendingGoals m.slot).lock = 0 ∧ (twoGoals.goals 2).contention = .wait ∧
          ¬ LockExact twoGoals ruleOfGoal e m := by
  obtain ⟨e, he, hactive, hmem, hp⟩ := step_waiting_wrap (k := 255) rfl
  have hls : decideGoal 1 :: List.replicate (255 + 1) (decideGoal 2) =
      (decideGoal 1 :: List.replicate 255 (decideGoal 2)) ++ [decideGoal 2] := by
    rw [List.replicate_succ', List.cons_append]
  refine ⟨e, ?_, hactive ▸ (by decide : Has (2 : GoalMask) 1), _, hmem, rfl, ?_, rfl, ?_⟩
  · rw [hls]
    exact run_append.mpr ⟨_, run_waiting le_rfl, run_cons.mpr ⟨e, he, rfl⟩⟩
  · rw [hp]
    rfl
  · rintro ⟨hid, -⟩
    rw [hp] at hid
    exact hid rfl

/-- One decision for the goal 2 waits for the goal 1. -/
theorem queued_locks_exact_two :
    ∃ e, run (step twoGoals) createGoalSet [decideGoal 1, decideGoal 2] = some e ∧
      LockExact twoGoals ruleOfGoal e ⟨2, none, 0⟩ ∧ (e.pendingGoals 0).lock ≠ 0 := by
  have hr : ∀ g, g ≠ 0 → g < twoGoals.goalsCount → ruleOfGoal g ≠ 0 := by
    intro g _ _
    unfold ruleOfGoal
    split <;> decide
  exact ⟨_, rfl, (@queued_locks_exact twoGoals ruleOfGoal _ hr [decideGoal 1, decideGoal 2]
    (by decide) rfl (by decide) _ (by decide)).1, by decide⟩

end Mh40.GoalsEngine
