import Mh40.Tasks.List

/-!
# Where the tasks of a list lie

* `Stores`: the three places store the tasks `ts`, in order.
* `getTaskAtIndex_spec`, `setTaskAtIndex_spec`: an index in the list is a task of `ts`.
* `resizeWords_grow`, `resizeWords_shrink`, `resizeWords_clear`: resizing carries the task at the
  boundary over between the union and the array.
* `moveTasks_spec`: the loop of `TaskList_RemoveTask` closes the gap.
-/

namespace Mh40.Tasks

open Lib.HeapArray List Option

variable {list : TaskList} {ts : List Task} {flexibleTasks : List Task} {u : Words}
  {flexSize i n : ℕ}

/-- The tasks in the flexible array, the union and the array that it may point to. -/
structure Stores (flexSize : ℕ) (flexibleTasks : List Task) (u : Words) (ts : List Task) :
    Prop where
  length_flexible : flexibleTasks.length = flexSize
  flexible : ∀ i, i < flexSize → i < ts.length → flexibleTasks[i]? = ts[i]?
  below : ts.length ≤ flexSize → ∃ t, u = .task t
  slot : ts.length = flexSize + 1 → ∃ t, ts[flexSize]? = some t ∧ u = .task t
  above : flexSize + 1 < ts.length → u = .tasks (ts.drop flexSize)

/-- The list stores the tasks. -/
def TaskList.Stores (list : TaskList) (ts : List Task) : Prop :=
  list.sizeList = ts.length ∧
    Tasks.Stores list.sizeFlexibleTasks list.flexibleTasks list.u ts

/-- **Every index below the size is read in its place.** -/
theorem getTaskAtIndex_spec (h : list.Stores ts) (hi : i < ts.length) :
    getTaskAtIndex list i = ts[i]? := by
  obtain ⟨hsize, h⟩ := h
  unfold getTaskAtIndex
  rw [hsize]
  by_cases hflex : i < list.sizeFlexibleTasks
  · rw [if_pos hflex, h.flexible i hflex hi]
  · rw [if_neg hflex]
    by_cases hslot : i = list.sizeFlexibleTasks ∧ ts.length = i + 1
    · obtain ⟨t, ht, hu⟩ := h.slot (by omega)
      rw [if_pos hslot, hu, hslot.1, ht]
    · rw [if_neg hslot, h.above (by omega)]
      simp only [getElem?_drop]
      rw [Nat.add_sub_cancel' (Nat.not_lt.mp hflex)]

theorem writeCell_of_lt {tasks : List Task} (h : i < tasks.length) (task : Task) :
    writeCell tasks i task = some (tasks.set i task) :=
  if_pos h

/-- The index of the last task. -/
theorem lastIndex_eq (hsize : list.sizeList = n + 1) : lastIndex list = n := by
  rw [lastIndex, hsize, if_neg (Nat.succ_ne_zero n), Nat.add_sub_cancel]

/-- **Every index below the size is written in its place**, and nothing else changes. -/
theorem setTaskAtIndex_spec (h : list.Stores ts) (hi : i < ts.length) (task : Task) :
    ∃ u flexibleTasks, setTaskAtIndex list task i = some { list with u, flexibleTasks } ∧
      Stores list.sizeFlexibleTasks flexibleTasks u (ts.set i task) := by
  obtain ⟨hsize, h⟩ := h
  have hlen : (ts.set i task).length = ts.length := length_set
  unfold setTaskAtIndex
  rw [hsize]
  by_cases hflex : i < list.sizeFlexibleTasks
  · rw [if_pos hflex, writeCell_of_lt (h.length_flexible ▸ hflex)]
    refine ⟨list.u, list.flexibleTasks.set i task, rfl, ?_⟩
    refine ⟨by rw [length_set]; exact h.length_flexible, fun j hj hjlen => ?_, ?_, ?_, ?_⟩
    · rw [hlen] at hjlen
      rw [getElem?_set, getElem?_set, h.flexible j hj hjlen, h.length_flexible]
      simp only [hi, hflex]
    · rw [hlen]
      exact h.below
    · rw [hlen, getElem?_set_ne (Nat.ne_of_lt hflex)]
      exact h.slot
    · rw [hlen, drop_set_of_lt hflex]
      exact h.above
  · rw [if_neg hflex]
    have hfront : ∀ j, j < list.sizeFlexibleTasks → j < (ts.set i task).length →
        list.flexibleTasks[j]? = (ts.set i task)[j]? := by
      intro j hj hjlen
      rw [hlen] at hjlen
      rw [getElem?_set_ne (by omega), h.flexible j hj hjlen]
    by_cases hslot : i = list.sizeFlexibleTasks ∧ i + 1 = ts.length
    · obtain ⟨t, ht, hu⟩ := h.slot (by omega)
      rw [if_pos hslot, hu]
      refine ⟨.task task, list.flexibleTasks, rfl, h.length_flexible, hfront, fun _ => ⟨task, rfl⟩,
        fun _ => ⟨task, ?_, rfl⟩, fun habove => ?_⟩
      · simp [← hslot.1, hi]
      · rw [hlen] at habove
        omega
    · have habove : list.sizeFlexibleTasks + 1 < ts.length := by omega
      rw [if_neg hslot, h.above habove]
      simp only
      rw [writeCell_of_lt (by rw [length_drop]; omega)]
      refine ⟨.tasks ((ts.set i task).drop list.sizeFlexibleTasks), list.flexibleTasks, ?_,
        h.length_flexible, hfront, fun hle => ?_, fun heq => ?_, fun _ => rfl⟩
      · rw [map_some, drop_set, if_neg hflex]
      · rw [hlen] at hle
        omega
      · rw [hlen] at heq
        omega

/-! ## Resizing -/

/-- **Room for one more task.** -/
theorem resizeWords_grow (h : Stores flexSize flexibleTasks u ts) :
    ∃ u' junk, resizeWords u flexSize ts.length (ts.length + 1) = some u' ∧
      Stores flexSize flexibleTasks u' (ts ++ [junk]) := by
  have hlen : ∀ junk : Task, (ts ++ [junk]).length = ts.length + 1 := fun _ => by simp
  have hfront : ∀ junk j, j < flexSize → j < ts.length →
      flexibleTasks[j]? = (ts ++ [junk])[j]? := by
    intro junk j hj hjlen
    rw [h.flexible j hj hjlen, getElem?_append_left hjlen]
  unfold resizeWords
  simp only
  rcases Nat.lt_trichotomy (ts.length + 1) (flexSize + 1) with hlt | heq | hgt
  · -- the new task is in the flexible array
    have hin : ts.length < flexibleTasks.length := by
      rw [h.length_flexible]
      omega
    rw [if_neg (by omega), if_neg (by omega), if_neg (by omega), if_neg (by omega)]
    refine ⟨u, flexibleTasks[ts.length], rfl, h.length_flexible, fun j hj hjlen => ?_, fun _ =>
      h.below (by omega), fun heq => ?_, fun habove => ?_⟩
    · rw [hlen] at hjlen
      rcases Nat.lt_succ_iff_lt_or_eq.mp hjlen with hjlen | rfl
      · exact hfront _ j hj hjlen
      · simp
    · rw [hlen] at heq
      omega
    · rw [hlen] at habove
      omega
  · -- the new task is in the union
    rw [if_pos heq, if_neg (by omega), if_pos (by omega)]
    refine ⟨.task 0, 0, rfl, h.length_flexible, fun j hj _ => hfront 0 j hj (by omega),
      fun _ => ⟨0, rfl⟩, fun _ => ⟨0, ?_, rfl⟩, fun habove => ?_⟩
    · rw [← Nat.succ.inj heq]
      simp
    · rw [hlen] at habove
      omega
  · -- the new task is in the array
    rw [if_neg (by omega), if_pos hgt]
    have hstores : Stores flexSize flexibleTasks (.tasks ((ts ++ [default]).drop flexSize))
        (ts ++ [default]) := by
      refine ⟨h.length_flexible, fun j hj _ => hfront _ j hj (by omega), fun hle => ?_,
        fun heq => ?_, fun _ => rfl⟩
      · rw [hlen] at hle
        omega
      · rw [hlen] at heq
        omega
    by_cases hslot : ts.length = flexSize + 1
    · obtain ⟨t, ht, rfl⟩ := h.slot hslot
      have hcells : ts.length + 1 - flexSize = 2 := by omega
      have hdrop : ts.drop flexSize = [t] := by
        obtain ⟨hi, rfl⟩ := List.getElem?_eq_some_iff.mp ht
        rw [drop_eq_getElem_cons hi, drop_eq_nil_of_le (by omega)]
      rw [if_pos hslot, hcells]
      refine ⟨_, default, ?_, hstores⟩
      rw [drop_append_of_le_length (by omega), hdrop]
      rfl
    · rw [if_neg hslot, h.above (by omega)]
      simp only
      refine ⟨_, default, ?_, hstores⟩
      rw [drop_append_of_le_length (by omega), Nat.sub_add_comm (by omega),
        realloc_succ (by rw [length_drop])]

/-- **The last task is given up.** -/
theorem resizeWords_shrink {t : Task} (h : Stores flexSize flexibleTasks u (ts ++ [t])) :
    ∃ u', resizeWords u flexSize (ts.length + 1) ts.length = some u' ∧
      Stores flexSize flexibleTasks u' ts := by
  have hlen : (ts ++ [t]).length = ts.length + 1 := by simp
  have hfront : ∀ j, j < flexSize → j < ts.length → flexibleTasks[j]? = ts[j]? := by
    intro j hj hjlen
    rw [h.flexible j hj (by omega), getElem?_append_left hjlen]
  unfold resizeWords
  simp only
  rcases Nat.lt_trichotomy ts.length (flexSize + 1) with hlt | heq | hgt
  · rw [if_neg (by omega), if_neg (by omega), if_neg (by omega)]
    by_cases hslot : ts.length + 1 = flexSize + 1
    · rw [if_pos hslot]
      exact ⟨.task 0, rfl, h.length_flexible, hfront, fun _ => ⟨0, rfl⟩, fun heq => by omega,
        fun habove => by omega⟩
    · rw [if_neg hslot]
      exact ⟨u, rfl, h.length_flexible, hfront, fun _ => h.below (by omega), fun heq => by omega,
        fun habove => by omega⟩
  · rw [if_pos heq, if_pos (by omega), h.above (by omega)]
    have hi : flexSize < ts.length := by omega
    refine ⟨.task ts[flexSize], ?_, h.length_flexible, hfront, fun _ => ⟨_, rfl⟩,
      fun _ => ⟨_, getElem?_eq_getElem hi, rfl⟩, fun habove => by omega⟩
    simp [getElem?_append_left hi]
  · rw [if_neg (by omega), if_pos hgt, if_neg (by omega), h.above (by omega)]
    refine ⟨.tasks (ts.drop flexSize), ?_, h.length_flexible, hfront, fun hle => by omega,
      fun heq => by omega, fun _ => rfl⟩
    simp only
    rw [realloc_of_le (by rw [length_drop, hlen]; omega), drop_append_of_le_length (by omega),
      take_append_of_le_length (by simp), take_of_length_le (by simp)]

/-- **All tasks are given up.** -/
theorem resizeWords_clear (h : Stores flexSize flexibleTasks u ts) :
    ∃ u', resizeWords u flexSize ts.length 0 = some u' ∧ Stores flexSize flexibleTasks u' [] := by
  have hstores : ∀ t, Stores flexSize flexibleTasks (.task t) [] := fun t =>
    ⟨h.length_flexible, fun j _ hj => absurd hj (Nat.not_lt_zero j), fun _ => ⟨t, rfl⟩,
      fun heq => by simp at heq, fun habove => absurd habove (Nat.not_lt_zero _)⟩
  unfold resizeWords
  simp only
  rw [if_neg (by omega), if_neg (by omega)]
  rcases Nat.lt_trichotomy ts.length (flexSize + 1) with hlt | heq | hgt
  · obtain ⟨t, rfl⟩ := h.below (by omega)
    rw [if_neg (by omega), if_neg (by omega)]
    exact ⟨_, rfl, hstores t⟩
  · rw [if_neg (by omega), if_pos heq]
    exact ⟨_, rfl, hstores 0⟩
  · rw [if_pos hgt, h.above hgt]
    exact ⟨_, rfl, hstores 0⟩

/-! ## Loops -/

theorem eraseIdx_set {next : Task} (hnext : ts[i + 1]? = some next) :
    (ts.set i next).eraseIdx (i + 1) = ts.eraseIdx i := by
  obtain ⟨hi, rfl⟩ := List.getElem?_eq_some_iff.mp hnext
  obtain ⟨xs, a, b, ys, rfl, rfl⟩ : ∃ xs a b ys, ts = xs ++ a :: b :: ys ∧ xs.length = i :=
    ⟨ts.take i, ts[i], ts[i + 1], ts.drop (i + 2), by simp, by simp; omega⟩
  rw [set_append_right _ _ (Nat.le_refl _), eraseIdx_append_of_length_le (by omega),
    eraseIdx_append_of_length_le (Nat.le_refl _)]
  simp [getElem_append_right]

/-- **The loop of `TaskList_RemoveTask`** closes the gap at `i`. -/
theorem moveTasks_spec (h : list.Stores ts) (hn : i + n + 1 = ts.length) :
    ∃ u flexibleTasks us t, moveTasks n i list = some { list with u, flexibleTasks } ∧
      Stores list.sizeFlexibleTasks flexibleTasks u (us ++ [t]) ∧ us = ts.eraseIdx i := by
  induction n generalizing list ts i with
  | zero =>
    refine ⟨list.u, list.flexibleTasks, ts.dropLast, ts.getLast ?_, rfl, ?_, ?_⟩
    · rintro rfl
      simp at hn
    · rw [dropLast_append_getLast]
      exact h.2
    · exact (eraseIdx_eq_dropLast hn).symm
  | succ n ih =>
    obtain ⟨next, hnext⟩ : ∃ next, ts[i + 1]? = some next :=
      ⟨_, getElem?_eq_getElem (by omega)⟩
    obtain ⟨u, flexibleTasks, hset, hstores⟩ := setTaskAtIndex_spec (i := i) h (by omega) next
    have hstored : TaskList.Stores { list with u, flexibleTasks } (ts.set i next) :=
      ⟨by rw [length_set]; exact h.1, hstores⟩
    have hlen : i + 1 + n + 1 = (ts.set i next).length := by
      rw [length_set]
      omega
    obtain ⟨u', flexibleTasks', us, t, hmove, hstores', hus⟩ := ih hstored hlen
    refine ⟨u', flexibleTasks', us, t, ?_, hstores', ?_⟩
    · rw [moveTasks, getTaskAtIndex_spec h (by omega), hnext]
      simp only [bind_eq_bind, bind_some, hset]
      exact hmove
    · rw [hus, eraseIdx_set hnext]

theorem findTaskIndexUpTo_spec (h : list.Stores ts) (hn : ts.Nodup) (task : Task)
    (hle : n ≤ ts.length) :
    findTaskIndexUpTo list task n = some ((ts.take n).findIdx? (· = task)) := by
  induction n with
  | zero => rfl
  | succ n ih =>
    obtain ⟨t, ht⟩ : ∃ t, ts[n]? = some t := ⟨_, getElem?_eq_getElem hle⟩
    rw [findTaskIndexUpTo, ih (by omega), getTaskAtIndex_spec h hle, ht]
    simp only [bind_eq_bind, bind_some, take_add_one, ht, toList_some,
      findIdx?_append, length_take, Nat.min_eq_left (Nat.le_of_lt hle)]
    by_cases heq : t = task
    · -- an earlier match would be a second one
      have hnone : (ts.take n).findIdx? (· = task) = none := by
        refine findIdx?_eq_none_iff.mpr fun t' ht' => ?_
        rw [← take_append_drop n ts, nodup_append] at hn
        have hmem : t ∈ ts.drop n := by
          rw [drop_eq_getElem_cons hle, ← (List.getElem?_eq_some_iff.mp ht).2]
          exact mem_cons_self
        simpa [heq] using hn.2.2 t' ht' t hmem
      simp [hnone, heq]
    · simp [heq]

/-- **The search gives the index of the task** when no task is there twice. -/
theorem findTaskIndex_spec (h : list.Stores ts) (hn : ts.Nodup) (task : Task) :
    findTaskIndex list task = some (ts.findIdx? (· = task)) := by
  rw [findTaskIndex, h.1, findTaskIndexUpTo_spec h hn task (Nat.le_refl _),
    take_of_length_le (Nat.le_refl _)]

end Mh40.Tasks
