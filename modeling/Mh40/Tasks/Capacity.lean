import Mh40.Tasks.Refinement

/-!
# How many tasks a list holds

`TaskList_AddTask` does not look at `TASK_LIST_MAX_TASKS`: with that many tasks the size of the
list, a bit field, becomes 0, and the new task is written far behind the array.

* `Represents.holds`: a list that represents tasks stores them in the three places.
* `Adds`: what adding a new task is to do; `adds_iff`: when it does.
* `not_adds_full`: a list of 15 tasks.
-/

namespace Mh40.Tasks

open List Option

variable {list list' : TaskList} {s : Spec} {task : Task} {i : ℕ}

/-- **A list that represents tasks stores them.** -/
theorem Represents.holds (h : Represents list s) : Holds list.sizeFlexibleTasks list s := by
  have hlen : s.tasks.length = list.sizeList := by
    rw [h.size, Spec.tasks, length_map]
  have hget : ∀ i < s.tasks.length, getTaskAtIndex list i = s.tasks[i]? := by
    intro i hi
    have hi' : i < s.entries.length := by rwa [Spec.tasks, length_map] at hi
    have hentry : s.entries[i]? = some (s.entries[i].1, s.entries[i].2) :=
      getElem?_eq_getElem hi'
    rw [h.task i _ _ hentry, Spec.tasks, getElem?_map, hentry]
    rfl
  have hnoPointer : ¬list.sizeFlexibleTasks + 1 < list.sizeList → ∃ t, list.u = .task t := by
    intro hle
    cases hu : list.u with
    | task t => exact ⟨t, rfl⟩
    | tasks tasks => exact absurd (h.pointer.mp ⟨tasks, hu⟩) hle
  refine ⟨rfl, ⟨hlen.symm, h.length_flexible, fun i hi hilen => ?_, fun hle => ?_, fun heq => ?_,
    fun habove => ?_⟩, h.nodup, h.listType, h.data⟩
  · rw [← hget i hilen]
    unfold getTaskAtIndex
    rw [if_pos hi]
  · exact hnoPointer (by omega)
  · obtain ⟨t, ht⟩ := hnoPointer (by omega)
    refine ⟨t, ?_, ht⟩
    rw [← hget _ (by omega)]
    unfold getTaskAtIndex
    rw [if_neg (Nat.lt_irrefl _), if_pos ⟨rfl, by omega⟩, ht]
  · obtain ⟨tasks, hu⟩ := h.pointer.mpr (hlen ▸ habove)
    have htasks := h.length_tasks tasks hu
    rw [hu]
    refine congrArg Words.tasks (ext_getElem? fun j => ?_)
    rw [getElem?_drop]
    by_cases hj : list.sizeFlexibleTasks + j < s.tasks.length
    · rw [← hget _ hj]
      unfold getTaskAtIndex
      rw [if_neg (by omega), if_neg (by omega), hu]
      dsimp only
      rw [Nat.add_sub_cancel_left]
    · rw [getElem?_eq_none (by omega), getElem?_eq_none (by omega)]

/-! ## Adding a new task -/

/-- What adding a new task is to do: the list has one task more, which is read where it has been
written, or stays as it is. -/
def Adds (list : TaskList) (task : Task) : Prop :=
  (∃ list', addTask list task = some (true, list') ∧ list'.sizeList = list.sizeList + 1 ∧
    getTaskAtIndex list' list.sizeList = some task) ∨
  addTask list task = some (false, list)

/-- Writing a task leaves the sizes and the place of the flexible array. -/
theorem setTaskAtIndex_frame (h : setTaskAtIndex list task i = some list') :
    list'.sizeList = list.sizeList ∧ list'.sizeFlexibleTasks = list.sizeFlexibleTasks ∧
      list'.listType = list.listType ∧
      list'.flexibleTasks.length = list.flexibleTasks.length := by
  unfold setTaskAtIndex writeCell at h
  split_ifs at h
  · obtain rfl := some.inj h
    exact ⟨rfl, rfl, rfl, length_set⟩
  · cases h
  · split at h
    · obtain rfl := some.inj h
      exact ⟨rfl, rfl, rfl, rfl⟩
    · cases h
  · split at h
    · cases h
    · split_ifs at h
      · obtain rfl := some.inj h
        exact ⟨rfl, rfl, rfl, rfl⟩
      · cases h

/-- The size of the list is stored in its bit field. -/
theorem sizeList_resize {newSize : ℕ} (h : resize list newSize = some list') :
    list'.sizeList = newSize % 2 ^ taskListSizeBits := by
  obtain ⟨u, -, rfl⟩ := map_eq_some_iff.mp h
  rfl

/-- **A new task is added iff** the list has fewer than `TASK_LIST_MAX_TASKS`. -/
theorem adds_iff (h : Represents list s) (hne : task ≠ 0) (hnew : task ∉ s.tasks) :
    Adds list task ↔ list.sizeList < taskListMaxTasks := by
  have hholds := h.holds
  constructor
  · intro hadds
    have hadd : addTask list task = (resize list (list.sizeList + 1)).bind fun list =>
        (setTaskAtIndex list task (lastIndex list)).bind fun list => some (true, list) := by
      rw [addTask, if_neg hne, hholds.findTaskIndex, findIdx?_of_notMem hnew]
      rfl
    unfold Adds at hadds
    rw [hadd] at hadds
    rcases hadds with ⟨list', hlist, hsize, -⟩ | hfalse
    · obtain ⟨list₁, hresize, hrest⟩ := Option.bind_eq_some_iff.mp hlist
      obtain ⟨list₂, hset, hsome⟩ := Option.bind_eq_some_iff.mp hrest
      obtain rfl : list₂ = list' := congrArg Prod.snd (Option.some.inj hsome)
      rw [(setTaskAtIndex_frame hset).1, sizeList_resize hresize] at hsize
      unfold taskListMaxTasks
      unfold taskListSizeBits at hsize ⊢
      omega
    · obtain ⟨list₁, -, hrest⟩ := Option.bind_eq_some_iff.mp hfalse
      obtain ⟨list₂, -, hsome⟩ := Option.bind_eq_some_iff.mp hrest
      cases congrArg Prod.fst (Option.some.inj hsome)
  · intro hlt
    rw [h.size] at hlt
    obtain ⟨list', hadd, h'⟩ := addTask_of_notMem hholds hne hnew hlt
    have hrep := h'.represents
    refine .inl ⟨list', hadd, ?_, ?_⟩
    · rw [hrep.size, h.size]
      exact List.length_append
    · rw [h.size]
      exact hrep.task _ task none (List.getElem?_concat_length)

/-- Two tasks on the heap. -/
def twoTasks : TaskList := ⟨2, 0, .standard, .tasks [3, 4], [], []⟩

theorem represents_twoTasks : Represents twoTasks ⟨.standard, [(3, none), (4, none)]⟩ := by
  have hstores : Stores 0 [] (.tasks [3, 4]) [3, 4] :=
    ⟨rfl, fun i hi => absurd hi (Nat.not_lt_zero i), fun hle => absurd hle (by decide),
      fun heq => absurd heq (by decide), fun _ => rfl⟩
  exact (⟨rfl, ⟨rfl, hstores⟩, by decide, rfl, fun h => (nomatch h)⟩ :
    Holds 0 twoTasks ⟨.standard, [(3, none), (4, none)]⟩).represents

theorem adds_iff_twoTasks : Adds twoTasks 5 ↔ 2 < taskListMaxTasks :=
  adds_iff represents_twoTasks (by decide) (by decide)

/-- A list with `TASK_LIST_MAX_TASKS` tasks. -/
def fullList : TaskList := ⟨15, 0, .standard, .tasks (List.range' 1 15), [], []⟩

/-- **Not every new task is added**: with 15 tasks, the new one is written outside of the array. -/
theorem not_adds_full : ¬ ∀ (list : TaskList) (s : Spec) (task : Task),
    Represents list s → task ≠ 0 → task ∉ s.tasks → Adds list task := by
  intro h
  have hstores : Stores 0 [] (.tasks (List.range' 1 15)) (List.range' 1 15) :=
    ⟨rfl, fun i hi => absurd hi (Nat.not_lt_zero i), fun hle => absurd hle (by decide),
      fun heq => absurd heq (by decide), fun _ => rfl⟩
  have hholds : Holds 0 fullList ⟨.standard, (List.range' 1 15).map fun t => (t, none)⟩ :=
    ⟨rfl, ⟨rfl, hstores⟩, by decide, rfl, fun h => (nomatch h)⟩
  have hadds := h fullList _ 16 hholds.represents (by decide) (by decide)
  have hnone : addTask fullList 16 = none := by decide
  unfold Adds at hadds
  rw [hnone] at hadds
  rcases hadds with ⟨_, hadd, -⟩ | hadd <;> cases hadd

end Mh40.Tasks
