import Mathlib
import Mh40.Lib.Refine
import Mh40.Tasks.Layout

/-!
# A task list is an ordered list of distinct tasks

* `Spec.step`: what the operations do to a list of tasks with data. `TaskList_AddTask` on a list
  with data leaves the data of the new task open (`none`).
* `Represents`: the tasks at the indexes below the size, and their data, are those of the list; the
  union holds a pointer exactly when more tasks are stored than the flexible array and the union
  have room for, and then to an array of the others.
* `list_refines_spec`: every run of operations that never holds more than `TASK_LIST_MAX_TASKS`
  tasks answers the run on the list. In particular no access is out of place.
-/

namespace Mh40.Tasks

open Lib Lib.HeapArray List Option

/-- A task and its data, when they are set. -/
abbrev Entry := Task × Option TaskListData

/-- An ordered list of distinct tasks. -/
structure Spec where
  listType : TaskListType
  entries : List Entry

namespace Spec

def tasks (s : Spec) : List Task := s.entries.map Prod.fst

/-- The task is put behind the others, if it is new. -/
def add (s : Spec) (task : Task) (data : Option TaskListData) : Spec × Bool :=
  if task ∈ s.tasks then (s, false)
  else ({ s with entries := s.entries ++ [(task, data)] }, true)

/-- The data of the task are replaced. -/
def setData (s : Spec) (task : Task) (data : TaskListData) : Spec :=
  { s with entries := s.entries.map fun e => if e.1 = task then (e.1, some data) else e }

/-- One operation. -/
def step (s : Spec) : Op → Option (Spec × Bool)
  | .addTask task => if task = 0 then none else some (s.add task none)
  | .addTaskWithData task data =>
    if s.listType = .withData then
      if task = 0 then none else some (s.add task (some data))
    else some (s, false)
  | .removeTask task =>
    if task = 0 then none
    else if task ∈ s.tasks then
      some ({ s with entries := s.entries.eraseP (·.1 = task) }, true)
    else some (s, false)
  | .setDataForTask task data =>
    if s.listType = .withData ∧ task ∈ s.tasks then some (s.setData task data, true)
    else some (s, false)
  | .removeAllTasks =>
    if s.listType = .withData then none else some ({ s with entries := [] }, true)

/-- The operation leaves at most `TASK_LIST_MAX_TASKS` tasks. -/
def Bounded (s : Spec) (op : Op) : Prop :=
  ∀ s' r, s.step op = some (s', r) → s'.entries.length ≤ taskListMaxTasks

end Spec

/-- The data of the entries, where they are set. -/
def DataOf (data : List TaskListData) (entries : List Entry) : Prop :=
  data.length = entries.length ∧
    ∀ (i : ℕ) task d, entries[i]? = some (task, some d) → data[i]? = some d

/-- The list represents the tasks and their data. -/
structure Represents (list : TaskList) (s : Spec) : Prop where
  size : list.sizeList = s.entries.length
  task : ∀ (i : ℕ) task d, s.entries[i]? = some (task, d) → getTaskAtIndex list i = some task
  data : s.listType = .withData → DataOf list.data s.entries
  nodup : s.tasks.Nodup
  listType : list.listType = s.listType
  pointer : (∃ tasks, list.u = .tasks tasks) ↔ list.sizeFlexibleTasks + 1 < list.sizeList
  length_flexible : list.flexibleTasks.length = list.sizeFlexibleTasks
  length_tasks : ∀ tasks, list.u = .tasks tasks →
    tasks.length = list.sizeList - list.sizeFlexibleTasks

variable {list : TaskList} {s : Spec} {entries : List Entry} {data : List TaskListData}
  {task : Task} {i n : ℕ}

/-- What the operations keep. -/
structure Holds (flexSize : ℕ) (list : TaskList) (s : Spec) : Prop where
  flexSize : list.sizeFlexibleTasks = flexSize
  stores : list.Stores s.tasks
  nodup : s.tasks.Nodup
  listType : list.listType = s.listType
  data : s.listType = .withData → DataOf list.data s.entries

theorem Holds.represents {flexSize : ℕ} (h : Holds flexSize list s) : Represents list s where
  size := by rw [h.stores.1, Spec.tasks, length_map]
  task := by
    intro i task d he
    have hi : i < s.tasks.length := by
      rw [Spec.tasks, length_map]
      exact (List.getElem?_eq_some_iff.mp he).1
    rw [getTaskAtIndex_spec h.stores hi, Spec.tasks, getElem?_map, he]
    rfl
  data := h.data
  nodup := h.nodup
  listType := h.listType
  pointer := by
    obtain ⟨hsize, hs⟩ := h.stores
    rw [hsize]
    constructor
    · rintro ⟨tasks, hu⟩
      by_contra hle
      rcases Nat.lt_or_eq_of_le (Nat.not_lt.mp hle) with hlt | heq
      · obtain ⟨t, ht⟩ := hs.below (Nat.lt_succ_iff.mp hlt)
        rw [hu] at ht
        cases ht
      · obtain ⟨t, _, ht⟩ := hs.slot heq
        rw [hu] at ht
        cases ht
    · intro hlt
      exact ⟨_, hs.above hlt⟩
  length_flexible := h.stores.2.length_flexible
  length_tasks := by
    obtain ⟨hsize, hs⟩ := h.stores
    intro tasks hu
    rcases Nat.lt_or_ge (list.sizeFlexibleTasks + 1) s.tasks.length with hlt | hle
    · rw [hs.above hlt] at hu
      cases hu
      rw [hsize, length_drop]
    · rcases Nat.lt_or_eq_of_le hle with hlt | heq
      · obtain ⟨t, ht⟩ := hs.below (Nat.lt_succ_iff.mp hlt)
        rw [hu] at ht
        cases ht
      · obtain ⟨t, _, ht⟩ := hs.slot heq
        rw [hu] at ht
        cases ht

/-! ## Data -/

/-- Room for the data of one more task. -/
theorem dataOf_append (h : DataOf data entries) (task : Task) :
    DataOf (realloc data (entries.length + 1)) (entries ++ [(task, none)]) := by
  rw [realloc_succ h.1]
  refine ⟨by simp [h.1], fun i task' d he => ?_⟩
  rw [getElem?_append] at he
  split at he
  · rename_i hi
    rw [getElem?_append_left (by rw [h.1]; exact hi)]
    exact h.2 i task' d he
  · rw [getElem?_singleton] at he
    split at he <;> cases he

/-- The data of the last task are set. -/
theorem dataOf_set_last (h : DataOf data (entries ++ [(task, none)])) (d : TaskListData) :
    DataOf (data.set entries.length d) (entries ++ [(task, some d)]) := by
  have hlen : data.length = entries.length + 1 := by simpa using h.1
  refine ⟨by simp [hlen], fun i task' d' he => ?_⟩
  rw [getElem?_append] at he
  split at he
  · rename_i hi
    rw [getElem?_set_ne (by omega)]
    exact h.2 i task' d' (by rw [getElem?_append_left hi]; exact he)
  · rw [getElem?_singleton] at he
    split at he
    · cases he
      have hi : i = entries.length := by omega
      rw [hi, getElem?_set_self (by omega)]
    · cases he

/-- The data of the task at index `n` are set. -/
theorem dataOf_setData (h : DataOf data s.entries) (hn : s.tasks.Nodup)
    (hi : s.tasks[n]? = some task) (d : TaskListData) :
    DataOf (data.set n d) (s.setData task d).entries := by
  have hlt : n < data.length := by
    have := (List.getElem?_eq_some_iff.mp hi).1
    rwa [Spec.tasks, length_map, ← h.1] at this
  refine ⟨by simp [Spec.setData, h.1], fun i task' d' he => ?_⟩
  rw [Spec.setData, getElem?_map] at he
  obtain ⟨⟨task'', old⟩, he', hmap⟩ := map_eq_some_iff.mp he
  have htask : s.tasks[i]? = some task'' := by rw [Spec.tasks, getElem?_map, he']; rfl
  by_cases heq : task'' = task
  · subst heq
    have hin : i = n := (getElem?_inj (List.getElem?_eq_some_iff.mp htask).1 hn).mp
      (htask.trans hi.symm)
    subst hin
    simp only [if_true] at hmap
    cases hmap
    rw [getElem?_set_self hlt]
  · simp only [heq, if_false] at hmap
    cases hmap
    have hne : n ≠ i := by
      rintro rfl
      exact heq (some.inj (htask.symm.trans hi))
    rw [getElem?_set_ne hne]
    exact h.2 i task' d' he'

/-- The data of the task at index `n` are given up. -/
theorem dataOf_eraseIdx (h : DataOf data entries) (hn : n < entries.length) :
    DataOf (realloc (memmove data n (n + 1) (entries.length - n - 1)) (entries.length - 1))
      (entries.eraseIdx n) := by
  obtain ⟨hlen, hdata⟩ := h
  obtain ⟨xs, a, ys, rfl, rfl⟩ : ∃ xs a ys, data = xs ++ a :: ys ∧ xs.length = n :=
    ⟨data.take n, data[n], data.drop (n + 1), by simp, by simp; omega⟩
  rw [length_append, length_cons] at hlen
  rw [show entries.length - xs.length - 1 = ys.length by omega,
    show entries.length - 1 = xs.length + ys.length by omega, erase_append_exact rfl rfl]
  refine ⟨by rw [length_eraseIdx_of_lt hn, length_append]; omega, fun i task d he => ?_⟩
  rw [getElem?_eraseIdx] at he
  split at he
  · rename_i hi
    have := hdata i task d he
    rwa [getElem?_append_left hi] at this ⊢
  · rename_i hi
    have := hdata (i + 1) task d he
    rw [getElem?_append_right (by omega), Nat.succ_sub (by omega),
      getElem?_cons_succ] at this
    rwa [getElem?_append_right (by omega)]

/-! ## Operations -/

variable {flexSize : ℕ}

theorem Holds.findTaskIndex (h : Holds flexSize list s) (task : Task) :
    Tasks.findTaskIndex list task = some (s.tasks.findIdx? (· = task)) :=
  findTaskIndex_spec h.stores h.nodup task

theorem findIdx?_of_notMem (hnew : task ∉ s.tasks) : s.tasks.findIdx? (· = task) = none := by
  refine findIdx?_eq_none_iff.mpr fun t ht => ?_
  simp only [decide_eq_false_iff_not]
  rintro rfl
  exact hnew ht

/-- `TaskList_AddTask` of a task that is there. -/
theorem addTask_of_mem (h : Holds flexSize list s) (hne : task ≠ 0) (hmem : task ∈ s.tasks) :
    addTask list task = some (false, list) := by
  have hfound : (s.tasks.findIdx? (· = task)).isSome = true := by
    rw [findIdx?_isSome, List.any_eq_true]
    exact ⟨task, hmem, by simp⟩
  rw [addTask, if_neg hne, h.findTaskIndex]
  simp [hfound]

/-- **`TaskList_AddTask`** puts a new task behind the others. -/
theorem addTask_of_notMem (h : Holds flexSize list s) (hne : task ≠ 0) (hnew : task ∉ s.tasks)
    (hlt : s.entries.length < taskListMaxTasks) :
    ∃ list', addTask list task = some (true, list') ∧
      Holds flexSize list' { s with entries := s.entries ++ [(task, none)] } := by
  have hfound := findIdx?_of_notMem hnew
  obtain ⟨hsize, hs⟩ := h.stores
  have hlen : s.tasks.length = s.entries.length := length_map _
  have hmod : (s.tasks.length + 1) % 2 ^ taskListSizeBits = s.tasks.length + 1 := by
    unfold taskListMaxTasks taskListSizeBits at *
    omega
  obtain ⟨u, junk, hu, hgrown⟩ := resizeWords_grow hs
  have hresize : resize list (s.tasks.length + 1) = some { list with
      u, data := resizeData list (s.tasks.length + 1), sizeList := s.tasks.length + 1 } := by
    rw [resize, hsize, hu, map_some, sizeSet, hmod]
  have hgrown' : TaskList.Stores { list with
      u, data := resizeData list (s.tasks.length + 1), sizeList := s.tasks.length + 1 }
      (s.tasks ++ [junk]) := ⟨by simp, hgrown⟩
  obtain ⟨u', flexibleTasks, hset, hstores⟩ :=
    setTaskAtIndex_spec (i := s.tasks.length) hgrown' (by simp) task
  rw [set_append_right _ _ (Nat.le_refl _)] at hstores
  simp only [Nat.sub_self, set_cons_zero] at hstores
  refine ⟨{ list with
    u := u', flexibleTasks, data := resizeData list (s.tasks.length + 1)
    sizeList := s.tasks.length + 1 }, ?_, h.flexSize, ⟨?_, ?_⟩, ?_, h.listType, fun hdata => ?_⟩
  · have hlast : lastIndex { list with
        u, data := resizeData list (s.tasks.length + 1), sizeList := s.tasks.length + 1 } =
        s.tasks.length := lastIndex_eq rfl
    rw [addTask, if_neg hne, h.findTaskIndex, hfound]
    simp [hsize, hresize, hlast, hset]
  · simp [Spec.tasks]
  · simpa [Spec.tasks] using hstores
  · simp only [Spec.tasks, map_append, map_cons, map_nil]
    exact nodup_append.mpr ⟨h.nodup, nodup_singleton _, by
      rintro t ht t' ht' rfl
      rw [mem_singleton.mp ht'] at ht
      exact hnew ht⟩
  · have := dataOf_append (h.data hdata) task
    rw [← hlen] at this
    simpa [resizeData, h.listType.trans hdata] using this

theorem add_of_mem (hmem : task ∈ s.tasks) (d : Option TaskListData) :
    s.add task d = (s, false) :=
  if_pos hmem

theorem add_of_notMem (hnew : task ∉ s.tasks) (d : Option TaskListData) :
    s.add task d = ({ s with entries := s.entries ++ [(task, d)] }, true) :=
  if_neg hnew

section

variable (h : Holds flexSize list s)
include h

/-- **`TaskList_AddTaskWithData`** puts a new task with its data behind the others. -/
theorem addTaskWithData_of_notMem (hdata : s.listType = .withData) (hne : task ≠ 0)
    (hnew : task ∉ s.tasks) (hlt : s.entries.length < taskListMaxTasks) (d : TaskListData) :
    ∃ list', addTaskWithData list task d = some (true, list') ∧
      Holds flexSize list' { s with entries := s.entries ++ [(task, some d)] } := by
  obtain ⟨list', hadd, h'⟩ := addTask_of_notMem h hne hnew hlt
  have hdata' := h'.data hdata
  have hlast : lastIndex list' = s.entries.length := by
    have hsize := h'.stores.1
    simp only [Spec.tasks, map_append, length_append, length_map, map_cons,
      map_nil, length_cons, length_nil] at hsize
    exact lastIndex_eq hsize
  have hin : lastIndex list' < list'.data.length := by
    rw [hlast, hdata'.1]
    simp
  refine ⟨{ list' with data := list'.data.set (lastIndex list') d }, ?_, h'.flexSize, ?_, ?_,
    h'.listType, fun _ => ?_⟩
  · simp [addTaskWithData, isTaskListWithData, h.listType, hdata, hadd, writeData, hin]
  · have := h'.stores
    simp only [Spec.tasks, map_append, map_cons, map_nil] at this ⊢
    exact this
  · simpa [Spec.tasks] using h'.nodup
  · rw [hlast]
    exact dataOf_set_last hdata' d

/-- **`TaskList_RemoveTask`** takes the task out, and nothing else. -/
theorem removeTask_of_mem (hne : task ≠ 0) (hmem : task ∈ s.tasks)
    (hle : s.entries.length ≤ taskListMaxTasks) :
    ∃ list', removeTask list task = some (true, list') ∧
      Holds flexSize list' { s with entries := s.entries.eraseP (·.1 = task) } := by
  obtain ⟨index, hindex⟩ : ∃ index, s.tasks.findIdx? (· = task) = some index := by
    rw [← isSome_iff_exists, findIdx?_isSome, List.any_eq_true]
    exact ⟨task, hmem, by simp⟩
  have herase : s.entries.eraseP (·.1 = task) = s.entries.eraseIdx index := by
    rw [eraseP_eq_eraseIdx]
    rw [Spec.tasks, findIdx?_map] at hindex
    rw [show s.entries.findIdx? (fun e => decide (e.1 = task)) = some index from hindex]
  have htasks : (s.entries.eraseIdx index).map Prod.fst = s.tasks.eraseIdx index :=
    (eraseIdx_map _ _ _).symm
  have hlt : index < s.tasks.length := (findIdx?_eq_some_iff_getElem.mp hindex).1
  have hlen : s.tasks.length = s.entries.length := length_map _
  obtain ⟨hsize, hs⟩ := h.stores
  obtain ⟨u, flexibleTasks, us, t, hmove, hstores, hus⟩ :=
    moveTasks_spec (n := s.tasks.length - 1 - index) (i := index) h.stores (by omega)
  have huslen : us.length + 1 = s.tasks.length := by
    rw [hus, length_eraseIdx_of_lt hlt]
    omega
  obtain ⟨u', hu', hshrunk⟩ := resizeWords_shrink hstores
  have hmod : us.length % 2 ^ taskListSizeBits = us.length := by
    unfold taskListMaxTasks taskListSizeBits at *
    omega
  refine ⟨{ list with
    u := u', flexibleTasks, sizeList := us.length
    data := resizeData { list with data := moveData list index } us.length }, ?_, h.flexSize,
    ⟨?_, ?_⟩, ?_, h.listType, fun hdata => ?_⟩
  · have hpred : list.sizeList - 1 = us.length := by omega
    have hresize : resize { list with u, flexibleTasks, data := moveData list index } us.length =
        some { list with
          u := u', flexibleTasks, sizeList := us.length
          data := resizeData { list with data := moveData list index } us.length } := by
      rw [huslen, ← hsize] at hu'
      simp only [resize, hu', map_some, sizeSet, hmod]
      rfl
    rw [← hsize] at hmove
    rw [removeTask, if_neg hne, h.findTaskIndex, hindex]
    simp only [bind_eq_bind, bind_some]
    rw [hmove]
    simp only [bind_some]
    rw [hpred]
    exact congrArg (fun r => r.bind fun list => some (true, list)) hresize
  · rw [herase, Spec.tasks, htasks, ← hus]
  · rw [herase, Spec.tasks, htasks, ← hus]
    exact hshrunk
  · rw [herase, Spec.tasks, htasks]
    exact h.nodup.sublist (eraseIdx_sublist _ _)
  · have hdataOf := dataOf_eraseIdx (h.data hdata) (hlen ▸ hlt)
    have hpred : us.length = s.entries.length - 1 := by omega
    have hresized : resizeData { list with data := moveData list index } us.length =
        realloc (memmove list.data index (index + 1) (s.entries.length - index - 1))
          (s.entries.length - 1) := by
      have htype : list.listType = .withData := h.listType.trans hdata
      simp only [resizeData, moveData, htype, hsize, hlen, ← hpred]
      split_ifs with hzero
      · rfl
      · rw [Decidable.not_not.mp hzero, realloc, cells, take_zero]
    rw [herase]
    exact hresized ▸ hdataOf

/-- **`TaskList_SetDataForTask`** sets the data of a task that is there. -/
theorem setDataForTask_of_mem (hdata : s.listType = .withData) (hmem : task ∈ s.tasks)
    (d : TaskListData) :
    ∃ list', setDataForTask list task d = some (true, list') ∧
      Holds flexSize list' (s.setData task d) := by
  obtain ⟨index, hindex⟩ : ∃ index, s.tasks.findIdx? (· = task) = some index := by
    rw [← isSome_iff_exists, findIdx?_isSome, List.any_eq_true]
    exact ⟨task, hmem, by simp⟩
  obtain ⟨hlt, hfound, _⟩ := findIdx?_eq_some_iff_getElem.mp hindex
  have hget : s.tasks[index]? = some task := by
    rw [getElem?_eq_getElem hlt]
    simpa using hfound
  have htasks : (s.setData task d).tasks = s.tasks := by
    rw [Spec.tasks, Spec.setData, List.map_map]
    refine map_congr_left fun e _ => ?_
    simp only [Function.comp_apply]
    split <;> rfl
  have hin : index < list.data.length := by
    rwa [(h.data hdata).1, ← length_map (f := Prod.fst)]
  refine ⟨{ list with data := list.data.set index d }, ?_, h.flexSize, ?_, ?_, h.listType,
    fun _ => dataOf_setData (h.data hdata) h.nodup hget d⟩
  · simp [setDataForTask, isTaskListWithData, h.listType, hdata, h.findTaskIndex, hindex, writeData,
      hin]
  · rw [htasks]
    exact h.stores
  · rw [htasks]
    exact h.nodup

/-- **`TaskList_RemoveAllTasks`** empties a list without data. -/
theorem removeAllTasks_spec (hdata : s.listType ≠ .withData) :
    ∃ list', removeAllTasks list = some list' ∧
      Holds flexSize list' { s with entries := [] } := by
  obtain ⟨hsize, hs⟩ := h.stores
  obtain ⟨u, hu, hcleared⟩ := resizeWords_clear hs
  refine ⟨{ list with u, data := resizeData list 0, sizeList := 0 }, ?_, h.flexSize,
    ⟨rfl, hcleared⟩, nodup_nil, h.listType, fun hd => absurd hd hdata⟩
  rw [removeAllTasks, if_neg (by rwa [h.listType]), resize, hsize, hu]
  rfl

end

/-! ## The refinement -/

/-- **Every operation answers the operation on the list.** -/
theorem step_answers (list : TaskList) (s : Spec) (op : Op)
    (h : Holds flexSize list s ∧ s.entries.length ≤ taskListMaxTasks) (hb : s.Bounded op) :
    Answers (fun list s => Holds flexSize list s ∧ s.entries.length ≤ taskListMaxTasks)
      (step list op) (s.step op) := by
  obtain ⟨h, hle⟩ := h
  cases op with
  | addTask task =>
    by_cases hne : task = 0
    · simp [step, Spec.step, addTask, hne, Answers]
    by_cases hmem : task ∈ s.tasks
    · rw [Spec.step, if_neg hne, add_of_mem hmem]
      exact ⟨list, by rw [step, addTask_of_mem h hne hmem]; rfl, h, hle⟩
    · have hs : s.step (.addTask task) =
          some ({ s with entries := s.entries ++ [(task, none)] }, true) := by
        rw [Spec.step, if_neg hne, add_of_notMem hmem]
      have hlt := hb _ _ hs
      obtain ⟨list', hadd, h'⟩ := addTask_of_notMem h hne hmem (by simpa using hlt)
      rw [hs]
      exact ⟨list', by rw [step, hadd]; rfl, h', hlt⟩
  | addTaskWithData task d =>
    by_cases hdata : s.listType = .withData
    · have hwith : isTaskListWithData list = true := by
        simp [isTaskListWithData, h.listType, hdata]
      by_cases hne : task = 0
      · simp [step, Spec.step, addTaskWithData, hwith, hdata, addTask, hne, Answers]
      by_cases hmem : task ∈ s.tasks
      · rw [Spec.step, if_pos hdata, if_neg hne, add_of_mem hmem]
        refine ⟨list, ?_, h, hle⟩
        simp [step, addTaskWithData, hwith, addTask_of_mem h hne hmem]
      · have hs : s.step (.addTaskWithData task d) =
            some ({ s with entries := s.entries ++ [(task, some d)] }, true) := by
          rw [Spec.step, if_pos hdata, if_neg hne, add_of_notMem hmem]
        have hlt := hb _ _ hs
        obtain ⟨list', hadd, h'⟩ :=
          addTaskWithData_of_notMem h hdata hne hmem (by simpa using hlt) d
        rw [hs]
        exact ⟨list', by rw [step, hadd]; rfl, h', hlt⟩
    · rw [Spec.step, if_neg hdata]
      refine ⟨list, ?_, h, hle⟩
      simp [step, addTaskWithData, isTaskListWithData, h.listType, hdata]
  | removeTask task =>
    by_cases hne : task = 0
    · simp [step, Spec.step, removeTask, hne, Answers]
    by_cases hmem : task ∈ s.tasks
    · obtain ⟨list', hremove, h'⟩ := removeTask_of_mem h hne hmem hle
      rw [Spec.step, if_neg hne, if_pos hmem]
      refine ⟨list', by rw [step, hremove]; rfl, h', Nat.le_trans ?_ hle⟩
      exact eraseP_sublist.length_le
    · rw [Spec.step, if_neg hne, if_neg hmem]
      refine ⟨list, ?_, h, hle⟩
      rw [step, removeTask, if_neg hne, h.findTaskIndex, findIdx?_of_notMem hmem]
      rfl
  | setDataForTask task d =>
    by_cases hset : s.listType = .withData ∧ task ∈ s.tasks
    · obtain ⟨list', hdata, h'⟩ := setDataForTask_of_mem h hset.1 hset.2 d
      rw [Spec.step, if_pos hset]
      exact ⟨list', by rw [step, hdata]; rfl, h', by simpa [Spec.setData] using hle⟩
    · rw [Spec.step, if_neg hset]
      refine ⟨list, ?_, h, hle⟩
      by_cases hdata : s.listType = .withData
      · have hmem : task ∉ s.tasks := fun hmem => hset ⟨hdata, hmem⟩
        simp [step, setDataForTask, isTaskListWithData, h.listType, hdata, h.findTaskIndex,
          findIdx?_of_notMem hmem]
      · simp [step, setDataForTask, isTaskListWithData, h.listType, hdata]
  | removeAllTasks =>
    by_cases hdata : s.listType = .withData
    · simp [step, Spec.step, removeAllTasks, h.listType, hdata, Answers]
    · obtain ⟨list', hremove, h'⟩ := removeAllTasks_spec h hdata
      rw [Spec.step, if_neg hdata]
      exact ⟨list', by rw [step, hremove]; rfl, h', Nat.zero_le _⟩

/-- **A task list is an ordered list of distinct tasks.** A run from a list that represents it,
which never holds more than `TASK_LIST_MAX_TASKS` tasks, returns what the run on the list returns,
and leaves a list that represents it. -/
theorem list_refines_spec (ops : List Op) :
    (∀ capacity, 1 ≤ capacity → capacity ≤ taskListMaxTasks →
      Meets (silent Spec.step) Spec.Bounded ⟨.standard, []⟩ ops →
      ∃ list, initialiseWithCapacity capacity = some list ∧
        Answers (fun list s => list.sizeFlexibleTasks + 1 = capacity ∧ Represents list s)
          (outputs step list ops) (outputs Spec.step ⟨.standard, []⟩ ops)) ∧
    (Meets (silent Spec.step) Spec.Bounded ⟨.withData, []⟩ ops →
      Answers Represents (outputs step withDataInitialise ops)
        (outputs Spec.step ⟨.withData, []⟩ ops)) := by
  constructor
  · intro capacity hpos hcap hops
    refine ⟨_, if_pos hcap, ?_⟩
    have hholds : Holds (capacity - 1) ⟨0, capacity - 1, .standard, .task 0,
        List.replicate (capacity - 1) 0, []⟩ ⟨.standard, []⟩ := by
      refine ⟨rfl, ⟨rfl, List.length_replicate, ?_, fun _ => ⟨0, rfl⟩, ?_, ?_⟩, List.nodup_nil, rfl,
        fun hdata => by cases hdata⟩
      · exact fun i _ hi => absurd hi (Nat.not_lt_zero i)
      · exact fun heq => by cases heq
      · exact fun habove => absurd habove (Nat.not_lt_zero _)
    refine (outputs_answers step_answers ⟨hholds, Nat.zero_le _⟩ hops).mono ?_
    rintro list s ⟨h, _⟩
    exact ⟨by rw [h.flexSize]; omega, h.represents⟩
  · intro hops
    have hholds : Holds 0 withDataInitialise ⟨.withData, []⟩ := by
      refine ⟨rfl, ⟨rfl, rfl, ?_, fun _ => ⟨0, rfl⟩, ?_, ?_⟩, List.nodup_nil, rfl,
        fun _ => ⟨rfl, ?_⟩⟩
      · exact fun i _ hi => absurd hi (Nat.not_lt_zero i)
      · exact fun heq => by cases heq
      · exact fun habove => absurd habove (Nat.not_lt_zero _)
      · exact fun i _ _ he => by cases he
    refine (outputs_answers step_answers ⟨hholds, Nat.zero_le _⟩ hops).mono ?_
    rintro list s ⟨h, _⟩
    exact h.represents

/-- Two tasks in a list for one, the first of them removed. -/
theorem list_refines_spec_three :
    ∃ list, initialiseWithCapacity 1 = some list ∧
      Answers (fun list s => list.sizeFlexibleTasks + 1 = 1 ∧ Represents list s)
        (outputs step list [.addTask 5, .addTask 6, .removeTask 5])
        (outputs Spec.step ⟨.standard, []⟩ [.addTask 5, .addTask 6, .removeTask 5]) := by
  refine (list_refines_spec _).1 1 (by decide) (by decide) ⟨?_, ?_, ?_, trivial⟩ <;>
    rintro _ _ ⟨⟩ <;> decide

end Mh40.Tasks
