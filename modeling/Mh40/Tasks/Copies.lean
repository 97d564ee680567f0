import Mh40.Tasks.Capacity

/-!
# Copies of a list

`TaskList_Duplicate` asks `TaskList_CreateWithCapacity` for as many tasks as the flexible array of
the list has, which makes room for one less there, and then takes over the sizes of the list.

* `Blocks`, `duplicateBlocks`: the blocks of a list, and those that its copy is made of.
* `Duplicated`: what a copy is to be; `duplicated_iff`: when it is.
* `not_duplicated_two`: a list with a capacity of 2.
-/

namespace Mh40.Tasks

open Lib Lib.HeapArray List Option

/-! ## Blocks -/

/-- The blocks on the heap that hold a list: the list with its flexible array, the array of tasks
and the data. A block is named by the number of its allocation. -/
structure Blocks where
  list : ℕ
  tasks : Option ℕ
  data : Option ℕ
  deriving DecidableEq, Repr

/-- The blocks that are there. -/
def Blocks.all (blocks : Blocks) : List ℕ :=
  blocks.list :: blocks.tasks.toList ++ blocks.data.toList

/-- The array of tasks after `taskList_Resize`, with the number of allocations. -/
def resizeTasksBlock (tasks : Option ℕ) (flexSize oldSize newSize next : ℕ) : Option ℕ × ℕ :=
  if newSize > flexSize + 1 then (some next, next + 1)
  else if oldSize > flexSize + 1 then (none, next)
  else (tasks, next)

/-- The data after `taskList_Resize`, with the number of allocations. -/
def resizeDataBlock (data : Option ℕ) (listType : TaskListType) (newSize next : ℕ) :
    Option ℕ × ℕ :=
  match listType with
  | .withData => if newSize ≠ 0 then (some next, next + 1) else (none, next)
  | .standard => (data, next)

/-- The blocks of the copy, after `next` allocations: the pointers of the old list are not taken
over. -/
def duplicateBlocks (list : TaskList) (next : ℕ) : Blocks :=
  let (tasks, next') :=
    resizeTasksBlock none list.sizeFlexibleTasks list.sizeList list.sizeList (next + 1)
  let (data, _) := resizeDataBlock none list.listType list.sizeList next'
  ⟨next, tasks, data⟩

/-- What a copy is to be: the same tasks and data in the same order, a flexible array with as many
slots as the list says, blocks of its own, and a list that all operations work on. -/
def Duplicated (list : TaskList) (s : Spec) (blocks : Blocks) (next : ℕ) : Prop :=
  ∃ copy, duplicate list = some copy ∧
    copy.listType = list.listType ∧ copy.sizeList = list.sizeList ∧
    (∀ i < list.sizeList, (getTaskAtIndex list i).isSome ∧
      getTaskAtIndex copy i = getTaskAtIndex list i) ∧
    (list.listType = .withData → copy.data = list.data) ∧
    copy.flexibleTasks.length = copy.sizeFlexibleTasks ∧
    List.Disjoint (duplicateBlocks list next).all blocks.all ∧
    ∀ ops, Meets (silent Spec.step) Spec.Bounded s ops →
      Answers Represents (outputs step copy ops) (outputs Spec.step s ops)

variable {list copy newList : TaskList} {s : Spec} {ts us : List Task} {index n : ℕ}

/-- The array of tasks of the copy is a new block. -/
theorem resizeTasksBlock_ge (flexSize oldSize newSize next : ℕ) :
    next ≤ (resizeTasksBlock none flexSize oldSize newSize next).2 ∧
      ∀ b, (resizeTasksBlock none flexSize oldSize newSize next).1 = some b → next ≤ b := by
  unfold resizeTasksBlock
  split_ifs
  · exact ⟨Nat.le_succ _, fun b hb => (some.inj hb).le⟩
  · exact ⟨Nat.le_refl _, fun b hb => (nomatch hb)⟩
  · exact ⟨Nat.le_refl _, fun b hb => (nomatch hb)⟩

/-- The data of the copy are a new block. -/
theorem resizeDataBlock_ge {listType : TaskListType} {newSize next b : ℕ}
    (hb : (resizeDataBlock none listType newSize next).1 = some b) : next ≤ b := by
  unfold resizeDataBlock at hb
  cases listType
  · cases hb
  · dsimp only at hb
    split_ifs at hb
    exact (some.inj hb).le

/-- The copy is made of new blocks. -/
theorem disjoint_blocks {blocks : Blocks} {next : ℕ} (h : ∀ b ∈ blocks.all, b < next) :
    List.Disjoint (duplicateBlocks list next).all blocks.all := by
  intro b hb hb'
  obtain ⟨hnext, htasks⟩ :=
    resizeTasksBlock_ge list.sizeFlexibleTasks list.sizeList list.sizeList (next + 1)
  refine Nat.not_le.mpr (h b hb') ?_
  rcases mem_append.mp hb with hb | hb
  · rcases mem_cons.mp hb with rfl | hb
    · exact Nat.le_refl _
    · exact Nat.le_of_succ_le (htasks b (mem_toList.mp hb))
  · have hdata := hnext.trans (resizeDataBlock_ge (mem_toList.mp hb))
    exact Nat.le_of_succ_le hdata

/-! ## A copy without flexible array -/

/-- The array of a new list is as long as it has to be. -/
theorem resizeWords_new (size : ℕ) : ∃ u, resizeWords (.task 0) 0 size size = some u ∧
    Stores 0 [] u (List.replicate size 0) := by
  have hlen : (List.replicate size (0 : Task)).length = size := length_replicate
  have hfront : ∀ i, i < 0 → i < (List.replicate size (0 : Task)).length →
      ([] : List Task)[i]? = (List.replicate size 0)[i]? :=
    fun i hi => absurd hi (Nat.not_lt_zero i)
  unfold resizeWords
  dsimp only
  rcases Nat.lt_trichotomy size 1 with hlt | rfl | hgt
  · rw [if_neg (by omega), if_neg (by omega), if_neg (by omega), if_neg (by omega)]
    refine ⟨_, rfl, rfl, hfront, fun _ => ⟨0, rfl⟩, fun heq => ?_, fun habove => ?_⟩ <;>
      rw [hlen] at * <;> omega
  · exact ⟨_, rfl, rfl, hfront, fun _ => ⟨0, rfl⟩, fun _ => ⟨0, rfl, rfl⟩,
      fun habove => absurd habove (by decide)⟩
  · rw [if_neg (by omega), if_pos (by omega), if_neg (by omega), if_pos rfl]
    refine ⟨_, rfl, rfl, hfront, fun hle => ?_, fun heq => ?_, fun _ => ?_⟩
    · rw [hlen] at hle
      omega
    · rw [hlen] at heq
      omega
    · rw [Nat.sub_zero, drop_zero]
      unfold realloc cells
      rw [drop_nil, nil_append, take_replicate, Nat.min_self]
      rfl

/-- **The loop of `TaskList_Duplicate`** copies the tasks from `index` on. -/
theorem copyTasks_spec {old : List Task} (h : list.Stores (us ++ ts))
    (hnew : newList.Stores (us ++ old)) (hold : old.length = ts.length) :
    ∃ u flexibleTasks, copyTasks list ts.length us.length newList =
        some { newList with u, flexibleTasks } ∧
      Stores newList.sizeFlexibleTasks flexibleTasks u (us ++ ts) := by
  induction ts generalizing us old newList with
  | nil =>
    obtain rfl := eq_nil_of_length_eq_zero hold
    exact ⟨newList.u, newList.flexibleTasks, rfl, hnew.2⟩
  | cons t ts ih =>
    obtain ⟨t', old, rfl⟩ := exists_cons_of_length_eq_add_one hold
    have hget : getTaskAtIndex list us.length = some t := by
      rw [getTaskAtIndex_spec h (by simp), getElem?_append_right (Nat.le_refl _)]
      simp
    obtain ⟨u, flexibleTasks, hset, hstores⟩ :=
      setTaskAtIndex_spec (i := us.length) hnew (by simp) t
    have hsplit : (us ++ t' :: old).set us.length t = (us ++ [t]) ++ old := by
      rw [set_append_right _ _ (Nat.le_refl _), Nat.sub_self, set_cons_zero,
        append_assoc, singleton_append]
    rw [hsplit] at hstores
    have hnew' : TaskList.Stores { newList with u, flexibleTasks } ((us ++ [t]) ++ old) := by
      refine ⟨?_, hstores⟩
      change newList.sizeList = _
      rw [hnew.1, ← hsplit, length_set]
    have hrest : list.Stores ((us ++ [t]) ++ ts) := by
      rwa [append_assoc, singleton_append]
    obtain ⟨u', flexibleTasks', hcopy, hstores'⟩ := ih hrest hnew' (Nat.succ.inj hold)
    refine ⟨u', flexibleTasks', ?_, ?_⟩
    · rw [length_append, length_singleton] at hcopy
      rw [length_cons, copyTasks, hget]
      simp only [bind_eq_bind, bind_some, hset]
      exact hcopy
    · rwa [append_assoc, singleton_append] at hstores'

/-- The data of a list that is resized from nothing. -/
theorem length_resizeData_new (size : ℕ) (listType : TaskListType) (u : Words) :
    listType = .withData →
      (resizeData ⟨size, 0, listType, u, [], []⟩ size).length = size := by
  rintro rfl
  unfold resizeData
  dsimp only
  split_ifs with hsize
  · unfold realloc cells
    rw [drop_nil, nil_append, take_replicate, Nat.min_self, length_replicate]
  · exact (not_not.mp hsize).symm

/-- **A list without flexible array is copied.** -/
theorem duplicate_spec (h : Holds 0 list s) (hbound : s.entries.length ≤ taskListMaxTasks) :
    ∃ copy, duplicate list = some copy ∧ Holds 0 copy s ∧
      (s.listType = .withData → copy.data = list.data) := by
  obtain ⟨hsize, hstores⟩ := h.stores
  have hlen : s.tasks.length = s.entries.length := length_map _
  have hcreate : createDuplicate list = some ⟨0, 0, list.listType, .task 0, [], []⟩ := by
    rw [createDuplicate, h.flexSize]
    cases list.listType <;> rfl
  obtain ⟨u, hwords, hnew⟩ := resizeWords_new list.sizeList
  let new : TaskList := ⟨list.sizeList, 0, list.listType, u, [],
    resizeData ⟨list.sizeList, 0, list.listType, .task 0, [], []⟩ list.sizeList⟩
  have hresize : resize ⟨list.sizeList, 0, list.listType, .task 0, [], []⟩ list.sizeList =
      some new := by
    rw [resize, hwords, map_some, sizeSet]
    refine congrArg some ?_
    have hmod : list.sizeList % 2 ^ taskListSizeBits = list.sizeList := by
      refine Nat.mod_eq_of_lt ?_
      rw [hsize, hlen]
      have hpos := Nat.two_pow_pos taskListSizeBits
      unfold taskListMaxTasks at hbound
      omega
    rw [hmod]
  have hnewStores : TaskList.Stores new ([] ++ List.replicate list.sizeList 0) :=
    ⟨(length_replicate).symm, hnew⟩
  have hstores : list.Stores ([] ++ s.tasks) := h.stores
  obtain ⟨u', flexibleTasks, hcopy, hcopied⟩ := copyTasks_spec hstores hnewStores
    (by rw [length_replicate, hsize])
  rw [← hsize] at hcopy
  have hdup : duplicate list = copyData list { new with u := u', flexibleTasks } := by
    unfold duplicate
    rw [hcreate]
    simp only [bind_eq_bind, bind_some, h.flexSize, hresize]
    rw [show copyTasks list list.sizeList 0 new = _ from hcopy, bind_some]
  have hkept : ∀ data, (s.listType = .withData → data = list.data) →
      Holds 0 ⟨list.sizeList, 0, list.listType, u', flexibleTasks, data⟩ s := by
    refine fun data hdata => ⟨rfl, ⟨hsize, hcopied⟩, h.nodup, h.listType, fun hwith => ?_⟩
    rw [hdata hwith]
    exact h.data hwith
  cases htype : list.listType with
  | standard =>
    have hstandard : ¬s.listType = .withData := by
      rw [← h.listType, htype]
      decide
    refine ⟨_, hdup.trans ?_, hkept new.data fun hwith => absurd hwith hstandard,
      fun hwith => absurd hwith hstandard⟩
    rw [copyData]
    simp only [new, htype]
  | withData =>
    have hdata := h.data (h.listType ▸ htype)
    have hdataLen : list.data.length = list.sizeList := by rw [hdata.1, hsize, hlen]
    have hnewLen : new.data.length = list.sizeList := length_resizeData_new _ _ _ htype
    refine ⟨_, hdup.trans ?_, hkept list.data fun _ => rfl, fun _ => rfl⟩
    rw [copyData]
    simp only [new, htype]
    rw [if_pos ⟨hdataLen.ge, by rw [← htype]; exact hnewLen.ge⟩, take_of_length_le hdataLen.le,
      drop_eq_nil_of_le (by rw [← htype]; exact hnewLen.le), append_nil]

/-! ## A copy with flexible array -/

/-- The loop of `TaskList_Duplicate` leaves the sizes and the place of the flexible array. -/
theorem copyTasks_frame : ∀ {n index : ℕ} {newList copy : TaskList},
    copyTasks list n index newList = some copy →
      copy.sizeFlexibleTasks = newList.sizeFlexibleTasks ∧
        copy.flexibleTasks.length = newList.flexibleTasks.length
  | 0, _, _, _, h => by
    obtain rfl := some.inj h
    exact ⟨rfl, rfl⟩
  | n + 1, index, newList, copy, h => by
    obtain ⟨task, -, h⟩ := bind_eq_some_iff.mp h
    obtain ⟨mid, hset, h⟩ := bind_eq_some_iff.mp h
    obtain ⟨-, hflex, -, hlen⟩ := setTaskAtIndex_frame hset
    obtain ⟨hflex', hlen'⟩ := copyTasks_frame h
    exact ⟨hflex'.trans hflex, hlen'.trans hlen⟩

/-- **The flexible array of a copy** is shorter than the copy says. -/
theorem duplicate_frame (h : duplicate list = some copy) :
    copy.sizeFlexibleTasks = list.sizeFlexibleTasks ∧
      copy.flexibleTasks.length ≤ list.sizeFlexibleTasks - 1 := by
  obtain ⟨created, hcreate, hrest⟩ := bind_eq_some_iff.mp h
  obtain ⟨resized, hresize, hrest'⟩ := bind_eq_some_iff.mp hrest
  obtain ⟨copied, hcopy, hdata⟩ := bind_eq_some_iff.mp hrest'
  obtain ⟨hflex, hlen⟩ := copyTasks_frame hcopy
  have hcreated : created.flexibleTasks.length ≤ list.sizeFlexibleTasks - 1 := by
    unfold createDuplicate at hcreate
    split at hcreate
    · unfold createWithCapacity initialiseWithCapacity at hcreate
      split_ifs at hcreate with hzero
      · obtain rfl := some.inj hcreate
        exact Nat.zero_le _
      · obtain rfl := some.inj hcreate
        exact length_replicate.le
    · obtain rfl := some.inj hcreate
      exact Nat.zero_le _
  obtain ⟨u, -, rfl⟩ := map_eq_some_iff.mp hresize
  have hcopied : copy.sizeFlexibleTasks = copied.sizeFlexibleTasks ∧
      copy.flexibleTasks = copied.flexibleTasks := by
    unfold copyData at hdata
    split at hdata
    · split_ifs at hdata
      obtain rfl := some.inj hdata
      exact ⟨rfl, rfl⟩
    · obtain rfl := some.inj hdata
      exact ⟨rfl, rfl⟩
  rw [hcopied.1, hcopied.2, hflex, hlen]
  exact ⟨rfl, hcreated⟩

/-- **A list is copied iff** it has no flexible array. -/
theorem duplicated_iff (h : Represents list s) (hbound : list.sizeList ≤ taskListMaxTasks)
    {blocks : Blocks} {next : ℕ} (hblocks : ∀ b ∈ blocks.all, b < next) :
    Duplicated list s blocks next ↔ list.sizeFlexibleTasks = 0 := by
  constructor
  · rintro ⟨copy, hdup, -, -, -, -, hlen, -⟩
    obtain ⟨hflex, hle⟩ := duplicate_frame hdup
    omega
  · intro hzero
    have hholds : Holds 0 list s := hzero ▸ h.holds
    rw [h.size] at hbound
    obtain ⟨copy, hdup, hcopy, hdata⟩ := duplicate_spec hholds hbound
    have hget : ∀ i < list.sizeList, getTaskAtIndex list i = s.tasks[i]? ∧
        getTaskAtIndex copy i = s.tasks[i]? := by
      intro i hi
      rw [hholds.stores.1] at hi
      exact ⟨getTaskAtIndex_spec hholds.stores hi, getTaskAtIndex_spec hcopy.stores hi⟩
    refine ⟨copy, hdup, hcopy.listType.trans hholds.listType.symm,
      hcopy.stores.1.trans hholds.stores.1.symm, fun i hi => ⟨?_, ?_⟩, fun hwith => ?_,
      hcopy.represents.length_flexible, disjoint_blocks hblocks, fun ops hops => ?_⟩
    · rw [(hget i hi).1, List.getElem?_eq_getElem (by rwa [hholds.stores.1] at hi)]
      rfl
    · rw [(hget i hi).1, (hget i hi).2]
    · exact hdata (hholds.listType ▸ hwith)
    · exact (outputs_answers step_answers ⟨hcopy, hbound⟩ hops).mono fun _ _ hr => hr.1.represents

/-- Two tasks with data, in three blocks. -/
def twoWithData : TaskList := ⟨2, 0, .withData, .tasks [3, 4], [], [30, 40]⟩

theorem duplicated_iff_twoWithData :
    Duplicated twoWithData ⟨.withData, [(3, some 30), (4, some 40)]⟩ ⟨0, some 1, some 2⟩ 3 ↔
      0 = 0 := by
  have hstores : Stores 0 [] (.tasks [3, 4]) [3, 4] :=
    ⟨rfl, fun i hi => absurd hi (Nat.not_lt_zero i), fun hle => absurd hle (by decide),
      fun heq => absurd heq (by decide), fun _ => rfl⟩
  have hdata : DataOf [30, 40] [(3, some 30), (4, some 40)] := by
    refine ⟨rfl, fun i task d he => ?_⟩
    match i with
    | 0 | 1 =>
      cases he
      rfl
  have hholds : Holds 0 twoWithData ⟨.withData, [(3, some 30), (4, some 40)]⟩ :=
    ⟨rfl, ⟨rfl, hstores⟩, by decide, rfl, fun _ => hdata⟩
  exact duplicated_iff hholds.represents (by decide) (by decide)

/-- **Not every list is copied**: an empty list with a capacity of 2. -/
theorem not_duplicated_two : ¬ ∀ (list : TaskList) (s : Spec) (blocks : Blocks) (next : ℕ),
    Represents list s → list.sizeList ≤ taskListMaxTasks → (∀ b ∈ blocks.all, b < next) →
      Duplicated list s blocks next := by
  intro h
  have hstores : Stores 1 [0] (.task 0) [] :=
    ⟨rfl, fun i _ hi => absurd hi (Nat.not_lt_zero i), fun _ => ⟨0, rfl⟩, fun heq => (nomatch heq),
      fun habove => absurd habove (Nat.not_lt_zero _)⟩
  have hholds : Holds 1 ⟨0, 1, .standard, .task 0, [0], []⟩ ⟨.standard, []⟩ :=
    ⟨rfl, ⟨rfl, hstores⟩, List.nodup_nil, rfl, fun h => (nomatch h)⟩
  obtain ⟨copy, hdup, -, -, -, -, hlen, -⟩ :=
    h _ _ ⟨0, none, none⟩ 1 hholds.represents (by decide) (by decide)
  obtain rfl : (⟨0, 1, .standard, .task 0, [], []⟩ : TaskList) = copy := by
    refine Option.some.inj (Eq.trans ?_ hdup)
    decide
  cases hlen

end Mh40.Tasks
