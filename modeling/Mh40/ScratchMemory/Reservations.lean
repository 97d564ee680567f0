import Mh40.Lib.Run
import Mh40.ScratchMemory.Scratch

/-!
# What a scratch reservation promises

A ledger beside the memory keeps what the calls granted to each task, and the pieces that each task
committed since its last `scratch_free`.

* `TakesTurns`: tasks of one priority do not interleave between a commit and the next free.
* `Sound`, `Right`: what the memory promises in a state and at a call.
* `Allowed`: when it keeps the promise. `last_task` is only ever set to `NO_TASK`, so a task that
  committed may move its own block with a reservation; deregistering may free it; and a reservation
  or a release may wrap.
* `Inv`: the blocks, the records of the tasks and the commits against the ledger.
* `scratch_sound`: every run of allowed calls is sound and right.
-/

namespace Mh40.ScratchMemory

open Lib List Option Function

/-- What a call of `scratch_commit` returned. -/
structure Piece where
  task : TaskId
  pref : Preference
  block : Option ℕ
  offset : ℕ
  size : ℕ
deriving DecidableEq, Repr

/-- The memory and the ledger. -/
structure State where
  mem : Scratch
  /-- What the task reserved, less what it released, since it registered. -/
  granted : TaskId → Preference → ℤ
  /-- What was committed and not freed, the last commit first. -/
  pieces : List Piece

def State.init : State := ⟨.init, fun _ _ => 0, []⟩

/-- A call of one of the functions by a task, with the answers of the heap. -/
inductive Call
  | register (task : TaskId) (created : Bool)
  | deregister (task : TaskId) (answers : Preference → Option ℕ)
  | reserve (task : TaskId) (size : BitVec 32) (preference : ℕ) (answer : Option ℕ)
  | release (task : TaskId) (size : BitVec 32) (preference : ℕ)
  | commit (task : TaskId) (size : BitVec 32) (preference : ℕ)
  | free (task : TaskId)

/-- The calling task. -/
def Call.task : Call → TaskId
  | .register t _ => t
  | .deregister t _ => t
  | .reserve t _ _ _ => t
  | .release t _ _ => t
  | .commit t _ _ => t
  | .free t => t

/-- The ledger with an amount more for a task. -/
def State.grant (s : State) (task : TaskId) (p : Preference) (n : ℤ) : TaskId → Preference → ℤ :=
  fun t q => if t = task ∧ q = p then s.granted t q + n else s.granted t q

/-- One call, `none` when it panics. -/
def step (s : State) : Call → Option State
  | .register t created => (scratchRegister s.mem t created).map fun (_, m) => { s with mem := m }
  | .deregister t answers => (scratchDeregister s.mem t answers).map fun m =>
    { s with mem := m, granted := Function.update s.granted t fun _ => 0 }
  | .reserve t size preference answer =>
    (scratchReserve s.mem t size preference answer).map fun (done, m) =>
      if done then
        { s with mem := m, granted := s.grant t (.ofMalloc preference) size.toNat }
      else { s with mem := m }
  | .release t size preference => (scratchRelease s.mem t size preference).map fun m =>
    { s with mem := m, granted := s.grant t (.ofMalloc preference) (-size.toNat) }
  | .commit t size preference =>
    (scratchCommit s.mem t size preference).map fun ((block, offset), m) =>
      { s with
        mem := m
        pieces := ⟨t, .ofMalloc preference, block, offset, size.toNat⟩ :: s.pieces }
  | .free t =>
    some { s with mem := scratchFree s.mem t, pieces := s.pieces.filter fun x => x.task ≠ t }

/-! ## The promise -/

/-- The task has pieces of the preference. -/
def State.Holds (s : State) (task : TaskId) (p : Preference) : Prop :=
  ∃ x ∈ s.pieces, x.task = task ∧ x.pref = p

instance (s : State) (task : TaskId) (p : Preference) : Decidable (s.Holds task p) :=
  inferInstanceAs (Decidable (∃ x ∈ s.pieces, _))

/-- What the task committed of the preference since it last freed. -/
def committed : List Piece → TaskId → Preference → ℕ
  | [], _, _ => 0
  | x :: l, t, p => (if x.task = t ∧ x.pref = p then x.size else 0) + committed l t p

/-- The task of the piece committed no more than it reserved. -/
def State.Within (s : State) (x : Piece) : Prop :=
  (committed s.pieces x.task x.pref : ℤ) ≤ s.granted x.task x.pref

/-- No byte is in both pieces. -/
def Apart (x y : Piece) : Prop :=
  x.block ≠ y.block ∨ x.offset + x.size ≤ y.offset ∨ y.offset + y.size ≤ x.offset

/-- No other task of the priority has committed memory. -/
def TakesTurns (s : State) (c : Call) : Prop :=
  ∀ x ∈ s.pieces, getTaskPriority x.task = getTaskPriority c.task → x.task = c.task

instance (s : State) (c : Call) : Decidable (TakesTurns s c) :=
  inferInstanceAs (Decidable (∀ x ∈ s.pieces, _))

/-- What holds in every state. -/
structure Sound (s : State) : Prop where
  max_le_alloc : ∀ priority p,
    (s.mem.info priority p).maxReserved ≤ (s.mem.info priority p).allocSize
  reserved_le_max : ∀ ptd ∈ s.mem.firstScratchMem, ∀ p,
    ptd.totalReserved p ≤ (s.mem.info ptd.taskPriority p).maxReserved ∧
      s.granted ptd.taskId p ≤ (s.mem.info ptd.taskPriority p).maxReserved
  /-- The block of a piece is the base block, which is live. -/
  base_kept : ∀ x ∈ s.pieces, x.block = (s.mem.info (getTaskPriority x.task) x.pref).base ∧
    ∀ b, x.block = some b →
      s.mem.heap.size b = some (s.mem.info (getTaskPriority x.task) x.pref).allocSize
  inside : ∀ x ∈ s.pieces, s.Within x →
    x.offset + x.size ≤ (s.mem.info (getTaskPriority x.task) x.pref).allocSize
  apart : s.pieces.Pairwise fun x y => s.Within x → s.Within y → Apart x y

/-- What a call must do: a commit within the reservation does not panic, a reservation or a release
by a task with pieces of the preference does. -/
def Right (s : State) : Call → Prop
  | .commit t size preference =>
    (committed s.pieces t (.ofMalloc preference) + size.toNat : ℤ) ≤
      s.granted t (.ofMalloc preference) → step s (.commit t size preference) ≠ none
  | .reserve t size preference answer =>
    s.Holds t (.ofMalloc preference) → step s (.reserve t size preference answer) = none
  | .release t size preference =>
    s.Holds t (.ofMalloc preference) → step s (.release t size preference) = none
  | _ => True

instance (s : State) : ∀ c, Decidable (Right s c)
  | .register _ _ => .isTrue trivial
  | .deregister _ _ => .isTrue trivial
  | .reserve _ _ _ _ => inferInstanceAs (Decidable (_ → _))
  | .release _ _ _ => inferInstanceAs (Decidable (_ → _))
  | .commit _ _ _ => inferInstanceAs (Decidable (_ → _))
  | .free _ => .isTrue trivial

/-! ## The condition -/

/-- The heap is asked for the reservation and refuses. -/
def Refused (info : MemAllocInfo) (newSize : ℕ) (answer : Option ℕ) : Prop :=
  info.maxReserved < newSize ∧ info.allocSize < newSize ∧ answer = none

instance (info : MemAllocInfo) (newSize : ℕ) (answer : Option ℕ) :
    Decidable (Refused info newSize answer) := inferInstanceAs (Decidable (_ ∧ _))

/-- The task is not registered, or the test on `last_task` stops it. -/
def State.Stopped (s : State) (task : TaskId) (p : Preference) : Prop :=
  lookupPerTaskData s.mem task = none ∨ s.mem.HasCommitted task (getTaskPriority task) p

instance (s : State) (task : TaskId) (p : Preference) : Decidable (s.Stopped task p) :=
  inferInstanceAs (Decidable (_ ∨ _))

/-- The recorded reservation, 0 for a task that is not registered. -/
def reserved (m : Scratch) (task : TaskId) (p : Preference) : ℕ :=
  ((lookupPerTaskData m task).map fun ptd => ptd.totalReserved p).getD 0

/-- Deregistering leaves the base block: others are registered, and one of them has the largest
reservation. -/
def Keeps (m : Scratch) (task : TaskId) (p : Preference) : Prop :=
  (m.perPrioData (getTaskPriority task)).refcount ≠ 1 ∧
    (m.info (getTaskPriority task) p).maxReserved ≤
      maxTotalReserved (m.firstScratchMem.eraseP fun ptd => ptd.taskId = task)
        (getTaskPriority task) p

instance (m : Scratch) (task : TaskId) (p : Preference) : Decidable (Keeps m task p) :=
  inferInstanceAs (Decidable (_ ∧ _))

/-- The condition on a call. -/
def Allowed (s : State) : Call → Prop
  | .reserve t size preference answer =>
    let p := Preference.ofMalloc preference
    s.Stopped t p ∨ (¬ s.Holds t p ∧ (reserved s.mem t p + size.toNat < 2 ^ 32 ∨
      Refused (s.mem.info (getTaskPriority t) p) ((reserved s.mem t p + size.toNat) % 2 ^ 32)
        answer))
  | .release t size preference =>
    let p := Preference.ofMalloc preference
    s.Stopped t p ∨ (¬ s.Holds t p ∧ size.toNat ≤ reserved s.mem t p) ∨
      2 ^ 31 ≤ (reserved s.mem t p + 2 ^ 32 - size.toNat) % 2 ^ 32
  | .deregister t _ => ∀ x ∈ s.pieces, x.task = t → x.block ≠ none →
    lookupPerTaskData s.mem t = none ∨ Keeps s.mem t x.pref
  | _ => True

instance (s : State) : ∀ c, Decidable (Allowed s c)
  | .register _ _ => .isTrue trivial
  | .deregister _ _ => inferInstanceAs (Decidable (∀ x ∈ s.pieces, _))
  | .reserve _ _ _ _ => inferInstanceAs (Decidable (_ ∨ _))
  | .release _ _ _ => inferInstanceAs (Decidable (_ ∨ _))
  | .commit _ _ _ => .isTrue trivial
  | .free _ => .isTrue trivial

/-! ## The records -/

section Records

variable {m : Scratch} {priority a : ℕ} {p q : Preference} {i : MemAllocInfo} {t : TaskId}

theorem info_setInfo : (m.setInfo priority p i).info a q =
    if a = priority ∧ q = p then i else m.info a q := by
  unfold Scratch.setInfo Scratch.info
  by_cases ha : a = priority
  · subst ha
    by_cases hq : q = p
    · simp [hq]
    · simp [hq]
  · simp [ha]

/-- Another reservation in a record leaves the rest of it. -/
theorem info_setMax (n : ℕ) :
    ((m.setInfo priority p { m.info priority p with maxReserved := n }).info a q) =
      { m.info a q with
        maxReserved := if a = priority ∧ q = p then n else (m.info a q).maxReserved } := by
  rw [info_setInfo]
  split_ifs with h
  · rw [h.1, h.2]
  · rfl

theorem refcount_setInfo :
    ((m.setInfo priority p i).perPrioData a).refcount = (m.perPrioData a).refcount := by
  unfold Scratch.setInfo
  by_cases ha : a = priority
  · subst ha
    simp
  · simp [ha]

theorem info_clearLastTask : (m.clearLastTask priority).info a q = m.info a q := by
  unfold Scratch.clearLastTask Scratch.info
  by_cases ha : a = priority
  · subst ha
    simp
  · simp [ha]

theorem refcount_clearLastTask :
    ((m.clearLastTask priority).perPrioData a).refcount = (m.perPrioData a).refcount := by
  unfold Scratch.clearLastTask
  by_cases ha : a = priority
  · subst ha
    simp
  · simp [ha]

theorem info_unlink : (m.unlink t).info a q = m.info a q := by
  unfold Scratch.unlink Scratch.info
  by_cases ha : a = getTaskPriority t
  · subst ha
    simp
  · simp [ha]

theorem refcount_unlink : ((m.unlink t).perPrioData a).refcount =
    (m.perPrioData a).refcount - if a = getTaskPriority t then 1 else 0 := by
  unfold Scratch.unlink
  by_cases ha : a = getTaskPriority t
  · subst ha
    simp
  · simp [ha]

theorem ofMalloc_fast (preference : ℕ) :
    Preference.ofMalloc (if preference = 3 then 4 else preference) = .ofMalloc preference := by
  by_cases h : preference = 3
  · subst h
    rfl
  · rw [if_neg h]

end Records

/-! ## The blocks -/

/-- The base blocks are live, with the recorded lengths, and no two records share one. -/
structure Blocks (m : Scratch) : Prop where
  live : ∀ priority p b, (m.info priority p).base = some b →
    m.heap.size b = some (m.info priority p).allocSize
  fresh : ∀ b, m.heap.next ≤ b → m.heap.size b = none
  distinct : ∀ priority p priority' p' b, (m.info priority p).base = some b →
    (m.info priority' p').base = some b → priority = priority' ∧ p = p'
  null : ∀ priority p, (m.info priority p).base = none → (m.info priority p).allocSize = 0
  max_le : ∀ priority p, (m.info priority p).maxReserved ≤ (m.info priority p).allocSize

section Blocks

variable {m m' : Scratch} {priority : ℕ} {p : Preference} {i : MemAllocInfo}

theorem Blocks.base_lt (h : Blocks m) {a : ℕ} {q : Preference} {b : ℕ}
    (hb : (m.info a q).base = some b) : b < m.heap.next := by
  by_contra hn
  have h1 := h.live a q b hb
  rw [h.fresh b (Nat.not_lt.mp hn)] at h1
  cases h1

/-- The same blocks with other totals. -/
theorem Blocks.same (h : Blocks m) (hheap : m'.heap = m.heap)
    (hbase : ∀ a q, (m'.info a q).base = (m.info a q).base)
    (hsize : ∀ a q, (m'.info a q).allocSize = (m.info a q).allocSize)
    (hmax : ∀ a q, (m'.info a q).maxReserved ≤ (m.info a q).allocSize) : Blocks m' where
  live a q b hb := by
    rw [hbase] at hb
    rw [hheap, hsize]
    exact h.live a q b hb
  fresh b hb := by
    rw [hheap] at hb ⊢
    exact h.fresh b hb
  distinct a q a' q' b hb hb' := by
    rw [hbase] at hb hb'
    exact h.distinct a q a' q' b hb hb'
  null a q hb := by
    rw [hbase] at hb
    rw [hsize]
    exact h.null a q hb
  max_le a q := by
    rw [hsize]
    exact hmax a q

/-- A record whose block was given back. -/
theorem Blocks.drop (h : Blocks m) (hbase : i.base = none) (hsize : i.allocSize = 0)
    (hmax : i.maxReserved = 0)
    (hinfo : ∀ a q, m'.info a q = if a = priority ∧ q = p then i else m.info a q)
    (hheap : m'.heap = m.heap.pfree (m.info priority p).base) : Blocks m' := by
  have hkeep : ∀ a q b, (m'.info a q).base = some b →
      ¬ (a = priority ∧ q = p) ∧ (m.info a q).base = some b := by
    intro a q b hb
    rw [hinfo] at hb
    split_ifs at hb with hk
    · rw [hbase] at hb
      cases hb
    · exact ⟨hk, hb⟩
  refine ⟨fun a q b hb => ?_, fun b hb => ?_, fun a q a' q' b hb hb' => ?_, fun a q hb => ?_,
    fun a q => ?_⟩
  · obtain ⟨hk, hb⟩ := hkeep a q b hb
    rw [hheap, hinfo, if_neg hk]
    refine (if_neg fun hp => ?_).trans (h.live a q b hb)
    obtain ⟨rfl, rfl⟩ := h.distinct _ _ _ _ _ hb hp
    exact hk ⟨rfl, rfl⟩
  · rw [hheap] at hb ⊢
    unfold Heap.pfree
    dsimp only
    split_ifs
    · rfl
    · exact h.fresh b hb
  · exact h.distinct _ _ _ _ _ (hkeep a q b hb).2 (hkeep a' q' b hb').2
  · rw [hinfo] at hb ⊢
    split_ifs at hb ⊢ with hk
    · exact hsize
    · exact h.null a q hb
  · rw [hinfo]
    split_ifs
    · rw [hmax]
      exact Nat.zero_le _
    · exact h.max_le a q

/-- A record that has a new block, the old one given back. -/
theorem Blocks.move (h : Blocks m) (hbase : i.base = some m.heap.next)
    (hmax : i.maxReserved ≤ i.allocSize)
    (hinfo : ∀ a q, m'.info a q = if a = priority ∧ q = p then i else m.info a q)
    (hnext : m'.heap.next = m.heap.next + 1)
    (hheap : ∀ b, m'.heap.size b = if b = m.heap.next then some i.allocSize else
      (m.heap.pfree (m.info priority p).base).size b) : Blocks m' := by
  have hcases : ∀ a q b, (m'.info a q).base = some b →
      (a = priority ∧ q = p ∧ b = m.heap.next) ∨
        (¬ (a = priority ∧ q = p) ∧ (m.info a q).base = some b ∧ b < m.heap.next) := by
    intro a q b hb
    rw [hinfo] at hb
    split_ifs at hb with hk
    · rw [hbase] at hb
      exact .inl ⟨hk.1, hk.2, (some.inj hb).symm⟩
    · exact .inr ⟨hk, hb, h.base_lt hb⟩
  refine ⟨fun a q b hb => ?_, fun b hb => ?_, fun a q a' q' b hb hb' => ?_, fun a q hb => ?_,
    fun a q => ?_⟩
  · rw [hheap, hinfo]
    obtain ⟨ha, hq, rfl⟩ | ⟨hk, hb, hlt⟩ := hcases a q b hb
    · rw [if_pos rfl, if_pos ⟨ha, hq⟩]
    · rw [if_neg (Nat.ne_of_lt hlt), if_neg hk]
      refine (if_neg fun hp => ?_).trans (h.live a q b hb)
      obtain ⟨rfl, rfl⟩ := h.distinct _ _ _ _ _ hb hp
      exact hk ⟨rfl, rfl⟩
  · rw [hnext] at hb
    rw [hheap, if_neg (by omega)]
    unfold Heap.pfree
    dsimp only
    split_ifs
    · rfl
    · exact h.fresh b (by omega)
  · obtain ⟨ha, hq, hn⟩ | ⟨hk, hb, hlt⟩ := hcases a q b hb
    · obtain ⟨ha', hq', -⟩ | ⟨-, -, hlt'⟩ := hcases a' q' b hb'
      · exact ⟨ha.trans ha'.symm, hq.trans hq'.symm⟩
      · exact absurd hn (Nat.ne_of_lt hlt')
    · obtain ⟨-, -, hn⟩ | ⟨-, hb', -⟩ := hcases a' q' b hb'
      · exact absurd hn (Nat.ne_of_lt hlt)
      · exact h.distinct _ _ _ _ _ hb hb'
  · rw [hinfo] at hb ⊢
    split_ifs at hb ⊢ with hk
    · rw [hbase] at hb
      cases hb
    · exact h.null a q hb
  · rw [hinfo]
    split_ifs
    · exact hmax
    · exact h.max_le a q

end Blocks

/-! ## The tasks -/

section Tasks

variable {m : Scratch} {priority : ℕ} {p q : Preference} {t u : TaskId} {d : PerTaskData}

theorem lookup_some (h : lookupPerTaskData m t = some d) :
    d ∈ m.firstScratchMem ∧ d.taskId = t :=
  ⟨mem_of_find?_eq_some h, by simpa using find?_some h⟩

theorem lookup_of_mem (hn : (m.firstScratchMem.map PerTaskData.taskId).Nodup)
    (hd : d ∈ m.firstScratchMem) : lookupPerTaskData m d.taskId = some d := by
  unfold lookupPerTaskData
  generalize m.firstScratchMem = l at hn hd
  induction l with
  | nil => cases hd
  | cons e l ih =>
    rw [map_cons, nodup_cons] at hn
    rcases mem_cons.mp hd with rfl | hd
    · simp
    · have hne : e.taskId ≠ d.taskId := fun he => hn.1 (he ▸ List.mem_map_of_mem hd)
      rw [find?_cons_of_neg (by simpa using hne)]
      exact ih hn.2 hd

theorem lookup_unlink (hn : (m.firstScratchMem.map PerTaskData.taskId).Nodup) :
    lookupPerTaskData (m.unlink t) u = if u = t then none else lookupPerTaskData m u := by
  unfold lookupPerTaskData Scratch.unlink
  dsimp only
  generalize m.firstScratchMem = l at hn
  induction l with
  | nil => simp
  | cons e l ih =>
    rw [map_cons, nodup_cons] at hn
    by_cases he : e.taskId = t
    · rw [eraseP_cons_of_pos (by simpa using he)]
      by_cases hu : u = t
      · rw [if_pos hu, find?_eq_none]
        intro x hx hxu
        refine hn.1 ?_
        rw [he, ← hu, ← of_decide_eq_true hxu]
        exact List.mem_map_of_mem hx
      · rw [if_neg hu, find?_cons_of_neg (by simpa [he] using Ne.symm hu)]
    · rw [eraseP_cons_of_neg (by simpa using he)]
      by_cases heu : e.taskId = u
      · rw [find?_cons_of_pos (by simpa using heu), find?_cons_of_pos (by simpa using heu),
          if_neg fun h => he (heu.trans h)]
      · rw [find?_cons_of_neg (by simpa using heu), find?_cons_of_neg (by simpa using heu)]
        exact ih hn.2

theorem lookup_setReserved (n : ℕ) : lookupPerTaskData (m.setReserved t p n) u =
    (lookupPerTaskData m u).map fun d => if d.taskId = t then d.setReserved p n else d := by
  unfold lookupPerTaskData Scratch.setReserved
  dsimp only
  rw [find?_map]
  congr 2
  funext d
  by_cases h : d.taskId = t
  · simp [h, PerTaskData.setReserved]
  · simp [h]

theorem reserved_eq (h : lookupPerTaskData m t = some d) : reserved m t p = d.totalReserved p := by
  rw [reserved, h]
  rfl

theorem reserved_unregistered (h : lookupPerTaskData m t = none) : reserved m t p = 0 := by
  rw [reserved, h]
  rfl

theorem reserved_unlink (hn : (m.firstScratchMem.map PerTaskData.taskId).Nodup) :
    reserved (m.unlink t) u p = if u = t then 0 else reserved m u p := by
  rw [reserved, lookup_unlink hn]
  split_ifs
  · rfl
  · rfl

theorem reserved_setReserved (h : lookupPerTaskData m t = some d) (n : ℕ) :
    reserved (m.setReserved t p n) u q = if u = t ∧ q = p then n else reserved m u q := by
  rw [reserved, lookup_setReserved]
  by_cases hu : u = t
  · subst hu
    rw [h, reserved_eq h, map_some, map_some, getD_some,
      if_pos (lookup_some h).2]
    by_cases hq : q = p
    · simp [hq, PerTaskData.setReserved]
    · simp [hq, PerTaskData.setReserved]
  · rw [if_neg fun h => hu h.1, reserved]
    cases hl : lookupPerTaskData m u with
    | none => rfl
    | some e =>
      rw [map_some, if_neg fun he => hu ((lookup_some hl).2.symm.trans he)]

theorem maxTotalReserved_mono (l : List PerTaskData) (most : ℕ) :
    most ≤ l.foldl (fun most ptd =>
      if ptd.taskPriority = priority then
        if most < ptd.totalReserved p then ptd.totalReserved p else most
      else most) most := by
  induction l generalizing most with
  | nil => exact le_rfl
  | cons e l ih =>
    refine le_trans ?_ (ih _)
    dsimp only
    split_ifs with _ h
    · exact h.le
    · exact le_rfl
    · exact le_rfl

theorem le_maxTotalReserved {l : List PerTaskData} (hd : d ∈ l) :
    d.totalReserved p ≤ maxTotalReserved l d.taskPriority p := by
  unfold maxTotalReserved
  generalize 0 = most
  induction l generalizing most with
  | nil => cases hd
  | cons e l ih =>
    rcases mem_cons.mp hd with rfl | hd
    · refine le_trans ?_ (maxTotalReserved_mono l _)
      dsimp only
      rw [if_pos rfl]
      split_ifs with h
      · exact le_rfl
      · exact Nat.not_lt.mp h
    · exact ih hd _

end Tasks

/-- The records of the tasks, against the records of their priorities. -/
structure Records (m : Scratch) : Prop where
  nodup : (m.firstScratchMem.map PerTaskData.taskId).Nodup
  priority : ∀ d ∈ m.firstScratchMem, d.taskPriority = getTaskPriority d.taskId
  refcount : ∀ a, (m.perPrioData a).refcount =
    (m.firstScratchMem.countP fun d => d.taskPriority = a : ℕ)
  reserved_le : ∀ t p, reserved m t p ≤ (m.info (getTaskPriority t) p).maxReserved
  reserved_lt : ∀ t p, reserved m t p < 2 ^ 32

/-! ## The pieces -/

/-- What is committed in a record. -/
def total : List Piece → ℕ → Preference → ℕ
  | [], _, _ => 0
  | x :: l, a, p => (if getTaskPriority x.task = a ∧ x.pref = p then x.size else 0) + total l a p

/-- Every piece starts where the earlier ones of its record end. -/
def Stacked : List Piece → Prop
  | [] => True
  | x :: l => x.offset = total l (getTaskPriority x.task) x.pref % 2 ^ 32 ∧ Stacked l

section Pieces

variable {l : List Piece} {a : ℕ} {t : TaskId} {p : Preference}

theorem total_eq_committed
    (h : ∀ x ∈ l, getTaskPriority x.task = getTaskPriority t → x.task = t) :
    total l (getTaskPriority t) p = committed l t p := by
  induction l with
  | nil => rfl
  | cons x l ih =>
    obtain ⟨hx, hl⟩ := forall_mem_cons.mp h
    rw [total, committed, ih hl]
    by_cases ht : x.task = t
    · simp [ht]
    · simp [ht, mt hx ht]

theorem total_eq_zero (h : ∀ x ∈ l, getTaskPriority x.task = a → x.pref ≠ p) :
    total l a p = 0 := by
  induction l with
  | nil => rfl
  | cons x l ih =>
    obtain ⟨hx, hl⟩ := forall_mem_cons.mp h
    rw [total, ih hl, if_neg fun hk => hx hk.1 hk.2]

section

variable (h : ∀ x ∈ l, getTaskPriority x.task = getTaskPriority t → x.task = t)
include h

theorem total_filter :
    total (l.filter fun x => x.task ≠ t) a p =
      if a = getTaskPriority t then 0 else total l a p := by
  induction l with
  | nil => simp [total]
  | cons x l ih =>
    obtain ⟨hx, hl⟩ := forall_mem_cons.mp h
    by_cases ht : x.task = t
    · rw [filter_cons_of_neg (by simpa using ht), ih hl, total, ht]
      by_cases ha : a = getTaskPriority t
      · rw [if_pos ha, if_pos ha]
      · rw [if_neg ha, if_neg ha, if_neg fun hk => ha hk.1.symm, Nat.zero_add]
    · rw [filter_cons_of_pos (by simpa using ht), total, total, ih hl]
      by_cases ha : a = getTaskPriority t
      · rw [if_pos ha, if_pos ha, if_neg fun hk => ht (hx (hk.1.trans ha))]
      · rw [if_neg ha, if_neg ha]

theorem Stacked.filter (hs : Stacked l) : Stacked (l.filter fun x => x.task ≠ t) := by
  induction l with
  | nil => trivial
  | cons x l ih =>
    obtain ⟨hx, hl⟩ := forall_mem_cons.mp h
    by_cases ht : x.task = t
    · rw [filter_cons_of_neg (by simpa using ht)]
      exact ih hl hs.2
    · rw [filter_cons_of_pos (by simpa using ht)]
      refine ⟨?_, ih hl hs.2⟩
      rw [total_filter hl, if_neg (mt hx ht)]
      exact hs.1

end

/-- Where the total did not wrap, a piece ends within it. -/
theorem Stacked.inside (hs : Stacked l) (hlt : total l a p < 2 ^ 32) :
    ∀ x ∈ l, getTaskPriority x.task = a → x.pref = p → x.offset + x.size ≤ total l a p := by
  induction l with
  | nil => exact fun x hx => absurd hx not_mem_nil
  | cons y l ih =>
    rw [total] at hlt ⊢
    intro x hx hxa hxp
    rcases mem_cons.mp hx with rfl | hx
    · rw [if_pos ⟨hxa, hxp⟩, hs.1, hxa, hxp, Nat.mod_eq_of_lt (by omega)]
      omega
    · have := ih hs.2 (by omega) x hx hxa hxp
      omega

/-- Where the total did not wrap, the pieces do not overlap. -/
theorem Stacked.apart (hs : Stacked l) : l.Pairwise fun x y =>
    getTaskPriority x.task = getTaskPriority y.task → x.pref = y.pref →
      total l (getTaskPriority x.task) x.pref < 2 ^ 32 → y.offset + y.size ≤ x.offset := by
  have hmono : ∀ k : List Piece, (∀ a p, total k a p ≤ total l a p) → Stacked k →
      k.Pairwise fun x y =>
        getTaskPriority x.task = getTaskPriority y.task → x.pref = y.pref →
          total l (getTaskPriority x.task) x.pref < 2 ^ 32 → y.offset + y.size ≤ x.offset := by
    intro k hk hsk
    induction k with
    | nil => exact .nil
    | cons x k ih =>
      have hle : ∀ a p, total k a p ≤ total l a p := fun a p =>
        Nat.le_trans (Nat.le_add_left _ _) (hk a p)
      refine .cons (fun y hy ha hp hlt => ?_) (ih hle hsk.2)
      have hk := Nat.lt_of_le_of_lt (hle (getTaskPriority x.task) x.pref) hlt
      rw [hsk.1, Nat.mod_eq_of_lt hk]
      exact hsk.2.inside hk y hy ha.symm hp.symm
  exact hmono l (fun _ _ => Nat.le_refl _) hs

end Pieces

/-- The pieces, against the records of their priorities. -/
structure Commits (m : Scratch) (pieces : List Piece) : Prop where
  owner : ∀ x ∈ pieces, ∀ y ∈ pieces,
    getTaskPriority x.task = getTaskPriority y.task → x.task = y.task
  block : ∀ x ∈ pieces, x.block = (m.info (getTaskPriority x.task) x.pref).base
  total_eq : ∀ a p, (m.info a p).totalCommitted = total pieces a p % 2 ^ 32
  within : ∀ a p, (m.info a p).totalCommitted ≤ (m.info a p).allocSize
  stacked : Stacked pieces

/-- The invariant. -/
structure Inv (s : State) : Prop where
  blocks : Blocks s.mem
  records : Records s.mem
  granted : ∀ t p, s.granted t p = reserved s.mem t p
  commits : Commits s.mem s.pieces

/-! ## The state -/

section States

variable {s : State}

theorem Inv.committed_eq (h : Inv s) {x : Piece} (hx : x ∈ s.pieces) (p : Preference) :
    total s.pieces (getTaskPriority x.task) p = committed s.pieces x.task p :=
  total_eq_committed fun y hy => h.commits.owner y hy x hx

/-- What a task within its reservation committed is within the block. -/
theorem Inv.total_le (h : Inv s) {x : Piece} (hx : x ∈ s.pieces) (hw : s.Within x) :
    total s.pieces (getTaskPriority x.task) x.pref ≤
        (s.mem.info (getTaskPriority x.task) x.pref).allocSize ∧
      total s.pieces (getTaskPriority x.task) x.pref < 2 ^ 32 := by
  have h1 := h.records.reserved_le x.task x.pref
  have h2 := h.records.reserved_lt x.task x.pref
  have h3 := h.blocks.max_le (getTaskPriority x.task) x.pref
  rw [State.Within, h.granted, ← h.committed_eq hx] at hw
  omega

theorem Inv.sound (h : Inv s) : Sound s where
  max_le_alloc := h.blocks.max_le
  reserved_le_max d hd p := by
    have hl := lookup_of_mem h.records.nodup hd
    have hle := h.records.reserved_le d.taskId p
    rw [h.granted, h.records.priority d hd]
    rw [reserved_eq hl] at hle ⊢
    exact ⟨hle, by omega⟩
  base_kept x hx := by
    have hb := h.commits.block x hx
    exact ⟨hb, fun b hxb => h.blocks.live _ _ b (hb ▸ hxb)⟩
  inside x hx hw := by
    obtain ⟨hle, hlt⟩ := h.total_le hx hw
    exact Nat.le_trans (h.commits.stacked.inside hlt x hx rfl rfl) hle
  apart := by
    refine (Pairwise.and_mem.mp h.commits.stacked.apart).imp ?_
    rintro x y ⟨hx, hy, hxy⟩ hwx hwy
    by_cases hk : getTaskPriority x.task = getTaskPriority y.task ∧ x.pref = y.pref
    · exact .inr (.inr (hxy hk.1 hk.2 (h.total_le hx hwx).2))
    · -- pieces of two records are in two blocks, or empty at the start of no block
      by_cases hb : x.block = y.block
      · obtain ⟨hle, hlt⟩ := h.total_le hx hwx
        have hin := h.commits.stacked.inside hlt x hx rfl rfl
        cases hxb : x.block with
        | none =>
          rw [h.blocks.null _ _ ((h.commits.block x hx).symm.trans hxb)] at hle
          exact .inr (.inl (by omega))
        | some b =>
          exact absurd (h.blocks.distinct _ _ _ _ b ((h.commits.block x hx).symm.trans hxb)
            ((h.commits.block y hy).symm.trans (hb.symm.trans hxb))) hk
      · exact .inl hb

end States

/-! ## What the changes keep -/

section Changes

variable {m m' : Scratch} {pieces : List Piece} {a : ℕ} {p : Preference} {i : MemAllocInfo}
  {t : TaskId} {d : PerTaskData}

/-- The records of the priorities changed, those of the tasks not. -/
theorem Records.of_info (h : Records m) (htasks : m'.firstScratchMem = m.firstScratchMem)
    (hcount : ∀ b, (m'.perPrioData b).refcount = (m.perPrioData b).refcount)
    (hle : ∀ t q, reserved m t q ≤ (m'.info (getTaskPriority t) q).maxReserved) : Records m' := by
  have hres : ∀ t q, reserved m' t q = reserved m t q := fun t q => by
    rw [reserved, reserved, lookupPerTaskData, lookupPerTaskData, htasks]
  refine ⟨?_, ?_, fun b => ?_, fun t q => ?_, fun t q => ?_⟩
  · rw [htasks]
    exact h.nodup
  · rw [htasks]
    exact h.priority
  · rw [htasks, hcount]
    exact h.refcount b
  · rw [hres]
    exact hle t q
  · rw [hres]
    exact h.reserved_lt t q

/-- Another reservation of a task. -/
theorem Records.setReserved (h : Records m) (hl : lookupPerTaskData m t = some d) {n : ℕ}
    (hn : n ≤ (m.info (getTaskPriority t) p).maxReserved) (hlt : n < 2 ^ 32) :
    Records (m.setReserved t p n) := by
  have hid : ∀ e : PerTaskData, (if e.taskId = t then e.setReserved p n else e).taskId = e.taskId :=
    fun e => by split_ifs <;> rfl
  have hprio : ∀ e : PerTaskData,
      (if e.taskId = t then e.setReserved p n else e).taskPriority = e.taskPriority :=
    fun e => by split_ifs <;> rfl
  refine ⟨?_, fun e he => ?_, fun b => ?_, fun u q => ?_, fun u q => ?_⟩
  · have hmap : (m.setReserved t p n).firstScratchMem.map PerTaskData.taskId =
        m.firstScratchMem.map PerTaskData.taskId :=
      (List.map_map ..).trans (map_congr_left fun e _ => hid e)
    rw [hmap]
    exact h.nodup
  · obtain ⟨f, hf, rfl⟩ := List.mem_map.mp he
    rw [hid, hprio]
    exact h.priority f hf
  · refine (h.refcount b).trans ?_
    unfold Scratch.setReserved
    rw [countP_map]
    congr 2
    funext e
    rw [comp_apply, hprio]
  · rw [reserved_setReserved hl]
    split_ifs with hk
    · rw [hk.1, hk.2]
      exact hn
    · exact h.reserved_le u q
  · rw [reserved_setReserved hl]
    split_ifs
    · exact hlt
    · exact h.reserved_lt u q

/-- A task taken out of the list. -/
theorem Records.unlink (h : Records m) (hl : lookupPerTaskData m t = some d) :
    Records (m.unlink t) := by
  obtain ⟨hd, rfl⟩ := lookup_some hl
  refine ⟨?_, fun e he => h.priority e (mem_of_mem_eraseP he), fun b => ?_, fun u q => ?_,
    fun u q => ?_⟩
  · exact h.nodup.sublist ((eraseP_sublist).map _)
  · rw [refcount_unlink, h.refcount b]
    obtain ⟨e, l₁, l₂, hl1, he, heq, herase⟩ :=
      exists_of_eraseP (p := fun e => e.taskId = d.taskId) hd (by simp)
    have hed : e = d := by
      have h1 := lookup_of_mem h.nodup (d := e) (by rw [heq]; simp)
      rw [of_decide_eq_true he, hl] at h1
      exact (some.inj h1).symm
    have herase' : (m.unlink d.taskId).firstScratchMem = l₁ ++ l₂ := herase
    rw [herase', heq, hed, countP_append, countP_append, countP_cons,
      h.priority d hd]
    by_cases hb : b = getTaskPriority d.taskId
    · simp [hb]
      omega
    · simp [hb, Ne.symm hb]
  · rw [reserved_unlink h.nodup, info_unlink]
    split_ifs
    · exact Nat.zero_le _
    · exact h.reserved_le u q
  · rw [reserved_unlink h.nodup]
    split_ifs
    · exact Nat.two_pow_pos 32
    · exact h.reserved_lt u q

/-- The same base blocks and totals. -/
theorem Commits.same (h : Commits m pieces)
    (hbase : ∀ b q, (m'.info b q).base = (m.info b q).base)
    (hsize : ∀ b q, (m'.info b q).allocSize = (m.info b q).allocSize)
    (htotal : ∀ b q, (m'.info b q).totalCommitted = (m.info b q).totalCommitted) :
    Commits m' pieces where
  owner := h.owner
  block x hx := (h.block x hx).trans (hbase _ _).symm
  total_eq b q := (htotal b q).trans (h.total_eq b q)
  within b q := by
    rw [htotal, hsize]
    exact h.within b q
  stacked := h.stacked

/-- One record replaced. -/
theorem Commits.replace (h : Commits m pieces)
    (hinfo : ∀ b q, m'.info b q = if b = a ∧ q = p then i else m.info b q)
    (hblock : ∀ x ∈ pieces, getTaskPriority x.task = a → x.pref = p → x.block = i.base)
    (htotal : i.totalCommitted = total pieces a p % 2 ^ 32)
    (hle : i.totalCommitted ≤ i.allocSize) : Commits m' pieces where
  owner := h.owner
  block x hx := by
    rw [hinfo]
    split_ifs with hk
    · exact hblock x hx hk.1 hk.2
    · exact h.block x hx
  total_eq b q := by
    rw [hinfo]
    split_ifs with hk
    · rw [hk.1, hk.2]
      exact htotal
    · exact h.total_eq b q
  within b q := by
    rw [hinfo]
    split_ifs
    · exact hle
    · exact h.within b q
  stacked := h.stacked

/-- A record with no pieces has committed nothing. -/
theorem Commits.total_zero (h : Commits m pieces)
    (hno : ∀ x ∈ pieces, getTaskPriority x.task = a → x.pref ≠ p) :
    (m.info a p).totalCommitted = 0 ∧ total pieces a p % 2 ^ 32 = 0 := by
  rw [h.total_eq, total_eq_zero hno]
  exact ⟨rfl, rfl⟩

end Changes

/-! ## The calls -/

section Calls

variable {s : State} {m m' : Scratch} {t : TaskId} {size : BitVec 32} {p : Preference}
  {preference : ℕ}

theorem Inv.register (h : Inv s) {created done : Bool}
    (hr : scratchRegister s.mem t created = some (done, m)) : Inv { s with mem := m } := by
  unfold scratchRegister at hr
  dsimp only at hr
  cases hl : lookupPerTaskData s.mem t with
  | some d =>
    rw [hl] at hr
    cases hr
  | none =>
    rw [hl] at hr
    dsimp only at hr
    cases created with
    | false =>
      cases hr
      exact h
    | true =>
      rw [if_pos rfl] at hr
      have hm := (Prod.mk.inj (some.inj hr)).2
      have htasks : m.firstScratchMem = ⟨t, getTaskPriority t, fun _ => 0⟩ :: s.mem.firstScratchMem :=
        hm ▸ rfl
      have hheap : m.heap = s.mem.heap := hm ▸ rfl
      have hinfo : ∀ a q, m.info a q = s.mem.info a q := by
        intro a q
        subst hm
        unfold Scratch.info
        by_cases ha : a = getTaskPriority t
        · subst ha
          simp
        · simp [ha]
      have hcount : ∀ a, (m.perPrioData a).refcount =
          (s.mem.perPrioData a).refcount + if a = getTaskPriority t then 1 else 0 := by
        intro a
        subst hm
        by_cases ha : a = getTaskPriority t
        · subst ha
          simp
        · simp [ha]
      have hres : ∀ u q, reserved m u q = reserved s.mem u q := by
        intro u q
        by_cases hu : t = u
        · subst hu
          rw [reserved_unregistered hl, reserved, lookupPerTaskData, htasks,
            find?_cons_of_pos (by simp)]
          rfl
        · rw [reserved, lookupPerTaskData, htasks, find?_cons_of_neg (by simpa using hu)]
          rfl
      refine ⟨h.blocks.same hheap (fun a q => by rw [hinfo]) (fun a q => by rw [hinfo])
          (fun a q => hinfo a q ▸ h.blocks.max_le a q), ⟨?_, fun d hd => ?_, fun a => ?_,
          fun u q => ?_, fun u q => ?_⟩, fun u q => ?_,
        h.commits.same (fun a q => by rw [hinfo]) (fun a q => by rw [hinfo])
          (fun a q => by rw [hinfo])⟩
      · rw [htasks, map_cons, nodup_cons]
        refine ⟨fun hmem => ?_, h.records.nodup⟩
        obtain ⟨d, hd, hdt⟩ := List.mem_map.mp hmem
        have hd := lookup_of_mem h.records.nodup hd
        rw [hdt, hl] at hd
        cases hd
      · rw [htasks] at hd
        rcases mem_cons.mp hd with rfl | hd
        · rfl
        · exact h.records.priority d hd
      · rw [hcount, h.records.refcount, htasks, countP_cons]
        by_cases ha : a = getTaskPriority t
        · simp [ha]
        · simp [ha, Ne.symm ha]
      · rw [hres, hinfo]
        exact h.records.reserved_le u q
      · rw [hres]
        exact h.records.reserved_lt u q
      · rw [hres]
        exact h.granted u q

/-- A new reservation, recorded and in the ledger. -/
theorem Inv.setReserved (hb : Blocks m) (hr : Records m) (hc : Commits m s.pieces) {d : PerTaskData}
    (hl : lookupPerTaskData m t = some d) {n : ℕ} {k : ℤ}
    (hg : ∀ u q, s.granted u q = reserved m u q)
    (hn : n ≤ (m.info (getTaskPriority t) p).maxReserved) (hlt : n < 2 ^ 32)
    (hk : (reserved m t p : ℤ) + k = n) :
    Inv { s with mem := m.setReserved t p n, granted := s.grant t p k } where
  blocks := hb.same rfl (fun _ _ => rfl) (fun _ _ => rfl) hb.max_le
  records := hr.setReserved hl hn hlt
  granted u q := by
    change s.grant t p k u q = reserved (m.setReserved t p n) u q
    rw [State.grant, reserved_setReserved hl, hg]
    split_ifs with hu
    · rw [hu.1, hu.2]
      exact hk
    · rfl
  commits := hc.same (fun _ _ => rfl) (fun _ _ => rfl) fun _ _ => rfl

/-- What a release does, when it does not panic. -/
theorem release_cases (hr : scratchRelease s.mem t size preference = some m) :
    ¬ s.Stopped t (.ofMalloc preference) ∧
      (reserved s.mem t (.ofMalloc preference) + 2 ^ 32 - size.toNat) % 2 ^ 32 < 2 ^ 31 ∧
      (∃ d, lookupPerTaskData s.mem t = some d) ∧
      m = s.mem.setReserved t (.ofMalloc preference)
        ((reserved s.mem t (.ofMalloc preference) + 2 ^ 32 - size.toNat) % 2 ^ 32) := by
  unfold scratchRelease at hr
  cases hl : lookupPerTaskData s.mem t with
  | none =>
    rw [hl] at hr
    cases hr
  | some d =>
    rw [hl] at hr
    dsimp only at hr
    rw [(lookup_some hl).2, ← reserved_eq hl] at hr
    split_ifs at hr with hc hlt
    refine ⟨fun hs => ?_, hlt, ⟨d, rfl⟩, (some.inj hr).symm⟩
    rcases hs with hs | hs
    · rw [hl] at hs
      cases hs
    · exact hc hs

theorem Inv.release (h : Inv s) (ha : Allowed s (.release t size preference))
    (hr : scratchRelease s.mem t size preference = some m) :
    Inv { s with mem := m, granted := s.grant t (.ofMalloc preference) (-size.toNat) } := by
  obtain ⟨hs, hlt, ⟨d, hd⟩, rfl⟩ := release_cases hr
  have hle : size.toNat ≤ reserved s.mem t (.ofMalloc preference) := by
    rcases ha with ha | ha | ha
    · exact absurd ha hs
    · exact ha.2
    · omega
  have h1 := h.records.reserved_lt t (.ofMalloc preference)
  have h2 := h.records.reserved_le t (.ofMalloc preference)
  have hmod : (reserved s.mem t (.ofMalloc preference) + 2 ^ 32 - size.toNat) % 2 ^ 32 =
      reserved s.mem t (.ofMalloc preference) - size.toNat := by omega
  rw [hmod]
  exact Inv.setReserved h.blocks h.records h.commits hd h.granted (by omega) (by omega) (by omega)

/-- The records of a task that holds no pieces of the preference have none. -/
theorem no_pieces (ht : ∀ x ∈ s.pieces, getTaskPriority x.task = getTaskPriority t → x.task = t)
    (hno : ¬ s.Holds t p) :
    ∀ x ∈ s.pieces, getTaskPriority x.task = getTaskPriority t → x.pref ≠ p :=
  fun x hx ha hp => hno ⟨x, hx, ht x hx ha, hp⟩

/-- The memory when a record has a longer block. -/
theorem Inv.longer (h : Inv s) {a n : ℕ} (slack : ℕ)
    (hno : ∀ x ∈ s.pieces, getTaskPriority x.task = a → x.pref ≠ p)
    (hmax : (s.mem.info a p).maxReserved < n) {m : Scratch}
    (hm : m = { s.mem.setInfo a p { s.mem.info a p with
        base := some s.mem.heap.next, allocSize := n + slack, maxReserved := n } with
      heap := Heap.pfree ⟨s.mem.heap.next + 1,
        Function.update s.mem.heap.size s.mem.heap.next (some (n + slack))⟩
        (s.mem.info a p).base }) :
    Blocks m ∧ Records m ∧ Commits m s.pieces ∧ (m.info a p).maxReserved = n ∧
      (∀ t, lookupPerTaskData m t = lookupPerTaskData s.mem t) := by
  have hinfo : ∀ b q, m.info b q = if b = a ∧ q = p then { s.mem.info a p with
      base := some s.mem.heap.next, allocSize := n + slack, maxReserved := n } else
      s.mem.info b q := fun b q => hm ▸ info_setInfo
  refine ⟨h.blocks.move rfl (Nat.le_add_right n slack) hinfo (hm ▸ rfl) fun b => ?_,
    h.records.of_info (hm ▸ rfl) (fun _ => hm ▸ refcount_setInfo) fun u q => ?_,
    h.commits.replace hinfo (fun x hx ha hp => absurd hp (hno x hx ha)) ?_ ?_, ?_,
    fun t => hm ▸ rfl⟩
  · subst hm
    unfold Heap.pfree
    dsimp only
    by_cases hb : b = s.mem.heap.next
    · subst hb
      rw [if_pos rfl, if_neg fun he => Nat.lt_irrefl _ (h.blocks.base_lt he)]
      simp
    · simp [hb]
  · refine (h.records.reserved_le u q).trans ?_
    rw [hinfo]
    split_ifs with hk
    · rw [hk.1, hk.2]
      exact hmax.le
    · exact Nat.le_refl _
  · exact (h.commits.total_zero hno).1.trans (h.commits.total_zero hno).2.symm
  · exact (h.commits.total_zero hno).1.trans_le (Nat.zero_le _)
  · rw [hinfo, if_pos ⟨rfl, rfl⟩]

/-- The memory when more of a block is reserved. -/
theorem Inv.raised (h : Inv s) {a n : ℕ} (hmax : (s.mem.info a p).maxReserved < n)
    (hle : n ≤ (s.mem.info a p).allocSize) {m : Scratch}
    (hm : m = s.mem.setInfo a p { s.mem.info a p with maxReserved := n }) :
    Blocks m ∧ Records m ∧ Commits m s.pieces ∧ (m.info a p).maxReserved = n ∧
      (∀ t, lookupPerTaskData m t = lookupPerTaskData s.mem t) := by
  have hinfo : ∀ b q, m.info b q = { s.mem.info b q with
      maxReserved := if b = a ∧ q = p then n else (s.mem.info b q).maxReserved } :=
    fun b q => hm ▸ info_setMax n
  refine ⟨h.blocks.same (hm ▸ rfl) (fun b q => by rw [hinfo]) (fun b q => by rw [hinfo])
      fun b q => ?_,
    h.records.of_info (hm ▸ rfl) (fun _ => hm ▸ refcount_setInfo) fun u q => ?_,
    h.commits.same (fun b q => by rw [hinfo]) (fun b q => by rw [hinfo]) fun b q => by rw [hinfo],
    ?_, fun t => hm ▸ rfl⟩
  · rw [hinfo]
    dsimp only
    split_ifs with hk
    · rw [hk.1, hk.2]
      exact hle
    · exact h.blocks.max_le b q
  · refine (h.records.reserved_le u q).trans ?_
    rw [hinfo]
    dsimp only
    split_ifs with hk
    · rw [hk.1, hk.2]
      exact hmax.le
    · exact Nat.le_refl _
  · rw [hinfo]
    exact if_pos ⟨rfl, rfl⟩

theorem Inv.reserve (h : Inv s) {answer : Option ℕ} {done : Bool}
    (ht : TakesTurns s (.reserve t size preference answer))
    (ha : Allowed s (.reserve t size preference answer))
    (hr : scratchReserve s.mem t size preference answer = some (done, m)) :
    Inv (if done then
      { s with mem := m, granted := s.grant t (.ofMalloc preference) size.toNat }
      else { s with mem := m }) := by
  unfold scratchReserve at hr
  cases hl : lookupPerTaskData s.mem t with
  | none =>
    rw [hl] at hr
    cases hr
  | some d =>
    rw [hl] at hr
    dsimp only at hr
    rw [(lookup_some hl).2, ofMalloc_fast, ← reserved_eq hl] at hr
    simp only [Allowed] at ha
    generalize Preference.ofMalloc preference = p at hr ha ⊢
    have hres : ∀ m1 : Scratch, (∀ u, lookupPerTaskData m1 u = lookupPerTaskData s.mem u) →
        ∀ u q, s.granted u q = reserved m1 u q := fun m1 hm1 u q => by
      rw [h.granted, reserved, reserved, hm1]
    have hk : ∀ m1 : Scratch, (∀ u, lookupPerTaskData m1 u = lookupPerTaskData s.mem u) →
        (reserved m1 t p : ℤ) + size.toNat = (reserved s.mem t p + size.toNat : ℕ) :=
      fun m1 hm1 => by rw [← hres m1 hm1, h.granted, Int.natCast_add]
    split_ifs at hr with hc hmax halloc
    all_goals
      replace ha := ha.resolve_left (not_or.mpr ⟨by rw [hl]; exact some_ne_none d, hc⟩)
    · cases answer with
      | none =>
        cases hr
        exact h
      | some slack =>
        have hlt := ha.2.resolve_right fun hrefused => some_ne_none _ hrefused.2.2
        rw [Nat.mod_eq_of_lt hlt] at hr hmax
        obtain ⟨hb, hrec, hcom, hn, hlook⟩ := h.longer slack (no_pieces ht ha.1) hmax rfl
        cases hr
        exact Inv.setReserved hb hrec hcom ((hlook t).trans hl) (hres _ hlook) hn.ge hlt
          (hk _ hlook)
    · have hlt := ha.2.resolve_right fun hrefused => halloc hrefused.2.1
      rw [Nat.mod_eq_of_lt hlt] at hr hmax halloc
      obtain ⟨hb, hrec, hcom, hn, hlook⟩ := h.raised hmax (Nat.not_lt.mp halloc) rfl
      cases hr
      exact Inv.setReserved hb hrec hcom ((hlook t).trans hl) (hres _ hlook) hn.ge hlt
        (hk _ hlook)
    · have hlt := ha.2.resolve_right fun hrefused => hmax hrefused.1
      rw [Nat.mod_eq_of_lt hlt] at hr hmax
      cases hr
      exact Inv.setReserved h.blocks h.records h.commits hl h.granted (Nat.not_lt.mp hmax) hlt
        (hk _ fun _ => rfl)

theorem Inv.commit (h : Inv s) {block : Option ℕ} {offset : ℕ}
    (ht : TakesTurns s (.commit t size preference))
    (hr : scratchCommit s.mem t size preference = some ((block, offset), m)) :
    Inv { s with
      mem := m
      pieces := ⟨t, .ofMalloc preference, block, offset, size.toNat⟩ :: s.pieces } := by
  unfold scratchCommit at hr
  dsimp only at hr
  generalize Preference.ofMalloc preference = p at hr ⊢
  split_ifs at hr with hover
  obtain ⟨hx, hm⟩ := Prod.mk.inj (some.inj hr)
  obtain ⟨rfl, rfl⟩ := Prod.mk.inj hx
  have hinfo : ∀ b q, m.info b q = { s.mem.info b q with
      totalCommitted := if b = getTaskPriority t ∧ q = p then
        ((s.mem.info b q).totalCommitted + size.toNat) % 2 ^ 32
        else (s.mem.info b q).totalCommitted } := by
    intro b q
    rw [← hm, info_setInfo]
    split_ifs with hk
    · rw [hk.1, hk.2]
    · rfl
  have hres : ∀ u q, reserved m u q = reserved s.mem u q := fun u q => hm ▸ rfl
  refine ⟨h.blocks.same (hm ▸ rfl) (fun b q => by rw [hinfo]) (fun b q => by rw [hinfo])
      fun b q => ?_,
    h.records.of_info (hm ▸ rfl) (fun _ => hm ▸ refcount_setInfo) fun u q => ?_,
    fun u q => (h.granted u q).trans (by rw [hres]), ⟨?_, fun x hx => ?_, fun b q => ?_,
      fun b q => ?_, ?_⟩⟩
  · rw [hinfo]
    exact h.blocks.max_le b q
  · rw [hinfo]
    exact h.records.reserved_le u q
  · intro x hx y hy hxy
    rcases mem_cons.mp hx with rfl | hx
    · rcases mem_cons.mp hy with rfl | hy
      · rfl
      · exact (ht y hy hxy.symm).symm
    · rcases mem_cons.mp hy with rfl | hy
      · exact ht x hx hxy
      · exact h.commits.owner x hx y hy hxy
  · rw [hinfo]
    rcases mem_cons.mp hx with rfl | hx
    · rfl
    · exact h.commits.block x hx
  · rw [hinfo, total]
    dsimp only
    by_cases hk : b = getTaskPriority t ∧ q = p
    · rw [if_pos hk, if_pos ⟨hk.1.symm, hk.2.symm⟩, h.commits.total_eq]
      omega
    · rw [if_neg hk, if_neg fun hk' => hk ⟨hk'.1.symm, hk'.2.symm⟩, h.commits.total_eq,
        Nat.zero_add]
  · rw [hinfo]
    dsimp only
    split_ifs with hk
    · rw [hk.1, hk.2]
      exact Nat.not_lt.mp hover
    · exact h.commits.within b q
  · exact ⟨h.commits.total_eq _ _, h.commits.stacked⟩

theorem info_scratchFree (a : ℕ) (q : Preference) : (scratchFree m t).info a q =
    { m.info a q with
      totalCommitted := if a = getTaskPriority t then 0 else (m.info a q).totalCommitted } := by
  unfold scratchFree Scratch.info
  by_cases ha : a = getTaskPriority t
  · subst ha
    simp
  · simp [ha]

theorem refcount_scratchFree (a : ℕ) :
    ((scratchFree m t).perPrioData a).refcount = (m.perPrioData a).refcount := by
  unfold scratchFree
  by_cases ha : a = getTaskPriority t
  · subst ha
    simp
  · simp [ha]

theorem Inv.free (h : Inv s) (ht : TakesTurns s (.free t)) :
    Inv { s with mem := scratchFree s.mem t, pieces := s.pieces.filter fun x => x.task ≠ t } := by
  have ht : ∀ x ∈ s.pieces, getTaskPriority x.task = getTaskPriority t → x.task = t := ht
  refine ⟨h.blocks.same rfl (fun b q => by rw [info_scratchFree])
      (fun b q => by rw [info_scratchFree]) fun b q => ?_,
    h.records.of_info rfl refcount_scratchFree fun u q => ?_, h.granted,
    ⟨fun x hx y hy => ?_, fun x hx => ?_, fun b q => ?_, fun b q => ?_, ?_⟩⟩
  · rw [info_scratchFree]
    exact h.blocks.max_le b q
  · rw [info_scratchFree]
    exact h.records.reserved_le u q
  · exact h.commits.owner x (mem_of_mem_filter hx) y (mem_of_mem_filter hy)
  · rw [info_scratchFree]
    exact h.commits.block x (mem_of_mem_filter hx)
  · rw [info_scratchFree, total_filter ht]
    dsimp only
    split_ifs
    · rfl
    · exact h.commits.total_eq b q
  · rw [info_scratchFree]
    dsimp only
    split_ifs
    · exact Nat.zero_le _
    · exact h.commits.within b q
  · exact h.commits.stacked.filter ht

end Calls

/-! ## Deregistering -/

section Deregister

variable {m m' : Scratch} {tasks : List PerTaskData} {pieces : List Piece} {a : ℕ} {p : Preference}
  {answers : Preference → Option ℕ}

/-- What holds while the records of a priority are adjusted to the tasks that are left. -/
structure Adjusting (tasks : List PerTaskData) (pieces : List Piece) (m : Scratch) : Prop where
  tasks_eq : m.firstScratchMem = tasks
  blocks : Blocks m
  records : Records m
  commits : Commits m pieces

/-- The records with pieces are no longer than the largest reservation. -/
def Settled (tasks : List PerTaskData) (pieces : List Piece) (a : ℕ) (m : Scratch) : Prop :=
  ∀ x ∈ pieces, getTaskPriority x.task = a →
    (m.info a x.pref).maxReserved ≤ maxTotalReserved tasks a x.pref

theorem Records.reserved_le_most (h : Records m) (t : TaskId) (p : Preference) :
    reserved m t p ≤ maxTotalReserved m.firstScratchMem (getTaskPriority t) p := by
  cases hl : lookupPerTaskData m t with
  | none =>
    rw [reserved_unregistered hl]
    exact Nat.zero_le _
  | some d =>
    obtain ⟨hd, rfl⟩ := lookup_some hl
    rw [reserved_eq hl, ← h.priority d hd]
    exact le_maxTotalReserved hd

section

variable (h : Adjusting tasks pieces m)
include h

/-- A block that is given back, or replaced by a shorter one, in a record without pieces. -/
theorem Adjusting.reallocBase {size : ℕ} {answer : Option ℕ}
    (hno : ∀ x ∈ pieces, getTaskPriority x.task = a → x.pref ≠ p)
    (hsize : ∀ t, getTaskPriority t = a → reserved m t p ≤ size)
    (hr : reallocBase m a p size answer = some m') :
    Adjusting tasks pieces m' ∧ ∀ b q, ¬ (b = a ∧ q = p) → m'.info b q = m.info b q := by
  obtain ⟨hzero, htotal⟩ := h.commits.total_zero hno
  have hrec : ∀ i : MemAllocInfo, i.maxReserved = size →
      (∀ b q, m'.info b q = if b = a ∧ q = p then i else m.info b q) →
      ∀ t q, reserved m t q ≤ (m'.info (getTaskPriority t) q).maxReserved := by
    intro i hi hinfo t q
    rw [hinfo]
    split_ifs with hk
    · rw [hi, hk.2]
      exact hsize t hk.1
    · exact h.records.reserved_le t q
  unfold ScratchMemory.reallocBase Heap.xppmalloc at hr
  dsimp only at hr
  split_ifs at hr with hpos
  · obtain ⟨x, hx, hm⟩ := map_eq_some_iff.mp hr
    obtain ⟨slack, -, rfl⟩ := map_eq_some_iff.mp hx
    dsimp only at hm
    have hinfo : ∀ b q, m'.info b q = if b = a ∧ q = p then { m.info a p with
        base := some (m.heap.pfree (m.info a p).base).next, allocSize := size + slack,
        maxReserved := size } else m.info b q := fun b q => hm ▸ info_setInfo
    refine ⟨⟨hm ▸ h.tasks_eq,
      h.blocks.move rfl (Nat.le_add_right size slack) hinfo (hm ▸ rfl) fun b => ?_,
      h.records.of_info (hm ▸ rfl) (fun _ => hm ▸ refcount_setInfo) (hrec _ rfl hinfo),
      h.commits.replace hinfo (fun x hx ha hp => absurd hp (hno x hx ha))
        (hzero.trans htotal.symm) (hzero.trans_le (Nat.zero_le _))⟩, fun b q hk => ?_⟩
    · subst hm
      by_cases hb : b = m.heap.next
      · subst hb
        exact (update_self ..).trans (if_pos rfl).symm
      · exact (update_of_ne hb ..).trans (if_neg hb).symm
    · rw [hinfo, if_neg hk]
  · have hm := some.inj hr
    have hinfo : ∀ b q, m'.info b q = if b = a ∧ q = p then { m.info a p with
        base := none, allocSize := 0, maxReserved := size } else m.info b q :=
      fun b q => hm ▸ info_setInfo
    refine ⟨⟨hm ▸ h.tasks_eq,
      h.blocks.drop rfl rfl (Nat.eq_zero_of_not_pos hpos) hinfo (hm ▸ rfl),
      h.records.of_info (hm ▸ rfl) (fun _ => hm ▸ refcount_setInfo) (hrec _ rfl hinfo),
      h.commits.replace hinfo (fun x hx ha hp => absurd hp (hno x hx ha))
        (hzero.trans htotal.symm) hzero.le⟩, fun b q hk => ?_⟩
    rw [hinfo, if_neg hk]

theorem Adjusting.deregisterUpdateOne (hs : Settled tasks pieces a m) {answer : Option ℕ}
    (hr : deregisterUpdateOne m a p answer = some m') :
    Adjusting tasks pieces m' ∧ Settled tasks pieces a m' := by
  unfold ScratchMemory.deregisterUpdateOne at hr
  dsimp only at hr
  split_ifs at hr with hlt
  · have hno : ∀ x ∈ pieces, getTaskPriority x.task = a → x.pref ≠ p := by
      rintro x hx ha rfl
      rw [h.tasks_eq] at hlt
      exact absurd (hs x hx ha) (Nat.not_le.mpr hlt)
    obtain ⟨h', hother⟩ := h.reallocBase hno (fun t ht => ht ▸ h.records.reserved_le_most t p) hr
    refine ⟨h', fun x hx ha => ?_⟩
    rw [hother a x.pref fun hk => hno x hx ha hk.2]
    exact hs x hx ha
  · cases hr
    exact ⟨h, hs⟩

theorem Adjusting.deregisterUpdate (hs : Settled tasks pieces a m)
    (hr : deregisterUpdate m a answers = some m') :
    Adjusting tasks pieces m' := by
  unfold ScratchMemory.deregisterUpdate at hr
  obtain ⟨m1, h₁, hr⟩ := bind_eq_some_iff.mp hr
  obtain ⟨m2, h₂, hr⟩ := bind_eq_some_iff.mp hr
  obtain ⟨h, hs⟩ := h.deregisterUpdateOne hs h₁
  obtain ⟨h, hs⟩ := h.deregisterUpdateOne hs h₂
  exact (h.deregisterUpdateOne hs hr).1

/-- A block that is given back at a priority without tasks. -/
theorem Adjusting.freeBaseAlloc (hblock : ∀ x ∈ pieces, getTaskPriority x.task = a → x.block = none)
    (hres : ∀ t, getTaskPriority t = a → ∀ q, reserved m t q = 0) :
    Adjusting tasks pieces (freeBaseAlloc m a p) ∧
      ∀ t, getTaskPriority t = a → ∀ q, reserved (freeBaseAlloc m a p) t q = 0 := by
  have hinfo : ∀ b q, (ScratchMemory.freeBaseAlloc m a p).info b q =
      if b = a ∧ q = p then ⟨none, 0, 0, 0⟩ else m.info b q := fun b q => info_setInfo
  refine ⟨⟨h.tasks_eq, h.blocks.drop rfl rfl rfl hinfo rfl,
    h.records.of_info rfl (fun _ => refcount_setInfo) fun t q => ?_,
    h.commits.replace hinfo (fun x hx ha _ => hblock x hx ha) ?_ (Nat.le_refl _)⟩, hres⟩
  · rw [hinfo]
    split_ifs with hk
    · exact (hres t hk.1 q).le
    · exact h.records.reserved_le t q
  · -- a record with pieces has no block, so nothing was committed
    by_cases hno : ∀ x ∈ pieces, getTaskPriority x.task = a → x.pref ≠ p
    · exact (h.commits.total_zero hno).2.symm
    · push Not at hno
      obtain ⟨x, hx, ha, rfl⟩ := hno
      have hnull := h.blocks.null a x.pref ((ha ▸ h.commits.block x hx).symm.trans (hblock x hx ha))
      have hle := h.commits.within a x.pref
      rw [h.commits.total_eq, hnull] at hle
      exact (Nat.le_zero.mp hle).symm

theorem Adjusting.clearLastTask :
    Adjusting tasks pieces (m.clearLastTask a) where
  tasks_eq := h.tasks_eq
  blocks := h.blocks.same rfl (fun b q => by rw [info_clearLastTask])
    (fun b q => by rw [info_clearLastTask]) fun b q => by
      rw [info_clearLastTask]
      exact h.blocks.max_le b q
  records := h.records.of_info rfl (fun _ => refcount_clearLastTask) fun t q => by
    rw [info_clearLastTask]
    exact h.records.reserved_le t q
  commits := h.commits.same (fun b q => by rw [info_clearLastTask])
    (fun b q => by rw [info_clearLastTask]) fun b q => by rw [info_clearLastTask]

end

theorem Inv.unlink {s : State} (h : Inv s) {t : TaskId} {d : PerTaskData}
    (hl : lookupPerTaskData s.mem t = some d) :
    Adjusting (s.mem.unlink t).firstScratchMem s.pieces (s.mem.unlink t) where
  tasks_eq := rfl
  blocks := h.blocks.same rfl (fun b q => by rw [info_unlink]) (fun b q => by rw [info_unlink])
    fun b q => by
      rw [info_unlink]
      exact h.blocks.max_le b q
  records := h.records.unlink hl
  commits := h.commits.same (fun b q => by rw [info_unlink]) (fun b q => by rw [info_unlink])
    fun b q => by rw [info_unlink]

/-- A priority with no count has no tasks. -/
theorem Records.reserved_zero (h : Records m) (hc : (m.perPrioData a).refcount = 0) (t : TaskId)
    (ht : getTaskPriority t = a) (q : Preference) : reserved m t q = 0 := by
  cases hl : lookupPerTaskData m t with
  | none => exact reserved_unregistered hl
  | some d =>
    obtain ⟨hd, rfl⟩ := lookup_some hl
    rw [h.refcount, Int.natCast_eq_zero, countP_eq_zero] at hc
    exact absurd ((h.priority d hd).trans ht) (by simpa using hc d hd)

theorem Inv.deregister {s : State} {t : TaskId} (h : Inv s)
    (ht : TakesTurns s (.deregister t answers)) (ha : Allowed s (.deregister t answers))
    (hr : scratchDeregister s.mem t answers = some m) :
    Inv { s with mem := m, granted := Function.update s.granted t fun _ => 0 } := by
  have ht : ∀ x ∈ s.pieces, getTaskPriority x.task = getTaskPriority t → x.task = t := ht
  unfold scratchDeregister at hr
  dsimp only at hr
  rw [ite_eq_iff] at hr
  obtain ⟨-, hr⟩ | ⟨hcount, hr⟩ := hr
  · cases hr
  cases hl : lookupPerTaskData s.mem t with
  | none =>
    rw [hl] at hr
    cases hr
  | some d =>
    rw [hl] at hr
    dsimp only at hr
    have hkeeps : ∀ x ∈ s.pieces, getTaskPriority x.task = getTaskPriority t → x.block ≠ none →
        Keeps s.mem t x.pref := fun x hx hxt hb =>
      (ha x hx (ht x hx hxt) hb).resolve_left (by rw [hl]; exact some_ne_none d)
    have hadj : Adjusting (s.mem.unlink t).firstScratchMem s.pieces m := by
      obtain ⟨m1, hm1, rfl⟩ := map_eq_some_iff.mp hr
      refine Adjusting.clearLastTask ?_
      have hunlink := h.unlink hl
      split_ifs at hm1 with hlast
      · -- the last task of the priority, which has no piece of a block
        cases hm1
        have hblock : ∀ x ∈ s.pieces, getTaskPriority x.task = getTaskPriority t →
            x.block = none := by
          intro x hx hxt
          by_contra hb
          refine (hkeeps x hx hxt hb).1 ?_
          rw [refcount_unlink, if_pos rfl] at hlast
          omega
        obtain ⟨h₁, hz⟩ := hunlink.freeBaseAlloc (p := .dm1) hblock
          (hunlink.records.reserved_zero hlast)
        obtain ⟨h₂, hz⟩ := h₁.freeBaseAlloc (p := .dm2) hblock hz
        exact (h₂.freeBaseAlloc hblock hz).1
      · refine hunlink.deregisterUpdate (fun x hx hxt => ?_) hm1
        rw [info_unlink]
        cases hb : x.block with
        | none =>
          have hbase := (hxt ▸ h.commits.block x hx).symm.trans hb
          have := h.blocks.max_le (getTaskPriority t) x.pref
          rw [h.blocks.null _ _ hbase] at this
          exact this.trans (Nat.zero_le _)
        | some b =>
          exact (hkeeps x hx hxt (by rw [hb]; exact some_ne_none b)).2
    refine ⟨hadj.blocks, hadj.records, fun u q => ?_, hadj.commits⟩
    have hres : reserved m u q = reserved (s.mem.unlink t) u q := by
      rw [reserved, lookupPerTaskData, hadj.tasks_eq]
      rfl
    rw [hres, reserved_unlink h.records.nodup]
    by_cases hu : u = t
    · rw [if_pos hu, hu]
      dsimp only
      rw [update_self]
      rfl
    · rw [if_neg hu, ← h.granted]
      dsimp only
      rw [update_of_ne hu]

end Deregister

/-! ## The calls are right -/

section Rights

variable {s : State} {t : TaskId} {size : BitVec 32} {preference : ℕ}

theorem reserve_stopped {answer : Option ℕ} (hs : s.Stopped t (.ofMalloc preference)) :
    scratchReserve s.mem t size preference answer = none := by
  unfold scratchReserve
  cases hl : lookupPerTaskData s.mem t with
  | none => rfl
  | some d =>
    have hc := hs.resolve_left (by rw [hl]; exact some_ne_none d)
    dsimp only
    rw [(lookup_some hl).2, ofMalloc_fast, if_pos hc]

theorem release_panics
    (hs : s.Stopped t (.ofMalloc preference) ∨
      2 ^ 31 ≤ (reserved s.mem t (.ofMalloc preference) + 2 ^ 32 - size.toNat) % 2 ^ 32) :
    scratchRelease s.mem t size preference = none := by
  cases hr : scratchRelease s.mem t size preference with
  | none => rfl
  | some m =>
    obtain ⟨hns, hlt, -⟩ := release_cases hr
    rcases hs with hs | hs
    · exact absurd hs hns
    · exact absurd hlt (Nat.not_lt.mpr hs)

theorem Inv.commit_ne_none (h : Inv s) (ht : TakesTurns s (.commit t size preference))
    (hle : (committed s.pieces t (.ofMalloc preference) + size.toNat : ℤ) ≤
      s.granted t (.ofMalloc preference)) : scratchCommit s.mem t size preference ≠ none := by
  unfold scratchCommit
  dsimp only
  generalize Preference.ofMalloc preference = p at hle ⊢
  have h1 := h.records.reserved_le t p
  have h2 := h.records.reserved_lt t p
  have h3 := h.blocks.max_le (getTaskPriority t) p
  rw [h.granted, ← total_eq_committed (t := t) ht] at hle
  have hmod : ((s.mem.info (getTaskPriority t) p).totalCommitted + size.toNat) % 2 ^ 32 =
      total s.pieces (getTaskPriority t) p + size.toNat := by
    rw [h.commits.total_eq]
    omega
  rw [hmod, if_neg]
  · exact some_ne_none _
  · omega

theorem Inv.right (h : Inv s) {c : Call} (ht : TakesTurns s c) (ha : Allowed s c) : Right s c := by
  cases c with
  | register t created | deregister t answers | free t => trivial
  | commit t size preference =>
    intro hle
    rw [step, ne_eq, map_eq_none_iff]
    exact h.commit_ne_none ht hle
  | reserve t size preference answer =>
    intro hh
    rw [step, map_eq_none_iff]
    exact reserve_stopped (ha.resolve_right fun hno => hno.1 hh)
  | release t size preference =>
    intro hh
    rw [step, map_eq_none_iff]
    rcases ha with ha | ha | ha
    · exact release_panics (.inl ha)
    · exact absurd hh ha.1
    · exact release_panics (.inr ha)

/-- **The step.** An allowed call by a task that takes turns keeps the invariant. -/
theorem Inv.step {s' : State} {c : Call} (h : Inv s) (ht : TakesTurns s c) (ha : Allowed s c)
    (hs : step s c = some s') : Inv s' := by
  cases c with
  | register t created =>
    obtain ⟨⟨done, m⟩, hr, rfl⟩ := map_eq_some_iff.mp hs
    exact h.register hr
  | deregister t answers =>
    obtain ⟨m, hr, rfl⟩ := map_eq_some_iff.mp hs
    exact h.deregister ht ha hr
  | reserve t size preference answer =>
    obtain ⟨⟨done, m⟩, hr, rfl⟩ := map_eq_some_iff.mp hs
    exact h.reserve ht ha hr
  | release t size preference =>
    obtain ⟨m, hr, rfl⟩ := map_eq_some_iff.mp hs
    exact h.release ha hr
  | commit t size preference =>
    obtain ⟨⟨⟨block, offset⟩, m⟩, hr, rfl⟩ := map_eq_some_iff.mp hs
    exact h.commit ht hr
  | free t =>
    obtain rfl := some.inj hs
    exact h.free ht

end Rights

/-! ## Runs -/

theorem inv_init : Inv State.init where
  blocks := ⟨fun _ _ _ h => (some_ne_none _ h.symm).elim, fun _ _ => rfl,
    fun _ _ _ _ _ h => (some_ne_none _ h.symm).elim, fun _ _ _ => rfl,
    fun _ _ => Nat.le_refl _⟩
  records := ⟨nodup_nil, fun _ h => absurd h not_mem_nil, fun _ => rfl,
    fun _ _ => Nat.le_refl _, fun _ _ => Nat.two_pow_pos 32⟩
  granted _ _ := rfl
  commits := ⟨fun _ h => absurd h not_mem_nil, fun _ h => absurd h not_mem_nil,
    fun _ _ => rfl, fun _ _ => Nat.le_refl _, trivial⟩

/-- **Scratch memory.** In a run of allowed calls by tasks that take turns, every state keeps the
promise, and so does every call. -/
theorem scratch_sound (cs : List Call) (ht : Meets step TakesTurns State.init cs)
    (ha : Meets step Allowed State.init cs) :
    Throughout step Sound State.init cs ∧ Meets step Right State.init cs := by
  have hboth := ht.and ha
  constructor
  · intro ks s hks hs
    refine Inv.sound (invariant_of_meets (fun s c s' h hc hs => ?_) inv_init
      (hboth.of_prefix hks) hs)
    exact h.step hc.1 hc.2 hs
  · refine meets_of_meets (fun s c h hc => ?_) inv_init hboth
    exact ⟨h.right hc.1 hc.2, fun s' hs => h.step hc.1 hc.2 hs⟩

/-- Two tasks of one priority share a block, one of another priority has its own. -/
def sampleCalls : List Call :=
  [.register 0x10000 true, .register 0x10001 true, .register 0x20000 true,
    .reserve 0x10000 10 1 (some 2), .reserve 0x10001 20 1 (some 0), .reserve 0x20000 5 4 (some 0),
    .commit 0x10000 6 1, .commit 0x20000 5 3, .commit 0x10000 4 1, .free 0x10000,
    .release 0x10000 3 1, .deregister 0x10001 fun _ => some 1, .commit 0x10000 7 1]

theorem scratch_sound_sampleCalls :
    Throughout step Sound State.init sampleCalls ∧ Meets step Right State.init sampleCalls :=
  scratch_sound sampleCalls (by decide +kernel) (by decide +kernel)

/-- A reservation after a commit moves the block. -/
def sampleGrowth : List Call :=
  [.register 0x10000 true, .reserve 0x10000 10 1 (some 0), .commit 0x10000 10 1,
    .reserve 0x10000 100 1 (some 0)]

/-- The piece is in a block that is not the base block, and the reservation did not panic. -/
theorem not_sound_sampleGrowth : Meets step TakesTurns State.init sampleGrowth ∧
    ¬ Throughout step Sound State.init sampleGrowth ∧
    ¬ Meets step Right State.init sampleGrowth := by
  refine ⟨by decide +kernel, fun h => ?_, by decide +kernel⟩
  have hs := h sampleGrowth _ (List.prefix_refl _) rfl
  have hblock := (hs.base_kept ⟨0x10000, .dm1, some 0, 0, 10⟩ List.mem_cons_self).1
  exact absurd (Option.some.inj hblock) (by decide)

end Mh40.ScratchMemory
