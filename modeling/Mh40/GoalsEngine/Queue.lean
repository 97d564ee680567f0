import Mh40.GoalsEngine.Spec

/-!
# The pending entries and the decisions that wait on them

`WellQueued` is the invariant of the queue of a goal set whose goals have one rule message each
(`ruleOf`):

* `Slots`: an entry in use carries the rule message of its goal, no two entries are in use for one
  goal, an unused entry is all zero, every waiting decision is conditional on the lock of an entry
  with its rule message, and a lock is set exactly when its mask is not empty;
* `Counted`: `queue_msg_count` is the number of waiting decisions;
* `Exact`: the lock mask of an entry with a waiting decision holds the active goals that its goal
  has to wait for.

Every function of the engine keeps it; `wellQueued_queueGoal` only as long as the count does not
wrap around.
-/

namespace Mh40.GoalsEngine

open Lib List Option

variable {T : GoalTable} {ruleOf : GoalId → MessageId} {o : Procedures} {e e' : Engine}
  {entry : PendingGoalEntry} {goal : GoalId} {mask : GoalMask} {goalData : Option (List UInt8)}
  {d : Decision}

structure Slots (T : GoalTable) (ruleOf : GoalId → MessageId) (e : Engine) : Prop where
  bound : ∀ i, (e.pendingGoals i).id < T.goalsCount
  rule : ∀ i, (e.pendingGoals i).id ≠ 0 → (e.pendingGoals i).ruleId = ruleOf (e.pendingGoals i).id
  unused : ∀ i, (e.pendingGoals i).id = 0 → e.pendingGoals i = clearedEntry
  one : ∀ i j, (e.pendingGoals i).id ≠ 0 → (e.pendingGoals i).id = (e.pendingGoals j).id → i = j
  sent : ∀ m ∈ e.queueTask, (e.pendingGoals m.slot).id ≠ 0 ∧
    m.ruleId = (e.pendingGoals m.slot).ruleId
  lock : ∀ i, (e.pendingGoals i).lock ≠ 0 ↔ (e.pendingGoals i).lockMask ≠ 0

def Counted (e : Engine) : Prop := e.queueMsgCount.toNat = e.queueTask.length

def Exact (T : GoalTable) (e : Engine) : Prop :=
  ∀ m ∈ e.queueTask, (e.pendingGoals m.slot).lockMask =
    waitMask T e.activeGoalsMask (e.pendingGoals m.slot).id

structure WellQueued (T : GoalTable) (ruleOf : GoalId → MessageId) (e : Engine) : Prop where
  slots : Slots T ruleOf e
  counted : Counted e
  exact : Exact T e

/-! ## Entries -/

@[simp] theorem setLock_id :
    (entry.setLock mask).id = entry.id := rfl

@[simp] theorem setLock_ruleId :
    (entry.setLock mask).ruleId = entry.ruleId := rfl

@[simp] theorem setLock_lockMask :
    (entry.setLock mask).lockMask = mask := rfl

theorem setLock_lock :
    (entry.setLock mask).lock ≠ 0 ↔ (entry.setLock mask).lockMask ≠ 0 := by
  unfold PendingGoalEntry.setLock
  by_cases h : mask = 0 <;> simp [h]

theorem clearedEntry_lock : clearedEntry.lock ≠ 0 ↔ clearedEntry.lockMask ≠ 0 :=
  iff_of_false (fun h => h rfl) fun h => h rfl

/-- Entries that are rewritten one by one, each keeping its goal and rule or being cleared, where
no decision waits on a cleared one. -/
theorem slots_of_entries (h : Slots T ruleOf e) (hq : ∀ m ∈ e'.queueTask, m ∈ e.queueTask)
    (hp : ∀ i, e'.pendingGoals i = clearedEntry ∨
      (e'.pendingGoals i).id = (e.pendingGoals i).id ∧
        (e'.pendingGoals i).ruleId = (e.pendingGoals i).ruleId ∧
        ((e.pendingGoals i).id = 0 → e'.pendingGoals i = clearedEntry))
    (hm : ∀ m ∈ e'.queueTask, (e'.pendingGoals m.slot).id = (e.pendingGoals m.slot).id ∧
      (e'.pendingGoals m.slot).ruleId = (e.pendingGoals m.slot).ruleId)
    (hl : ∀ i, (e'.pendingGoals i).lock ≠ 0 ↔ (e'.pendingGoals i).lockMask ≠ 0) :
    Slots T ruleOf e' := by
  have hid : ∀ i, (e'.pendingGoals i).id ≠ 0 → (e'.pendingGoals i).id = (e.pendingGoals i).id ∧
      (e'.pendingGoals i).ruleId = (e.pendingGoals i).ruleId := by
    intro i hi
    rcases hp i with hc | ⟨h1, h2, -⟩
    · exact absurd (congrArg PendingGoalEntry.id hc) hi
    · exact ⟨h1, h2⟩
  constructor
  · intro i
    rcases hp i with hc | ⟨h1, -, -⟩
    · rw [hc]
      exact T.validated.1
    · rw [h1]
      exact h.bound i
  · intro i hi
    obtain ⟨h1, h2⟩ := hid i hi
    rw [h2, h1]
    exact h.rule i (h1 ▸ hi)
  · intro i hi
    rcases hp i with hc | ⟨h1, -, h3⟩
    · exact hc
    · exact h3 (h1 ▸ hi)
  · intro i j hi hij
    have hj : (e'.pendingGoals j).id ≠ 0 := hij ▸ hi
    obtain ⟨h1, -⟩ := hid i hi
    obtain ⟨h2, -⟩ := hid j hj
    exact h.one i j (h1 ▸ hi) (h1 ▸ h2 ▸ hij)
  · intro m hmem
    obtain ⟨h1, h2⟩ := hm m hmem
    obtain ⟨h3, h4⟩ := h.sent m (hq m hmem)
    exact ⟨h1 ▸ h3, h2 ▸ h4⟩
  · exact hl

/-! ## Emptying the queue -/

theorem wellQueued_create : WellQueued T ruleOf createGoalSet where
  slots := by
    constructor
    · exact fun _ => T.validated.1
    · exact fun i hi => absurd rfl hi
    · exact fun i _ => rfl
    · exact fun i j hi => absurd rfl hi
    · exact fun m hm => absurd hm not_mem_nil
    · exact fun i => clearedEntry_lock
  counted := rfl
  exact _ hm := absurd hm not_mem_nil

theorem queueTask_eq_nil (h : Counted e) (hz : e.queueMsgCount = 0) : e.queueTask = [] := by
  unfold Counted at h
  rw [hz] at h
  exact eq_nil_of_length_eq_zero h.symm

/-- With no decision waiting, all entries may be cleared. -/
theorem wellQueued_of_nil (hq : e.queueTask = []) (hc : e.queueMsgCount = 0)
    (hp : e.pendingGoals = fun _ => clearedEntry) : WellQueued T ruleOf e := by
  refine ⟨⟨?_, ?_, ?_, ?_, ?_, ?_⟩, ?_, ?_⟩
  · intro i
    rw [hp]
    exact T.validated.1
  · exact fun i hi => absurd (by rw [hp]; rfl) hi
  · exact fun i _ => by rw [hp]
  · exact fun i j hi => absurd (by rw [hp]; rfl) hi
  · exact fun m hm => absurd (hq ▸ hm) not_mem_nil
  · exact fun i => by rw [hp]; exact clearedEntry_lock
  · rw [Counted, hq, hc]
    rfl
  · exact fun m hm => absurd (hq ▸ hm) not_mem_nil

theorem pendingGoals_reset_of_zero (h : e.queueMsgCount = 0) :
    (resetPendingQueueIfEmpty e).pendingGoals = fun _ => clearedEntry := by
  rw [resetPendingQueueIfEmpty, if_pos h]

theorem wellQueued_reset (h : WellQueued T ruleOf e) :
    WellQueued T ruleOf (resetPendingQueueIfEmpty e) := by
  unfold resetPendingQueueIfEmpty
  split
  · rename_i hz
    exact wellQueued_of_nil (queueTask_eq_nil h.counted hz) hz rfl
  · exact h

theorem wellQueued_clearPendingGoalsQueue : WellQueued T ruleOf (clearPendingGoalsQueue e) := by
  unfold clearPendingGoalsQueue resetPendingQueueIfEmpty
  rw [if_pos rfl]
  exact wellQueued_of_nil rfl rfl rfl

/-- `goalsEngine_DequeGoal` cancels the decisions of the entry it clears, and counts them out. -/
theorem wellQueued_dequeGoal (h : WellQueued T ruleOf e) :
    WellQueued T ruleOf (dequeGoal e goal) := by
  unfold dequeGoal
  split
  · exact h
  · rename_i slot hslot
    -- the decisions that stay have another rule message, so they wait on another entry
    have hstay : ∀ m ∈ e.queueTask.filter (fun m => m.ruleId != (e.pendingGoals slot).ruleId),
        m ∈ e.queueTask ∧ m.slot ≠ slot := by
      intro m hm
      obtain ⟨hmem, hne⟩ := mem_filter.mp hm
      refine ⟨hmem, fun hs => bne_iff_ne.mp hne ?_⟩
      rw [(h.slots.sent m hmem).2, hs]
    refine ⟨slots_of_entries h.slots (fun m hm => (hstay m hm).1) ?_ ?_ ?_, ?_, ?_⟩
    · intro i
      by_cases hi : i = slot
      · exact .inl (if_pos hi)
      · refine .inr ⟨?_, ?_, fun hz => ?_⟩
        · simp only [if_neg hi]
        · simp only [if_neg hi]
        · simp only [if_neg hi]
          exact h.slots.unused i hz
    · intro m hm
      simp only [if_neg (hstay m hm).2, and_self]
    · intro i
      by_cases hi : i = slot
      · simp only [if_pos hi]
        exact clearedEntry_lock
      · simp only [if_neg hi]
        exact h.slots.lock i
    · have hlen := length_eq_countP_add_countP
        (fun m : QueuedDecision => m.ruleId == (e.pendingGoals slot).ruleId) (l := e.queueTask)
      have hfil : (e.queueTask.filter fun m => m.ruleId != (e.pendingGoals slot).ruleId).length =
          e.queueTask.countP fun m => ¬ (m.ruleId == (e.pendingGoals slot).ruleId) = true := by
        rw [← countP_eq_length_filter]
        exact countP_congr fun m _ => by simp [bne]
      have hc := h.counted
      unfold Counted at hc ⊢
      have hlt := e.queueMsgCount.toNat_lt
      simp only [hfil]
      rw [UInt8.toNat_sub_of_le, UInt8.toNat_ofNat', Nat.mod_eq_of_lt]
      · omega
      · omega
      · rw [UInt8.le_iff_toNat_le, UInt8.toNat_ofNat', Nat.mod_eq_of_lt] <;> omega
    · intro m hm
      obtain ⟨hmem, hne⟩ := hstay m hm
      simp only [if_neg hne]
      exact h.exact m hmem

/-! ## Clearing and cancelling goals -/

theorem slots_clearGoal (h : Slots T ruleOf e) :
    Slots T ruleOf (clearGoal e goal) := by
  refine slots_of_entries h (fun _ hm => hm) ?_ ?_ ?_
  · intro i
    by_cases hi : (e.pendingGoals i).id = 0
    · left
      simp only [clearGoal, goalIdNone, hi, ne_eq, not_true_eq_false, if_false]
      exact h.unused i hi
    · right
      simp only [clearGoal, goalIdNone, hi, ne_eq, not_false_eq_true, if_true, setLock_id,
        setLock_ruleId, false_implies, and_self]
  · intro m hm
    simp only [clearGoal]
    split <;> exact ⟨rfl, rfl⟩
  · intro i
    simp only [clearGoal]
    split
    · exact setLock_lock
    · exact h.lock i

theorem wellQueued_clearGoal (h : WellQueued T ruleOf e) :
    WellQueued T ruleOf (clearGoal e goal) := by
  refine ⟨slots_clearGoal h.slots, h.counted, fun m hm => ?_⟩
  have hid := (h.slots.sent m hm).1
  simp only [clearGoal, goalIdNone, hid, ne_eq, not_false_eq_true, if_true, setLock_lockMask,
    setLock_id]
  rw [h.exact m hm, waitMask_remove]

theorem wellQueued_calls {calls : List ProcedureCall} (h : WellQueued T ruleOf e) :
    WellQueued T ruleOf { e with calls } :=
  ⟨⟨h.slots.bound, h.slots.rule, h.slots.unused, h.slots.one, h.slots.sent, h.slots.lock⟩, h.counted, h.exact⟩

theorem wellQueued_cancelGoal (h : WellQueued T ruleOf e) :
    WellQueued T ruleOf (cancelGoal o e goal) := by
  simp only [cancelGoal]
  split
  · exact wellQueued_clearGoal (wellQueued_calls h)
  · exact wellQueued_calls h

theorem wellQueued_cancelActiveGoals : WellQueued T ruleOf (cancelActiveGoals o e) := by
  unfold cancelActiveGoals
  have h : WellQueued T ruleOf (clearPendingGoalsQueue e) := wellQueued_clearPendingGoalsQueue
  generalize clearPendingGoalsQueue e = e₁ at h
  induction goalsOfMask e.activeGoalsMask generalizing e₁ with
  | nil => exact h
  | cons goal l ih => exact ih _ (wellQueued_cancelGoal h)

theorem wellQueued_handleExclusiveGoals (h : WellQueued T ruleOf e) :
    WellQueued T ruleOf (handleExclusiveGoals T o e goal mask).1 := by
  simp only [handleExclusiveGoals]
  split
  · exact wellQueued_cancelGoal (wellQueued_dequeGoal h)
  · exact h

/-! ## Starting and queueing goals -/

/-- What the entry of a goal that is still queued keeps and gets. -/
structure Relocked (T : GoalTable) (active : GoalMask) (entry entry' : PendingGoalEntry) : Prop where
  id : entry'.id = entry.id
  rule : entry'.ruleId = entry.ruleId
  mask : entry'.lockMask = waitMask T active entry.id
  lock : entry'.lock ≠ 0 ↔ entry'.lockMask ≠ 0

theorem updateEntry_of_not_pending (h : messagePending e entry.ruleId = false) :
    updateEntry T e entry = clearedEntry := by
  unfold updateEntry
  rw [h]
  rfl

theorem updateEntry_of_pending (h : messagePending e entry.ruleId = true) (hr : entry.ruleId ≠ 0)
    (hl : entry.lock ≠ 0 ↔ entry.lockMask ≠ 0) :
    Relocked T e.activeGoalsMask entry (updateEntry T e entry) := by
  have heq : updateEntry T e entry =
      if waitMask T e.activeGoalsMask entry.id ≠ entry.lockMask then
        entry.setLock (waitMask T e.activeGoalsMask entry.id)
      else entry := by
    unfold updateEntry waitMask
    rw [h, Bool.not_true, if_neg Bool.false_ne_true, if_pos hr]
  rw [heq]
  by_cases hsame : waitMask T e.activeGoalsMask entry.id = entry.lockMask
  · rw [if_neg (not_not.mpr hsame)]
    exact ⟨rfl, rfl, hsame.symm, hl⟩
  · rw [if_pos hsame]
    exact ⟨rfl, rfl, rfl, setLock_lock⟩

theorem messagePending_of_sent (hs : Slots T ruleOf e) {m : QueuedDecision} (hm : m ∈ e.queueTask) :
    messagePending e (e.pendingGoals m.slot).ruleId = true := by
  unfold messagePending
  exact List.any_eq_true.mpr ⟨m, hm, beq_iff_eq.mpr (hs.sent m hm).2⟩

section

variable (hr : ∀ g, g ≠ 0 → g < T.goalsCount → ruleOf g ≠ 0)
include hr

/-- No decision has the rule message 0 of an unused entry. -/
theorem not_messagePending_zero (hs : Slots T ruleOf e) :
    messagePending e 0 = false := by
  unfold messagePending
  refine List.any_eq_false.mpr fun m hm hm0 => ?_
  obtain ⟨hid, hrule⟩ := hs.sent m hm
  rw [beq_iff_eq, hrule, hs.rule _ hid] at hm0
  exact hr _ hid (hs.bound _) hm0

/-- An entry is cleared, or kept with the mask of the goals active now; it is kept if a decision
waits on it. -/
theorem updateEntry_cases (hs : Slots T ruleOf e) (i : Fin initialGoalQueueCount) :
    (updateEntry T e (e.pendingGoals i) = clearedEntry ∧ ∀ m ∈ e.queueTask, m.slot ≠ i) ∨
      (e.pendingGoals i).id ≠ 0 ∧
        Relocked T e.activeGoalsMask (e.pendingGoals i) (updateEntry T e (e.pendingGoals i)) := by
  cases hp : messagePending e (e.pendingGoals i).ruleId with
  | false =>
    refine .inl ⟨updateEntry_of_not_pending hp, fun m hm hmi => ?_⟩
    rw [← hmi, messagePending_of_sent hs hm] at hp
    cases hp
  | true =>
    have hid : (e.pendingGoals i).id ≠ 0 := by
      intro h0
      rw [hs.unused i h0] at hp
      exact Bool.false_ne_true ((not_messagePending_zero hr hs).symm.trans hp)
    have hne : (e.pendingGoals i).ruleId ≠ 0 := by
      rw [hs.rule i hid]
      exact hr _ hid (hs.bound _)
    exact .inr ⟨hid, updateEntry_of_pending hp hne (hs.lock i)⟩

/-- `goalsEngine_UpdateQueueMasks` makes the lock masks exact, whatever they were. -/
theorem wellQueued_updateQueueMasks (hs : Slots T ruleOf e) (hc : Counted e) :
    WellQueued T ruleOf (updateQueueMasks T e) := by
  by_cases hz : e.queueMsgCount = 0
  · have hnil := queueTask_eq_nil hc hz
    rw [updateQueueMasks, if_neg (not_not.mpr hz)]
    exact ⟨hs, hc, fun m hm => absurd (hnil ▸ hm) not_mem_nil⟩
  · rw [updateQueueMasks, if_pos hz]
    have hkept : ∀ m ∈ e.queueTask, Relocked T e.activeGoalsMask (e.pendingGoals m.slot)
        (updateEntry T e (e.pendingGoals m.slot)) := fun m hm =>
      (updateEntry_cases hr hs m.slot).elim (fun h => absurd rfl (h.2 m hm)) And.right
    refine ⟨slots_of_entries hs (fun _ hm => hm) ?_ ?_ ?_, hc, ?_⟩
    · intro i
      rcases updateEntry_cases hr hs i with ⟨h, -⟩ | ⟨hid, h⟩
      · exact .inl h
      · exact .inr ⟨h.id, h.rule, fun h0 => absurd h0 hid⟩
    · exact fun m hm => ⟨(hkept m hm).id, (hkept m hm).rule⟩
    · intro i
      rcases updateEntry_cases hr hs i with ⟨h, -⟩ | ⟨-, h⟩
      · dsimp only
        rw [h]
        exact clearedEntry_lock
      · exact h.lock
    · intro m hm
      simp only [(hkept m hm).mask, (hkept m hm).id]

theorem wellQueued_startGoal (h : WellQueued T ruleOf e) :
    WellQueued T ruleOf (startGoal T o e goal goalData) := by
  have hs : Slots T ruleOf { e with
      activeGoalsMask := e.activeGoalsMask ||| goalMask goal
      calls := e.calls ++ [.start goal goalData e.activeGoalsMask] } :=
    ⟨h.slots.bound, h.slots.rule, h.slots.unused, h.slots.one, h.slots.sent, h.slots.lock⟩
  unfold startGoal
  refine wellQueued_updateQueueMasks hr ?_ ?_
  · split
    · exact slots_clearGoal hs
    · exact hs
  · split <;> exact h.counted

end

/-- The slot found is the goal's own, or unused with no slot of the goal. -/
theorem findSlot_spec {slot : Fin initialGoalQueueCount} (h : findSlot e goal = some slot) :
    (e.pendingGoals slot).id = goal ∨
      (e.pendingGoals slot).id = 0 ∧ ∀ i, (e.pendingGoals i).id ≠ goal := by
  simp only [findSlot, or_eq_some_iff] at h
  rcases h with h | ⟨hnone, h⟩
  · left
    simpa using find?_some h
  · refine .inr ⟨by simpa [goalIdNone] using find?_some h, fun i hi => ?_⟩
    exact find?_eq_none.mp hnone i (mem_finRange i) (beq_iff_eq.mpr hi)

/-- **Queueing a goal on the goals it has to wait for** keeps the queue, unless the count of 255
decisions wraps around. -/
theorem wellQueued_queueGoal {size : ℕ} (h : WellQueued T ruleOf e) (hg : goal ≠ 0)
    (hlt : goal < T.goalsCount)
    (hq : queueGoal e (ruleOf goal) goalData size (waitMask T e.activeGoalsMask goal) goal =
      some e') (hlen : e'.queueTask.length ≤ 255) : WellQueued T ruleOf e' := by
  obtain ⟨slot, hslot, rfl⟩ := map_eq_some_iff.mp hq
  have hfind := findSlot_spec hslot
  -- decisions that wait on the slot already are decisions of the same goal
  have hown : ∀ m ∈ e.queueTask, m.slot = slot → (e.pendingGoals slot).id = goal := by
    intro m hm hms
    refine hfind.resolve_right fun h0 => ?_
    exact (h.slots.sent m hm).1 (hms ▸ h0.1)
  refine ⟨⟨?_, ?_, ?_, ?_, ?_, ?_⟩, ?_, ?_⟩
  · intro i
    by_cases his : i = slot
    · simp only [if_pos his, setLock_id]
      exact hlt
    · simp only [if_neg his]
      exact h.slots.bound i
  · intro i hi
    by_cases his : i = slot
    · simp only [if_pos his, setLock_ruleId, setLock_id]
    · simp only [if_neg his] at hi ⊢
      exact h.slots.rule i hi
  · intro i hi
    by_cases his : i = slot
    · simp only [if_pos his, setLock_id] at hi
      exact absurd hi hg
    · simp only [if_neg his] at hi ⊢
      exact h.slots.unused i hi
  · intro i j hi hij
    have hother : ∀ k, k ≠ slot → (e.pendingGoals k).id ≠ goal := by
      intro k hk hkg
      rcases hfind with hs | hs
      · exact hk (h.slots.one k slot (hkg ▸ hg) (hkg.trans hs.symm))
      · exact hs.2 k hkg
    by_cases his : i = slot
    · by_cases hjs : j = slot
      · exact his.trans hjs.symm
      · simp only [if_pos his, if_neg hjs, setLock_id] at hij
        exact absurd hij.symm (hother j hjs)
    · by_cases hjs : j = slot
      · simp only [if_neg his, if_pos hjs, setLock_id] at hij
        exact absurd hij (hother i his)
      · simp only [if_neg his, if_neg hjs] at hi hij
        exact h.slots.one i j hi hij
  · intro m hm
    rcases mem_append.mp hm with hm | hm
    · by_cases hms : m.slot = slot
      · simp only [if_pos hms, setLock_id, setLock_ruleId]
        refine ⟨hg, ?_⟩
        obtain ⟨hid, hrule⟩ := h.slots.sent m hm
        rw [hrule, h.slots.rule _ hid, hms, hown m hm hms]
      · simp only [if_neg hms]
        exact h.slots.sent m hm
    · obtain rfl := mem_singleton.mp hm
      simp only [if_true, setLock_id, setLock_ruleId]
      exact ⟨hg, trivial⟩
  · intro i
    by_cases his : i = slot
    · simp only [if_pos his]
      exact setLock_lock
    · simp only [if_neg his]
      exact h.slots.lock i
  · have hc := h.counted
    rw [length_append, length_singleton] at hlen
    unfold Counted at hc ⊢
    rw [length_append, length_singleton, UInt8.toNat_add, hc]
    exact Nat.mod_eq_of_lt (Nat.lt_succ_of_le hlen)
  · intro m hm
    by_cases hms : m.slot = slot
    · simp only [if_pos hms, setLock_lockMask, setLock_id]
    · simp only [if_neg hms]
      rcases mem_append.mp hm with hm | hm
      · exact h.exact m hm
      · exact absurd (congrArg QueuedDecision.slot (mem_singleton.mp hm)) hms

/-! ## One call -/

theorem wellQueued_startOrQueue (hr : ∀ g, g ≠ 0 → g < T.goalsCount → ruleOf g ≠ 0)
    {canStart : Bool} (h : WellQueued T ruleOf e) (hg : d.goal ≠ 0) (hlt : d.goal < T.goalsCount)
    (hrule : d.ruleId = ruleOf d.goal) (hmask : mask = waitMask T e.activeGoalsMask d.goal)
    (hs : startOrQueue T o e d canStart mask = some e') (hlen : e'.queueTask.length ≤ 255) :
    WellQueued T ruleOf e' := by
  unfold startOrQueue at hs
  split at hs
  · cases hs
    exact wellQueued_startGoal hr h
  · rw [hrule, hmask] at hs
    exact wellQueued_queueGoal h hg hlt hs hlen

theorem waitMask_of_cancels {active : GoalMask} (h : goalCancelsActive T goal = true) :
    waitMask T active goal = active := by
  unfold waitMask
  rw [beq_iff_eq.mp h, if_neg (by decide)]

theorem wellQueued_admitGoal (hr : ∀ g, g ≠ 0 → g < T.goalsCount → ruleOf g ≠ 0) {isNewGoal : Bool}
    (h : WellQueued T ruleOf e) (hg : d.goal ≠ 0) (hlt : d.goal < T.goalsCount)
    (hrule : d.ruleId = ruleOf d.goal) (ha : admitGoal T o e isNewGoal d = some e')
    (hlen : e'.queueTask.length ≤ 255) :
    WellQueued T ruleOf e' := by
  unfold admitGoal at ha
  split at ha
  · cases ha
    exact wellQueued_startGoal hr h
  · split at ha
    · rename_i hcancel
      exact wellQueued_startOrQueue hr wellQueued_cancelActiveGoals hg hlt hrule
        (waitMask_of_cancels hcancel).symm ha hlen
    · rw [handleConcurrentGoals_eq] at ha
      exact wellQueued_startOrQueue hr (wellQueued_handleExclusiveGoals h) hg hlt hrule
        active_handleExclusiveGoals ha hlen

theorem queueTask_reset : (resetPendingQueueIfEmpty e).queueTask = e.queueTask := by
  unfold resetPendingQueueIfEmpty
  split <;> rfl

/-- **One call keeps the queue**, when the decision has been counted and no more than 255 decisions
wait afterwards. -/
theorem wellQueued_activateGoal (hr : ∀ g, g ≠ 0 → g < T.goalsCount → ruleOf g ≠ 0)
    {isNewGoal : Bool} (h : WellQueued T ruleOf (countDecision e isNewGoal)) (hg : d.goal ≠ 0)
    (hlt : d.goal < T.goalsCount) (hrule : d.ruleId = ruleOf d.goal)
    (ha : activateGoal T o e isNewGoal d = some e') (hlen : e'.queueTask.length ≤ 255) :
    WellQueued T ruleOf e' := by
  unfold activateGoal at ha
  rw [if_neg (show d.goal ≠ goalIdNone from hg)] at ha
  split at ha
  · cases ha
    exact wellQueued_clearPendingGoalsQueue
  · obtain ⟨e₁, ha1, rfl⟩ := map_eq_some_iff.mp ha
    rw [queueTask_reset] at hlen
    exact wellQueued_reset (wellQueued_admitGoal hr h hg hlt hrule ha1 hlen)

/-- A delivered decision has left `queue_task` and is counted out. -/
theorem wellQueued_takeMessage {k : ℕ} {m : QueuedDecision} (h : WellQueued T ruleOf e)
    (hm : e.queueTask[k]? = some m) : WellQueued T ruleOf (countDecision (takeMessage e k) false) := by
  obtain ⟨hk, -⟩ := List.getElem?_eq_some_iff.mp hm
  have hsub : ∀ m ∈ e.queueTask.eraseIdx k, m ∈ e.queueTask := fun m hm =>
    mem_of_mem_eraseIdx hm
  refine ⟨⟨h.slots.bound, h.slots.rule, h.slots.unused, h.slots.one, fun m hm => h.slots.sent m (hsub m hm),
    h.slots.lock⟩, ?_, fun m hm => h.exact m (hsub m hm)⟩
  have hc := h.counted
  unfold Counted at hc ⊢
  simp only [countDecision, takeMessage, Bool.false_eq_true, if_false]
  rw [length_eraseIdx_of_lt hk, UInt8.toNat_sub_of_le, hc]
  · rfl
  · rw [UInt8.le_iff_toNat_le, hc]
    exact Nat.one_le_of_lt hk

end Mh40.GoalsEngine
