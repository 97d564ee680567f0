import Mathlib.Data.List.Perm.Basic
import Mh40.InputEventManager.Timed
import Mh40.Lib.Run

/-!
# The pending messages

What the functions of the manager do to its pending messages.

* `insertPending_perm`, `InOrder.insertPending`: a message is put in its place.
* `newlySent`: what has been sent between two states.
* `State.others`: the pending messages besides those of the multi-click timer.
* `SameButClicks`: what the counting of clicks leaves alone.
* `Clocked`: the pending messages are in order, and none is overdue. Every event keeps it.
-/

namespace Mh40.InputEventManager.Timed

open Lib List Option

/-! ## The queue -/

/-- In the order in which they are due. -/
def InOrder (pending : List Pending) : Prop := pending.Pairwise fun p q => p.due ≤ q.due

section Queue

variable {m p : Pending} {l : List Pending} {P : Pending → Bool}

theorem insertPending_perm (m : Pending) (l : List Pending) :
    (insertPending m l).Perm (m :: l) := by
  induction l with
  | nil => rfl
  | cons p rest ih =>
    unfold insertPending
    split
    · exact (ih.cons p).trans (List.Perm.swap m p rest)
    · rfl

@[simp] theorem mem_insertPending : p ∈ insertPending m l ↔ p = m ∨ p ∈ l := by
  rw [(insertPending_perm m l).mem_iff, mem_cons]

theorem InOrder.filter (h : InOrder l) : InOrder (l.filter P) := Pairwise.filter P h

theorem InOrder.insertPending (h : InOrder l) (m : Pending) : InOrder (insertPending m l) := by
  induction l with
  | nil => exact pairwise_singleton _ _
  | cons p rest ih =>
    obtain ⟨hp, hrest⟩ := pairwise_cons.mp h
    unfold Timed.insertPending
    split
    case isTrue hle =>
      refine pairwise_cons.mpr ⟨fun q hq => ?_, ih hrest⟩
      rcases mem_insertPending.mp hq with rfl | hq
      · exact hle
      · exact hp q hq
    case isFalse hlt =>
      refine pairwise_cons.mpr ⟨fun q hq => ?_, h⟩
      have hmp : m.due ≤ p.due := Nat.le_of_lt (Nat.lt_of_not_le hlt)
      rcases mem_cons.mp hq with rfl | hq
      · exact hmp
      · exact hmp.trans (hp q hq)

/-- A filter does not see a message that it drops. -/
theorem filter_insertPending_of_not (h : P m = false) :
    (insertPending m l).filter P = l.filter P := by
  induction l with
  | nil => simp [insertPending, h]
  | cons p rest ih =>
    unfold insertPending
    split
    · rw [filter_cons, filter_cons, ih]
    · rw [filter_cons_of_neg (by simp [h])]

end Queue

/-! ## The fields -/

section Fields

variable (s : State) (timer : Timer) (delay : ℕ) (kind : Timer → Bool) (message : Sent)

@[simp] theorem sendLater_pending :
    (s.sendLater timer delay).pending = insertPending ⟨s.now + delay, timer⟩ s.pending := rfl

@[simp] theorem cancelAll_pending :
    (s.cancelAll kind).pending = s.pending.filter fun m => !kind m.timer := rfl

end Fields

/-- What has been sent since the state `s`. -/
def newlySent (s s' : State) : List Sent := s'.sent.drop s.sent.length

theorem newlySent_eq {s s' : State} {new : List Sent} (h : s'.sent = s.sent ++ new) :
    newlySent s s' = new := by
  rw [newlySent, h, drop_left]

/-! ## No message is overdue -/

/-- The pending messages are in order, and none is overdue. -/
structure Clocked (now : ℕ) (pending : List Pending) : Prop where
  inOrder : InOrder pending
  due : ∀ m ∈ pending, now ≤ m.due

section Clocked

variable {now : ℕ} {pending : List Pending} {s s' : State} {a : InputAction} {bits : InputEventBits}
  {actionTable : List InputAction}

theorem Clocked.filter (h : Clocked now pending) (P : Pending → Bool) :
    Clocked now (pending.filter P) :=
  ⟨h.inOrder.filter, fun m hm => h.due m (mem_of_mem_filter hm)⟩

theorem Clocked.insert (h : Clocked now pending) (delay : ℕ) (timer : Timer) :
    Clocked now (insertPending ⟨now + delay, timer⟩ pending) := by
  refine ⟨h.inOrder.insertPending _, fun m hm => ?_⟩
  rcases mem_insertPending.mp hm with rfl | hm
  · exact Nat.le_add_right _ _
  · exact h.due m hm

section

variable (h : Clocked s.now s.pending)
include h

theorem enterAction_clocked (a : InputAction) (bits : InputEventBits) :
    (enterAction s a bits).now = s.now ∧ Clocked s.now (enterAction s a bits).pending := by
  unfold enterAction
  dsimp only
  split_ifs
  · exact ⟨rfl, (h.filter _).insert _ _⟩
  · exact ⟨rfl, h.filter _⟩
  · exact ⟨rfl, h.filter _⟩
  · exact ⟨rfl, h⟩

theorem releaseAction_clocked (a : InputAction) (bits : InputEventBits) :
    (releaseAction s a bits).now = s.now ∧ Clocked s.now (releaseAction s a bits).pending := by
  unfold releaseAction
  split_ifs <;> exact ⟨rfl, h⟩

theorem heldAction_clocked (a : InputAction) (bits : InputEventBits) :
    (heldAction s a bits).now = s.now ∧ Clocked s.now (heldAction s a bits).pending := by
  unfold heldAction heldActionButtonReleaseAction
  split_ifs
  · exact ⟨rfl, h.insert _ _⟩
  · exact ⟨rfl, h.filter _⟩
  · exact ⟨rfl, h.filter _⟩
  · exact ⟨rfl, h⟩

theorem heldReleaseAction_clocked (a : InputAction) (bits : InputEventBits) :
    (heldReleaseAction s a bits).now = s.now ∧
      Clocked s.now (heldReleaseAction s a bits).pending := by
  unfold heldReleaseAction heldReleaseButtonReleaseAction
  dsimp only
  split_ifs
  · exact ⟨rfl, h.insert _ _⟩
  · exact ⟨rfl, h.filter _⟩
  · exact ⟨rfl, h.filter _⟩
  · exact ⟨rfl, h⟩

theorem multiClickAction_clocked (a : InputAction) (bits : InputEventBits) :
    (multiClickAction s a bits).now = s.now ∧
      Clocked s.now (multiClickAction s a bits).pending := by
  unfold multiClickAction
  split_ifs
  · exact ⟨rfl, ((h.filter _).filter _).insert _ _⟩
  · exact ⟨rfl, (h.filter _).insert _ _⟩
  · exact ⟨rfl, h⟩
  · exact ⟨rfl, h⟩
  · exact ⟨rfl, h⟩
  · exact ⟨rfl, ((h.filter _).filter _).insert _ _⟩
  · exact ⟨rfl, h⟩

end

/-- A turn of the loop takes no time. -/
theorem processEntry_clocked (bits : InputEventBits) (s : State × Bool) (a : InputAction)
    (h : Clocked s.1.now s.1.pending) :
    (processEntry bits s a).1.now = s.1.now ∧
      Clocked s.1.now (processEntry bits s a).1.pending := by
  unfold processEntry
  split
  · cases a.action with
    | enter => exact enterAction_clocked h a bits
    | held => exact heldAction_clocked h a bits
    | release => exact releaseAction_clocked h a bits
    | heldRelease => exact heldReleaseAction_clocked h a bits
    | multiClick =>
      cases s.2 with
      | true => exact ⟨rfl, h⟩
      | false => exact multiClickAction_clocked h a bits
  · exact ⟨rfl, h⟩

theorem foldl_processEntry_clocked (bits : InputEventBits) (entries : List InputAction)
    (s : State × Bool) (h : Clocked s.1.now s.1.pending) :
    (entries.foldl (processEntry bits) s).1.now = s.1.now ∧
      Clocked s.1.now (entries.foldl (processEntry bits) s).1.pending := by
  induction entries generalizing s with
  | nil => exact ⟨rfl, h⟩
  | cons a rest ih =>
    obtain ⟨hnow, hclocked⟩ := processEntry_clocked bits s a h
    rw [foldl_cons, ← hnow]
    exact ih _ (hnow ▸ hclocked)

/-- Sending the messages of some entries changes nothing else. -/
theorem foldl_send_eq (l : List InputAction) (s : State) :
    l.foldl (fun s b => s.send (.direct b)) s = { s with sent := s.sent ++ l.map .direct } := by
  induction l generalizing s with
  | nil => simp
  | cons b l ih =>
    rw [foldl_cons, ih]
    simp [State.send]

/-- The message of a timer takes no time. -/
theorem timerExpired_clocked (actionTable : List InputAction) (timer : Timer)
    (h : Clocked s.now s.pending) :
    (timerExpired actionTable s timer).now = s.now ∧
      Clocked s.now (timerExpired actionTable s timer).pending := by
  cases timer with
  | held a =>
    unfold timerExpired handleHeldTimer
    dsimp only
    split_ifs
    · exact ⟨rfl, ((h.filter _).filter _).insert _ _⟩
    · exact ⟨rfl, (h.filter _).filter _⟩
  | «repeat» =>
    unfold timerExpired handleRepeatTimer
    dsimp only
    split
    · exact ⟨rfl, h.insert _ _⟩
    · exact ⟨rfl, h⟩
  | heldRelease a => exact ⟨rfl, h.filter _⟩
  | multiClick a =>
    unfold timerExpired handleMultiClickTimer multiClickEnd
    dsimp only
    rw [foldl_send_eq]
    split_ifs <;> exact ⟨rfl, h.filter _⟩

/-- The message of a timer does not change the bits of the inputs. -/
theorem timerExpired_inputEventBits (table : List InputAction) (s : State) (timer : Timer) :
    (timerExpired table s timer).inputEventBits = s.inputEventBits := by
  cases timer with
  | held a =>
    unfold timerExpired handleHeldTimer
    dsimp only
    split_ifs <;> rfl
  | «repeat» =>
    unfold timerExpired handleRepeatTimer
    dsimp only
    split <;> rfl
  | heldRelease a => rfl
  | multiClick a =>
    unfold timerExpired handleMultiClickTimer
    dsimp only
    rw [foldl_send_eq]
    split_ifs <;> rfl

end Clocked

/-! ## The events -/

section Events

variable {actionTable : List InputAction} {s s' : State} {time : ℕ} {bits : InputEventBits}

theorem step_inputEvents :
    step actionTable s (.inputEvents time bits) = some s' ↔
      s.now ≤ time ∧ (∀ m ∈ s.pending, time < m.due) ∧
        s' = inputEventsChanged actionTable { s with now := time } bits := by
  by_cases h : s.now ≤ time ∧ ∀ m ∈ s.pending, time < m.due
  · rw [step, if_pos h, some.injEq, ← and_assoc, and_iff_right h, eq_comm]
  · rw [step, if_neg h, ← and_assoc]
    exact iff_of_false (by simp) fun h' => h h'.1

theorem step_timer :
    step actionTable s .timer = some s' ↔
      ∃ m rest, s.pending = m :: rest ∧
        s' = timerExpired actionTable { s with now := m.due, pending := rest } m.timer := by
  unfold step
  cases s.pending with
  | nil => simp
  | cons m rest =>
    simp only [some.injEq, cons.injEq]
    constructor
    · rintro rfl
      exact ⟨m, rest, ⟨rfl, rfl⟩, rfl⟩
    · rintro ⟨m, rest, ⟨rfl, rfl⟩, rfl⟩
      rfl

/-- The messages behind the next one, at the time at which it is due. -/
theorem Clocked.tail {m : Pending} {rest : List Pending} {now : ℕ} (h : Clocked now (m :: rest)) :
    now ≤ m.due ∧ Clocked m.due rest := by
  obtain ⟨hm, hrest⟩ := pairwise_cons.mp h.inOrder
  exact ⟨h.due m mem_cons_self, hrest, hm⟩

/-- **No message is ever overdue.** Every event keeps the pending messages in order, and the time
goes on. -/
theorem clock_step {e : Event} (h : Clocked s.now s.pending)
    (hs : step actionTable s e = some s') : s.now ≤ s'.now ∧ Clocked s'.now s'.pending := by
  cases e with
  | inputEvents time bits =>
    obtain ⟨hnow, hdue, rfl⟩ := step_inputEvents.mp hs
    have htime : Clocked time s.pending := ⟨h.inOrder, fun m hm => Nat.le_of_lt (hdue m hm)⟩
    obtain ⟨hnow', hclocked⟩ :=
      foldl_processEntry_clocked bits actionTable ({ s with now := time }, false) htime
    unfold inputEventsChanged
    dsimp only
    rw [hnow']
    exact ⟨hnow, hclocked⟩
  | timer =>
    obtain ⟨m, rest, hpending, rfl⟩ := step_timer.mp hs
    rw [hpending] at h
    obtain ⟨hnow', hclocked⟩ := timerExpired_clocked (s := { s with now := m.due, pending := rest })
      actionTable m.timer h.tail.2
    rw [hnow']
    exact ⟨h.tail.1, hclocked⟩

theorem clocked_step {e : Event} (h : Clocked s.now s.pending)
    (hs : step actionTable s e = some s') : Clocked s'.now s'.pending :=
  (clock_step h hs).2

end Events

/-! ## Besides the multi-click timer -/

/-- The pending messages besides those of the multi-click timer. -/
def State.others (s : State) : List Pending := s.pending.filter fun m => !m.timer.isMultiClick

section Others

variable {s s' : State} {timer : Timer} {delay : ℕ} {kind : Timer → Bool} {m : Pending}

theorem others_sendLater_perm (h : timer.isMultiClick = false) :
    (s.sendLater timer delay).others.Perm (⟨s.now + delay, timer⟩ :: s.others) := by
  unfold State.others
  refine ((insertPending_perm _ _).filter _).trans ?_
  rw [filter_cons_of_pos (by simpa using h)]

theorem mem_others_sendLater (h : timer.isMultiClick = false) :
    m ∈ (s.sendLater timer delay).others ↔ m = ⟨s.now + delay, timer⟩ ∨ m ∈ s.others := by
  rw [(others_sendLater_perm h).mem_iff, mem_cons]

theorem others_sendLater_multiClick (a : InputAction) :
    (s.sendLater (.multiClick a) delay).others = s.others := filter_insertPending_of_not rfl

@[simp] theorem others_cancelAll :
    (s.cancelAll kind).others = s.others.filter fun m => !kind m.timer := by
  unfold State.others
  rw [cancelAll_pending, List.filter_filter, List.filter_filter]
  exact filter_congr fun m _ => Bool.and_comm _ _

theorem mem_others_cancelAll :
    m ∈ (s.cancelAll kind).others ↔ m ∈ s.others ∧ kind m.timer = false := by
  rw [others_cancelAll, mem_filter, Bool.not_eq_true']

theorem others_cancelAll_multiClick : (s.cancelAll Timer.isMultiClick).others = s.others := by
  rw [others_cancelAll, State.others, List.filter_filter]
  exact filter_congr fun m _ => Bool.and_self _

end Others

/-- The two states differ at most in the count of clicks and its timer, in the bits of the inputs,
and in what was sent. -/
structure SameButClicks (s s' : State) : Prop where
  now : s'.now = s.now
  repeatAction : s'.repeatAction = s.repeatAction
  heldRelease : s'.heldRelease = s.heldRelease
  others : s'.others = s.others

theorem sameButClicks_send (s : State) (message : Sent) : SameButClicks s (s.send message) :=
  ⟨rfl, rfl, rfl, rfl⟩

theorem sameButClicks_multiClickEnd (s : State) : SameButClicks s (multiClickEnd s) :=
  ⟨rfl, rfl, rfl, others_cancelAll_multiClick⟩

theorem others_multiClickReStartTimer (s : State) (a : InputAction) :
    (multiClickReStartTimer s a).others = s.others := by
  rw [multiClickReStartTimer, others_sendLater_multiClick, others_cancelAll_multiClick]

theorem multiClickAction_same (s : State) (a : InputAction) (bits : InputEventBits) :
    SameButClicks s (multiClickAction s a bits) ∧
      (multiClickAction s a bits).inputEventBits = s.inputEventBits ∧
      (multiClickAction s a bits).sent = s.sent := by
  have hstart : (multiClickStart s a).others = s.others :=
    (others_multiClickReStartTimer _ a).trans others_cancelAll_multiClick
  have hrestart := others_multiClickReStartTimer s a
  unfold multiClickAction
  split_ifs
  · exact ⟨⟨rfl, rfl, rfl, hstart⟩, rfl, rfl⟩
  · exact ⟨⟨rfl, rfl, rfl, hrestart⟩, rfl, rfl⟩
  · exact ⟨⟨rfl, rfl, rfl, rfl⟩, rfl, rfl⟩
  · exact ⟨⟨rfl, rfl, rfl, rfl⟩, rfl, rfl⟩
  · exact ⟨⟨rfl, rfl, rfl, rfl⟩, rfl, rfl⟩
  · exact ⟨⟨rfl, rfl, rfl, hstart⟩, rfl, rfl⟩
  · exact ⟨⟨rfl, rfl, rfl, rfl⟩, rfl, rfl⟩

theorem handleMultiClickTimer_same (table : List InputAction) (s : State) (a : InputAction) :
    SameButClicks s (handleMultiClickTimer table s a) := by
  unfold handleMultiClickTimer
  rw [foldl_send_eq]
  split_ifs
  · exact sameButClicks_multiClickEnd s
  · refine ⟨rfl, rfl, rfl, ?_⟩
    exact (sameButClicks_multiClickEnd { s with sent := s.sent ++ _ }).others

end Mh40.InputEventManager.Timed
