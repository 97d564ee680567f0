import Mathlib.Algebra.Order.Ring.Int
import Mathlib.Data.List.Basic

/-!
# The message queue

Model of the queue of `trap_api_message.c`, for the messages of one task that are sent with a delay
and without a condition. The queue is kept in the order of the times at which they are due.

* A time is a number of milliseconds. The code holds 32 bits of it, and compares two times by their
  signed 32-bit difference `vmDiff`.
* `Ordered`: the queue is in order, and everything in it is due in less than 2³¹ ms. Then `vmDiff`
  is the difference.
* `filter_insert_of_pos`, `filter_cancelFirst`: what an operation does to the messages of one kind;
  `filter_insert_of_neg`, `filter_cancelFirst_of_disjoint`: to those that it is not about.
-/

namespace Mh40.VmMessage

open List

/-- `AppMessage`. -/
structure AppMessage where
  id : ℕ
  due : ℤ
  deriving DecidableEq, Repr

/-- `VM_DIFF`. -/
def vmDiff (t u : ℤ) : ℤ := Int.bmod (t - u) (2 ^ 32)

/-- `insert`: behind the messages that are due at the same time. -/
def insert (a : AppMessage) : List AppMessage → List AppMessage
  | [] => [a]
  | p :: rest => if vmDiff a.due p.due ≥ 0 then p :: insert a rest else a :: p :: rest

/-- `MessageSendLater`, at the time `now`. -/
def messageSendLater (queue : List AppMessage) (now : ℤ) (id : ℕ) (delay : BitVec 32) :
    List AppMessage :=
  insert ⟨id, now + delay.toNat⟩ queue

/-- `MessageCancelFirst`. -/
def messageCancelFirst (queue : List AppMessage) (id : ℕ) : List AppMessage :=
  queue.eraseP (·.id = id)

/-- `MessagePendingFirst`: when the first such message is due, from `now` on. -/
def messagePendingFirst (queue : List AppMessage) (now : ℤ) (id : ℕ) : Option ℤ :=
  (queue.find? (·.id = id)).map fun a => vmDiff a.due now

/-- `vm_message_next`: the message that it delivers, and the queue without it. -/
def vmMessageNext (queue : List AppMessage) (now : ℤ) : Option (AppMessage × List AppMessage) :=
  match queue with
  | [] => none
  | a :: rest => if vmDiff a.due now > 0 then none else some (a, rest)

variable {queue rest : List AppMessage} {a : AppMessage} {now : ℤ} {id : ℕ} {p : AppMessage → Bool}

/-- A message is put somewhere between the others. -/
theorem insert_eq (a : AppMessage) (queue : List AppMessage) :
    ∃ front back, queue = front ++ back ∧ insert a queue = front ++ a :: back := by
  induction queue with
  | nil => exact ⟨[], [], rfl, rfl⟩
  | cons p rest ih =>
    unfold insert
    split
    · obtain ⟨front, back, hrest, hinsert⟩ := ih
      exact ⟨p :: front, back, by rw [hrest, cons_append], by rw [hinsert, cons_append]⟩
    · exact ⟨[], p :: rest, rfl, rfl⟩

/-- Two times less than 2³¹ ms apart. -/
theorem vmDiff_eq {t u : ℤ} (hlow : -2 ^ 31 ≤ t - u) (hhigh : t - u < 2 ^ 31) :
    vmDiff t u = t - u := by
  unfold vmDiff
  rw [Int.bmod_def]
  split_ifs <;> omega

/-! ## Order -/

/-- The messages are in the order of their times, which are less than 2³¹ ms after `now`. -/
structure Ordered (queue : List AppMessage) (now : ℤ) : Prop where
  sorted : queue.Pairwise fun a b => a.due ≤ b.due
  soon : ∀ a ∈ queue, now ≤ a.due ∧ a.due < now + 2 ^ 31

theorem Ordered.nil (now : ℤ) : Ordered [] now :=
  ⟨List.Pairwise.nil, fun _ h => (nomatch h)⟩

theorem Ordered.vmDiff_eq (h : Ordered queue now) (ha : a ∈ queue) :
    vmDiff a.due now = a.due - now := by
  obtain ⟨hlow, hhigh⟩ := h.soon a ha
  exact VmMessage.vmDiff_eq (by omega) (by omega)

theorem Ordered.sublist (h : Ordered queue now) (hsub : rest.Sublist queue) : Ordered rest now :=
  ⟨h.sorted.sublist hsub, fun a ha => h.soon a (hsub.subset ha)⟩

/-- Cancelling keeps the order. -/
theorem Ordered.cancelFirst (h : Ordered queue now) (id : ℕ) :
    Ordered (messageCancelFirst queue id) now :=
  h.sublist eraseP_sublist

theorem mem_insert {b : AppMessage} : b ∈ insert a queue ↔ b = a ∨ b ∈ queue := by
  obtain ⟨front, back, rfl, hinsert⟩ := insert_eq a queue
  rw [hinsert, mem_append, mem_cons, mem_append, or_left_comm]

/-- **Sending keeps the order.** -/
theorem Ordered.insert (h : Ordered queue now) (hlow : now ≤ a.due) (hhigh : a.due < now + 2 ^ 31) :
    Ordered (insert a queue) now := by
  refine ⟨?_, fun b hb => ?_⟩
  · induction queue with
    | nil => exact pairwise_singleton _ _
    | cons p rest ih =>
      obtain ⟨hp, hrest⟩ := pairwise_cons.mp h.sorted
      have hsoon := h.soon p mem_cons_self
      have hdiff : vmDiff a.due p.due = a.due - p.due :=
        VmMessage.vmDiff_eq (by omega) (by omega)
      unfold VmMessage.insert
      rw [hdiff]
      split_ifs with hge
      · refine pairwise_cons.mpr ⟨fun b hb => ?_, ih (h.sublist (sublist_cons_self _ _))⟩
        rcases mem_insert.mp hb with rfl | hb
        · omega
        · exact hp b hb
      · refine pairwise_cons.mpr ⟨fun b hb => ?_, h.sorted⟩
        rcases mem_cons.mp hb with rfl | hb
        · omega
        · have hpb := hp b hb
          omega
  · rcases mem_insert.mp hb with rfl | hb
    · exact ⟨hlow, hhigh⟩
    · exact h.soon b hb

/-! ## Other messages -/

/-- A message of another kind is not seen among the messages. -/
theorem filter_insert_of_neg (ha : ¬p a) :
    (insert a queue).filter p = queue.filter p := by
  obtain ⟨front, back, rfl, hinsert⟩ := insert_eq a queue
  rw [hinsert, filter_append, filter_cons_of_neg ha, filter_append]

/-- A message is put somewhere between those of its kind. -/
theorem filter_insert_of_pos (ha : p a) :
    ∃ front back, queue.filter p = front ++ back ∧
      (insert a queue).filter p = front ++ a :: back := by
  obtain ⟨front, back, rfl, hinsert⟩ := insert_eq a queue
  refine ⟨front.filter p, back.filter p, filter_append .., ?_⟩
  rw [hinsert, filter_append, filter_cons_of_pos ha]

/-- Cancelling a message of one kind takes it out of the messages of this kind. -/
theorem filter_cancelFirst (hp : ∀ a : AppMessage, a.id = id → p a) :
    (messageCancelFirst queue id).filter p = messageCancelFirst (queue.filter p) id := by
  unfold messageCancelFirst
  rw [eraseP_filter]
  refine congrArg (List.filter p) (congrArg (queue.eraseP ·) (funext fun a => ?_))
  by_cases ha : a.id = id
  · rw [hp a ha, Bool.and_true]
  · rw [decide_eq_false ha, Bool.false_and]

/-- Cancelling a message leaves those of another kind. -/
theorem filter_cancelFirst_of_disjoint (hp : ∀ a : AppMessage, a.id = id → ¬p a) :
    (messageCancelFirst queue id).filter p = queue.filter p := by
  unfold messageCancelFirst
  induction queue with
  | nil => rfl
  | cons a rest ih =>
    by_cases ha : a.id = id
    · simp [ha, hp a ha]
    · rw [eraseP_cons_of_neg (by simpa using ha), filter_cons, ih, ← filter_cons]

/-- A message is found among those of its kind. -/
theorem messagePendingFirst_filter (hp : ∀ a : AppMessage, a.id = id → p a) :
    messagePendingFirst (queue.filter p) now id = messagePendingFirst queue now id := by
  unfold messagePendingFirst
  rw [find?_filter]
  refine congrArg (Option.map _) (congrArg (queue.find? ·) (funext fun a => ?_))
  by_cases ha : a.id = id
  · simp [hp a ha, ha]
  · simp [ha]

end Mh40.VmMessage
