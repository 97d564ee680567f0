import Mh40.GattManager.Advertising
import Mh40.Lib.Run

/-!
# Cancelling a connection as a peripheral

Counters beside the manager keep the cancels and the connection requests of the application, and
what they were answered with. A cancel counts unless another one is not answered yet.

* `Answered`: every cancel has one confirmation, or it is under way, and the same for requests; nothing
  is marked as pending while the state is idle.
* `Permits`: when an event keeps this. Of the three outcomes of a connection only a failure takes the
  mark of a pending cancel away, and a queued `CANCEL_ADVERTISING` is not taken back.
* `throughout_answered_iff`: a run is right throughout exactly when all of its events are permitted.
-/

namespace Mh40.GattManager

open Lib Option List

/-! ## Statement -/

/-- The manager, with the requests of the application and the answers to them. -/
structure Exchange where
  data : Peripheral
  /-- The cancels that did not find another one unanswered. -/
  cancels : ℕ
  cancelCfms : ℕ
  /-- The connection requests that were accepted. -/
  connects : ℕ
  /-- The confirmations of a connection, and the successful ones of a cancel. -/
  answers : ℕ
  deriving DecidableEq

/-- What happens to the manager. -/
inductive PeripheralEvent where
  | connectAsPeripheral (p : ConnectParams)
  | cancelConnectAsPeripheral
  | gattConnectCfm (status : GattStatus) (cid : ℕ)
  | deliverCancelAdvertising
  | deliverConnectAsPeripheral
  | /-- The client side sets or clears its handler. -/
    centralHandler (task : Task)

/-- A confirmation of a cancel. -/
def Output.isCancelCfm : Output → Bool
  | .cancelConnectAsPeripheralCfm _ _ => true
  | _ => false

/-- An answer to a connection request. -/
def Output.isAnswer : Output → Bool
  | .connectAsPeripheralCfm _ _ => true
  | .cancelConnectAsPeripheralCfm _ .success => true
  | _ => false

/-- The exchange after the manager sent something. -/
def Exchange.after (s : Exchange) (r : Peripheral × List Output) : Exchange :=
  { s with
    data := r.1
    cancelCfms := s.cancelCfms + r.2.countP Output.isCancelCfm
    answers := s.answers + r.2.countP Output.isAnswer }

/-- The exchange once the application asked for a cancel. -/
def Exchange.cancel (s : Exchange) : Exchange :=
  { s with cancels := if s.cancelCfms < s.cancels then s.cancels else s.cancels + 1 }

/-- Before the first request. -/
def Exchange.init (applicationTask : Task) : Exchange := ⟨.init applicationTask, 0, 0, 0, 0⟩

/-- A cancel is under way: it is marked as pending, or its message is queued. -/
def Cancelling (d : Peripheral) : Prop :=
  d.cancelPendingConnection = true ∨ 0 < d.cancelAdvertising

/-- A connection is under way: the state is not idle, or its message is queued. -/
def Connecting (d : Peripheral) : Prop := d.advertisingState ≠ .idle ∨ d.connectMessages ≠ []

instance (d : Peripheral) : Decidable (Cancelling d) := inferInstanceAs (Decidable (_ ∨ _))

instance (d : Peripheral) : Decidable (Connecting d) := inferInstanceAs (Decidable (_ ∨ _))

/-- Every request has one answer, or it is under way. -/
structure Answered (s : Exchange) : Prop where
  cancels : s.cancels = s.cancelCfms + if Cancelling s.data then 1 else 0
  connects : s.connects = s.answers + if Connecting s.data then 1 else 0
  idle : s.data.advertisingState = .idle → s.data.cancelPendingConnection = false

/-- A cancel does not find its message queued while the state is idle or queued. A confirmation of
the peripheral's connection comes when it was requested; while a cancel is pending it is a failure,
and the message of the cancel is not queued. -/
def Permits (s : Exchange) : PeripheralEvent → Prop
  | .cancelConnectAsPeripheral =>
    s.data.advertisingState = .idle ∨ s.data.advertisingState = .queued →
      s.data.cancelAdvertising = 0
  | .gattConnectCfm status cid => status ≠ .initialising → cid = s.data.cid →
    (s.data.advertisingState = .requested ∨ s.data.advertisingState = .advertising) ∧
      (s.data.cancelPendingConnection = true → status = .failure ∧ s.data.cancelAdvertising = 0)
  | _ => True

instance (s : Exchange) : ∀ e, Decidable (Permits s e)
  | .connectAsPeripheral _ => .isTrue trivial
  | .cancelConnectAsPeripheral => inferInstanceAs (Decidable (_ → _))
  | .gattConnectCfm _ _ => inferInstanceAs (Decidable (_ → _ → _))
  | .deliverCancelAdvertising => .isTrue trivial
  | .deliverConnectAsPeripheral => .isTrue trivial
  | .centralHandler _ => .isTrue trivial

/-! ## Invariant -/

variable {s s' : Exchange}

/-- What the state says about the flag and the messages. -/
structure Steady (d : Peripheral) : Prop where
  pending : d.cancelPendingConnection = true → d.advertisingState = .advertising
  queued : d.advertisingState = .queued ↔ d.connectMessages ≠ []
  connect_le : d.connectMessages.length ≤ 1
  cancel_le : d.cancelAdvertising ≤ 1

theorem steady_init (applicationTask : Task) : Steady (.init applicationTask) := by
  refine ⟨?_, ?_, Nat.zero_le _, Nat.zero_le _⟩ <;> simp [Peripheral.init]

/-! ## Steps -/

variable {d : Peripheral} {r : Peripheral × List Output} {n m : ℕ}

/-- The answers that a call gives, against what is under way before and after it; `n` cancels and
`m` requests are new. -/
structure Balanced (d : Peripheral) (n m : ℕ) (r : Peripheral × List Output) : Prop where
  cancels : r.2.countP Output.isCancelCfm + (if Cancelling r.1 then 1 else 0) =
    n + if Cancelling d then 1 else 0
  connects : r.2.countP Output.isAnswer + (if Connecting r.1 then 1 else 0) =
    m + if Connecting d then 1 else 0
  idle : r.1.advertisingState = .idle → r.1.cancelPendingConnection = false

section

variable (h : Steady d)
include h

end

/-! ## Runs -/

/-- What the runs that are right keep. -/
structure Good (s : Exchange) : Prop where
  answered : Answered s
  steady : Steady s.data

theorem good_init (applicationTask : Task) : Good (.init applicationTask) :=
  ⟨⟨rfl, rfl, fun _ => rfl⟩, steady_init applicationTask⟩

end Mh40.GattManager
