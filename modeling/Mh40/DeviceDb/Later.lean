import Mathlib.Order.Bounds.Basic
import Mathlib.Order.Fin.Basic
import Mh40.Lib.Run
import Mh40.VmMessage.Queue

/-!
# Serialisation after a delay

Model of `DeviceDbSerialiser_SerialiseDeviceLater` and of what cancels or delivers its messages. A
device has one message for lazy and one for strict deadlines.

* The message is due when it is delivered: time does not pass beyond that (`Op.wait`).
* The device list is as it is. `SerialiseDevice` of an earbud serialises its peer too, and stops
  early for a device without address: an operation is given the devices that it gets through.
* `requests` and `served` are a history that the code does not keep: the deadlines that have been
  asked for since a device was serialised last, and what was outstanding when a message was
  delivered.
* `Kept`: what is to hold of them. `Schedules`: a call that leaves a message behind.
-/

namespace Mh40.DeviceDb.Later

open Lib VmMessage

/-- The index of a device on the device list. A device that is not on it has index 0xFF, for which
`DeviceDbSerialiser_SerialiseDeviceLater` panics. -/
abbrev Device := Fin 0xFF

def delayedSerialiseStrictMessageOffset : ℕ := 0x8000

def int32Max : ℤ := 2 ^ 31 - 1

/-- `id_lazy`. -/
def idLazy (device : Device) : ℕ := device.val

/-- `id_strict`. -/
def idStrict (device : Device) : ℕ := device.val + delayedSerialiseStrictMessageOffset

/-- `DeviceDbSerialiser_SerialiseDeviceLater`. -/
def serialiseDeviceLater (queue : List AppMessage) (now : ℤ) (device : Device)
    (delay : BitVec 32) : List AppMessage :=
  let pendingLazy := messagePendingFirst queue now (idLazy device)
  let pendingStrict := messagePendingFirst queue now (idStrict device)
  let dueLazy := pendingLazy.getD 0
  let dueStrict := pendingStrict.getD int32Max
  if delay.toInt < 0 then
    let delay := -delay
    if dueStrict > delay.toInt then
      let queue :=
        if pendingStrict.isSome then messageCancelFirst queue (idStrict device) else queue
      let queue := messageSendLater queue now (idStrict device) delay
      if pendingLazy.isSome then messageCancelFirst queue (idLazy device) else queue
    else queue
  else if pendingStrict.isSome then queue
  else if dueLazy < delay.toInt then
    let queue := if pendingLazy.isSome then messageCancelFirst queue (idLazy device) else queue
    messageSendLater queue now (idLazy device) delay
  else queue

/-- `deviceDbSerialiser_CancelDelayedSerialise`. -/
def cancelDelayedSerialise (queue : List AppMessage) (device : Device) : List AppMessage :=
  messageCancelFirst (messageCancelFirst queue (idLazy device)) (idStrict device)

/-- The device that the message is for, in
`deviceDbSeraliser_SerialiseDeviceLaterMessageHandler`. -/
def deviceOf (id : ℕ) : ℕ :=
  if id ≥ delayedSerialiseStrictMessageOffset then id - delayedSerialiseStrictMessageOffset else id

/-! ## Histories -/

/-- A call of `DeviceDbSerialiser_SerialiseDeviceLater`, by its deadline. -/
structure Request where
  strict : Bool
  deadline : ℤ
  deriving DecidableEq, Repr

/-- A delivered message: when, and the requests for its device that were outstanding. -/
structure Served where
  time : ℤ
  requests : List Request
  deriving DecidableEq, Repr

/-- What a call at the time `now` asks for. -/
def requestOf (now : ℤ) (delay : BitVec 32) : Request :=
  ⟨decide (delay.toInt < 0), now + delay.toInt.natAbs⟩

/-- The deadlines of the requests. -/
def deadlines (requests : List Request) : Set ℤ := {t | ∃ r ∈ requests, r.deadline = t}

/-- The message queue and the time, with the history. -/
structure State where
  now : ℤ
  queue : List AppMessage
  requests : Device → List Request
  served : List Served

/-- Nothing is pending. -/
def start (now : ℤ) : State := ⟨now, [], fun _ => [], []⟩

/-- The devices have been serialised, one after the other. -/
def serialised (s : State) (devices : List Device) : State :=
  { s with
    queue := devices.foldl cancelDelayedSerialise s.queue
    requests := fun d => if d ∈ devices then [] else s.requests d }

inductive Op where
  | serialiseDeviceLater (device : Device) (delay : BitVec 32)
  /-- `DeviceDbSerialiser_SerialiseDevice`. -/
  | serialiseDevice (devices : List Device)
  /-- `DeviceDbSerialiser_Serialise`, which flushes the task. -/
  | serialise
  /-- Time passes, at most until the first message is due. -/
  | wait (ms : ℕ)
  /-- The first message is due, and its handler serialises the device and its peer. -/
  | deliver (peers : List Device)
  deriving Repr

/-- One operation; `none` is one that cannot take place now. -/
def step (s : State) : Op → Option State
  | .serialiseDeviceLater device delay => some { s with
      queue := serialiseDeviceLater s.queue s.now device delay
      requests := Function.update s.requests device
        (s.requests device ++ [requestOf s.now delay]) }
  | .serialiseDevice devices => some (serialised s devices)
  | .serialise => some { s with queue := [], requests := fun _ => [] }
  | .wait ms =>
    match s.queue with
    | [] => some { s with now := s.now + ms }
    | a :: _ => if (ms : ℤ) ≤ vmDiff a.due s.now then some { s with now := s.now + ms } else none
  | .deliver peers =>
    (vmMessageNext s.queue s.now).map fun r =>
      if h : deviceOf r.1.id < 0xFF then
        { serialised { s with queue := r.2 } (⟨deviceOf r.1.id, h⟩ :: peers) with
          served := s.served ++ [⟨s.now, s.requests ⟨deviceOf r.1.id, h⟩⟩] }
      else { s with queue := r.2 }

/-- The id is one of the two of the device. -/
def Belongs (device : Device) (id : ℕ) : Prop := id = idLazy device ∨ id = idStrict device

instance (device : Device) (id : ℕ) : Decidable (Belongs device id) := by
  unfold Belongs
  infer_instance

/-- The messages that are pending for a device. -/
def pendingFor (queue : List AppMessage) (device : Device) : List AppMessage :=
  queue.filter fun a => Belongs device a.id

/-- **What is to hold of the deadlines.** -/
structure Kept (s : State) : Prop where
  /-- At most one message is pending for a device. -/
  atMostOne : ∀ device, (pendingFor s.queue device).length ≤ 1
  /-- One is pending while there are requests. -/
  pending : ∀ device, s.requests device ≠ [] → ∃ a, pendingFor s.queue device = [a]
  /-- No strict deadline has passed, and the message is due before all of them. -/
  strict : ∀ device, ∀ r ∈ s.requests device, r.strict →
    s.now ≤ r.deadline ∧ ∀ a ∈ pendingFor s.queue device, a.due ≤ r.deadline
  /-- With lazy requests only, the message is due at the latest of their deadlines. -/
  lazy : ∀ device, (∀ r ∈ s.requests device, ¬r.strict) → ∀ a ∈ pendingFor s.queue device,
    IsGreatest (deadlines (s.requests device)) a.due
  /-- No message has been delivered after a strict deadline. -/
  servedStrict : ∀ v ∈ s.served, ∀ r ∈ v.requests, r.strict → v.time ≤ r.deadline
  /-- With lazy requests only, it has been delivered at the latest of their deadlines. -/
  servedLazy : ∀ v ∈ s.served, (∀ r ∈ v.requests, ¬r.strict) →
    IsGreatest (deadlines v.requests) v.time

/-- The call leaves a message behind for its deadline: a delay of 0 needs one that is pending, and a
strict delay of 2³¹ - 1 ms a strict one; the delay of 2³¹ ms is no `int32`. -/
def Schedules (s : State) : Op → Prop
  | .serialiseDeviceLater device delay =>
    (delay = 0 → pendingFor s.queue device ≠ []) ∧
    (delay.toInt = -int32Max → messagePendingFirst s.queue s.now (idStrict device) ≠ none) ∧
    delay.toInt ≠ -2 ^ 31
  | _ => True

instance (s : State) (op : Op) : Decidable (Schedules s op) := by
  unfold Schedules
  split <;> infer_instance

end Mh40.DeviceDb.Later
