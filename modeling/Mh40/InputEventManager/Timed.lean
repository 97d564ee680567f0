import Mathlib.Algebra.Order.Ring.Nat
import Mh40.InputEventManager.Manager

/-!
# The input event manager in time

The whole of `libs/input_event_manager/input_event_manager.c`, with the times of its timers and the
counting of clicks. The pending messages to the manager itself are in the order in which they are
due, and those due at one time in the order in which they were sent.

* `inputEventsChanged`: a pass over the table; one `MULTI_CLICK` entry is processed in it.
* `timerExpired`: the message of a timer.
* `step`: a change of the inputs, which comes when no timer is due, or the next timer. A timer that
  is due at the time of a change comes before it.
* The mapping from pins to input event bits is left out.
-/

namespace Mh40.InputEventManager.Timed

/-- `MULTI_CLICK_TIMEOUT`. -/
def multiClickTimeout : ℕ := 500

/-- `InputEventAction_t`. -/
inductive InputEventAction
  | enter
  | held
  | release
  | heldRelease
  | multiClick
deriving DecidableEq, Repr

/-- `InputActionMessage_t`, at an address. -/
structure InputAction where
  address : ℕ
  bits : InputEventBits
  mask : InputEventBits
  action : InputEventAction
  timeout : ℕ
  repeatPeriod : ℕ
  count : BitVec 16
  message : ℕ
deriving DecidableEq, Repr

/-- The messages of the manager to itself, with what they point to. -/
inductive Timer
  | held (inputAction : InputAction)
  | repeat
  | heldRelease (inputAction : InputAction)
  | multiClick (inputAction : InputAction)
deriving DecidableEq, Repr

def Timer.isHeld : Timer → Bool
  | .held _ => true
  | _ => false

def Timer.isRepeat : Timer → Bool
  | .repeat => true
  | _ => false

def Timer.isHeldRelease : Timer → Bool
  | .heldRelease _ => true
  | _ => false

def Timer.isMultiClick : Timer → Bool
  | .multiClick _ => true
  | _ => false

/-- A pending message. -/
structure Pending where
  due : ℕ
  timer : Timer
deriving DecidableEq, Repr

/-- The message of an entry that is sent to the clients, by itself or by the repeat timer. -/
inductive Sent
  | direct (inputAction : InputAction)
  | repeated (inputAction : InputAction)
deriving DecidableEq, Repr

/-- `InputMultiClickState_t`. -/
structure MultiClickState where
  inputEventMask : InputEventBits
  counting : Bool
  nClicks : BitVec 16
deriving DecidableEq, Repr

/-- `InputEventState_t`, with the time, the pending messages and the messages sent to the clients.
-/
structure State where
  now : ℕ
  inputEventBits : InputEventBits
  repeatAction : Option InputAction
  heldRelease : Option InputAction
  multiClick : MultiClickState
  pending : List Pending
  sent : List Sent
deriving DecidableEq, Repr

def State.init : State := ⟨0, 0, none, none, ⟨0, false, 0⟩, [], []⟩

/-- Behind the messages that are due at the same time. -/
def insertPending (m : Pending) : List Pending → List Pending
  | [] => [m]
  | p :: rest => if p.due ≤ m.due then p :: insertPending m rest else m :: p :: rest

/-- `MessageSendLater`. -/
def State.sendLater (s : State) (timer : Timer) (delay : ℕ) : State :=
  { s with pending := insertPending ⟨s.now + delay, timer⟩ s.pending }

/-- `MessageCancelAll`, for one kind of message. -/
def State.cancelAll (s : State) (kind : Timer → Bool) : State :=
  { s with pending := s.pending.filter fun m => !kind m.timer }

/-- `TaskList_MessageSendId`. -/
def State.send (s : State) (message : Sent) : State := { s with sent := s.sent ++ [message] }

/-- `actionIsPress`. -/
def actionIsPress (inputEventBits : InputEventBits) (a : InputAction) : Bool :=
  decide (a.bits = inputEventBits &&& a.mask)

/-- `getPreviousBitState`. -/
def getPreviousBitState (s : State) (a : InputAction) : Bool :=
  decide (a.bits = s.inputEventBits &&& a.mask)

/-- `actionIsRelease`. -/
def actionIsRelease (s : State) (a : InputAction) (inputEventBits : InputEventBits) : Bool :=
  getPreviousBitState s a && !actionIsPress inputEventBits a

/-! ## The entries -/

/-- `enterAction`. -/
def enterAction (s : State) (a : InputAction) (inputEventBits : InputEventBits) : State :=
  if actionIsPress inputEventBits a then
    let s := (s.cancelAll Timer.isRepeat).send (.direct a)
    if a.repeatPeriod ≠ 0 then
      { s with repeatAction := some a }.sendLater .repeat a.repeatPeriod
    else { s with repeatAction := none }
  else if a.repeatPeriod ≠ 0 ∧ s.repeatAction = some a ∧ actionIsRelease s a inputEventBits then
    { s.cancelAll Timer.isRepeat with repeatAction := none }
  else s

/-- `releaseAction`. -/
def releaseAction (s : State) (a : InputAction) (inputEventBits : InputEventBits) : State :=
  if actionIsRelease s a inputEventBits then s.send (.direct a) else s

/-- `heldActionButtonDownAction`. -/
def heldActionButtonDownAction (s : State) (a : InputAction) : State :=
  s.sendLater (.held a) a.timeout

/-- `heldActionButtonReleaseAction`. -/
def heldActionButtonReleaseAction (s : State) : State :=
  if s.pending.any (·.timer.isHeld) then s.cancelAll Timer.isHeld
  else s.cancelAll Timer.isRepeat

/-- `heldAction`. -/
def heldAction (s : State) (a : InputAction) (inputEventBits : InputEventBits) : State :=
  if actionIsPress inputEventBits a then heldActionButtonDownAction s a
  else if actionIsRelease s a inputEventBits then heldActionButtonReleaseAction s
  else s

/-- `heldReleaseButtonDownAction`. -/
def heldReleaseButtonDownAction (s : State) (a : InputAction) : State :=
  { s.sendLater (.heldRelease a) a.timeout with heldRelease := none }

/-- `heldReleaseButtonReleaseAction`. -/
def heldReleaseButtonReleaseAction (s : State) (a : InputAction) : State :=
  let s := s.cancelAll Timer.isHeldRelease
  if s.heldRelease = some a then { s with heldRelease := none }.send (.direct a) else s

/-- `heldReleaseAction`. -/
def heldReleaseAction (s : State) (a : InputAction) (inputEventBits : InputEventBits) : State :=
  if actionIsPress inputEventBits a then heldReleaseButtonDownAction s a
  else if actionIsRelease s a inputEventBits then heldReleaseButtonReleaseAction s a
  else s

/-- `multiClickEnd`. -/
def multiClickEnd (s : State) : State :=
  { s.cancelAll Timer.isMultiClick with multiClick := ⟨0, false, 0⟩ }

/-- `multiClickReStartTimer`. -/
def multiClickReStartTimer (s : State) (a : InputAction) : State :=
  (s.cancelAll Timer.isMultiClick).sendLater (.multiClick a) multiClickTimeout

/-- `multiClickCount`. -/
def multiClickCount (s : State) : State :=
  { s with multiClick := { s.multiClick with nClicks := s.multiClick.nClicks + 1 } }

/-- `multiClickStart`. -/
def multiClickStart (s : State) (a : InputAction) : State :=
  let s := { s.cancelAll Timer.isMultiClick with multiClick := ⟨a.mask, true, 0⟩ }
  multiClickReStartTimer s a

/-- `multiClickAction`. -/
def multiClickAction (s : State) (a : InputAction) (inputEventBits : InputEventBits) : State :=
  if s.multiClick.counting then
    if actionIsPress inputEventBits a then
      if s.multiClick.inputEventMask ≠ a.mask then multiClickStart s a
      else multiClickReStartTimer s a
    else if actionIsRelease s a inputEventBits then
      if s.multiClick.inputEventMask = a.mask then multiClickCount s else s
    else s
  else if actionIsPress inputEventBits a then multiClickStart s a
  else s

/-- An entry of which a bit has changed. The bits of the state are stored after the last entry. -/
def hasChanged (s : State) (a : InputAction) (inputEventBits : InputEventBits) : Bool :=
  decide ((s.inputEventBits ^^^ inputEventBits) &&& a.mask ≠ 0)

/-- A turn of the loop of `inputEventsChanged`, with `flag_multiclick_processed`. -/
def processEntry (inputEventBits : InputEventBits) (s : State × Bool) (a : InputAction) :
    State × Bool :=
  if hasChanged s.1 a inputEventBits then
    match a.action with
    | .enter => (enterAction s.1 a inputEventBits, s.2)
    | .release => (releaseAction s.1 a inputEventBits, s.2)
    | .multiClick => if s.2 then s else (multiClickAction s.1 a inputEventBits, true)
    | .held => (heldAction s.1 a inputEventBits, s.2)
    | .heldRelease => (heldReleaseAction s.1 a inputEventBits, s.2)
  else s

/-- `inputEventsChanged`. -/
def inputEventsChanged (actionTable : List InputAction) (s : State)
    (inputEventBits : InputEventBits) : State :=
  { (actionTable.foldl (processEntry inputEventBits) (s, false)).1 with inputEventBits }

/-! ## The timers -/

/-- `IEM_INTERNAL_HELD_TIMER`. -/
def handleHeldTimer (s : State) (a : InputAction) : State :=
  let s := ((multiClickEnd s).send (.direct a)).cancelAll Timer.isRepeat
  if a.repeatPeriod ≠ 0 then { s.sendLater .repeat a.repeatPeriod with repeatAction := some a }
  else s

/-- `IEM_INTERNAL_REPEAT_TIMER`. -/
def handleRepeatTimer (s : State) : State :=
  match s.repeatAction with
  | some a => (s.send (.repeated a)).sendLater .repeat a.repeatPeriod
  | none => s

/-- `IEM_INTERNAL_HELD_RELEASE_TIMER`. -/
def handleHeldReleaseTimer (s : State) (a : InputAction) : State :=
  multiClickEnd { s with heldRelease := some a }

/-- An entry for so many clicks of the pattern. -/
def isClicked (nClicks : BitVec 16) (a b : InputAction) : Bool :=
  decide (b.action = .multiClick ∧ b.count = nClicks ∧ b.bits = a.bits ∧ b.mask = a.mask)

/-- `IEM_INTERNAL_MULTI_CLICK_TIMER`. -/
def handleMultiClickTimer (actionTable : List InputAction) (s : State) (a : InputAction) : State :=
  multiClickEnd
    (if actionIsPress s.inputEventBits a then s
      else (actionTable.filter (isClicked s.multiClick.nClicks a)).foldl
        (fun s b => s.send (.direct b)) s)

/-- The message of a timer. -/
def timerExpired (actionTable : List InputAction) (s : State) : Timer → State
  | .held a => handleHeldTimer s a
  | .repeat => handleRepeatTimer s
  | .heldRelease a => handleHeldReleaseTimer s a
  | .multiClick a => handleMultiClickTimer actionTable s a

/-! ## Time -/

/-- What the manager is told: the bits of the inputs at a time, or that the next timer has expired.
-/
inductive Event
  | inputEvents (time : ℕ) (inputEventBits : InputEventBits)
  | timer
deriving DecidableEq, Repr

/-- `none` when a timer is due before the change, or none is pending. -/
def step (actionTable : List InputAction) (s : State) : Event → Option State
  | .inputEvents time inputEventBits =>
    if s.now ≤ time ∧ ∀ m ∈ s.pending, time < m.due then
      some (inputEventsChanged actionTable { s with now := time } inputEventBits)
    else none
  | .timer =>
    match s.pending with
    | [] => none
    | m :: rest => some (timerExpired actionTable { s with now := m.due, pending := rest } m.timer)

end Mh40.InputEventManager.Timed
