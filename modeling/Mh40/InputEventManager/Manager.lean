import Mathlib.Data.List.Basic

/-!
# The input event manager

`libs/input_event_manager/input_event_manager.c`: a table of actions on the bits of the inputs, the
timers they start, and the messages that are sent to the clients.

* An entry of the table is known by its address, as the pointers of the code know it.
* How long a timer runs is left open: a pending one may expire at any time. What is kept of a
  pending `HELD` or `HELD_RELEASE` timer is the entry that its message points to.
* `MULTI_CLICK` entries, and the state and timer that only they read, are left out, as is the
  mapping from pins to input event bits.
-/

namespace Mh40.InputEventManager

/-- `input_event_bits_t`. -/
abbrev InputEventBits := BitVec 32

/-- `InputEventAction_t`. -/
inductive InputEventAction
  | enter
  | held
  | release
  | heldRelease
deriving DecidableEq, Repr

/-- `InputActionMessage_t`, at an address. -/
structure InputAction where
  address : ℕ
  bits : InputEventBits
  mask : InputEventBits
  action : InputEventAction
  repeatPeriod : ℕ
  message : ℕ
deriving DecidableEq, Repr

/-- The message of an entry is sent: by itself, or by the repeat timer with the bits of the inputs
at that time. -/
inductive Sent
  | direct (inputAction : InputAction)
  | repeated (inputAction : InputAction) (inputEventBits : InputEventBits)
deriving DecidableEq, Repr

/-- `InputEventState_t`, with the pending messages to the manager itself and the messages sent to
the clients. -/
structure State where
  inputEventBits : InputEventBits
  repeatAction : Option InputAction
  heldRelease : Option InputAction
  heldTimers : List InputAction
  repeatTimers : ℕ
  heldReleaseTimers : List InputAction
  sent : List Sent
deriving DecidableEq, Repr

def State.init : State := ⟨0, none, none, [], 0, [], []⟩

/-- `actionIsPress`. -/
def actionIsPress (inputEventBits : InputEventBits) (a : InputAction) : Bool :=
  decide (a.bits = inputEventBits &&& a.mask)

/-- `getPreviousBitState`. -/
def getPreviousBitState (s : State) (a : InputAction) : Bool :=
  decide (a.bits = s.inputEventBits &&& a.mask)

/-- `actionIsRelease`. -/
def actionIsRelease (s : State) (a : InputAction) (inputEventBits : InputEventBits) : Bool :=
  getPreviousBitState s a && !actionIsPress inputEventBits a

/-- `TaskList_MessageSendId`. -/
def sendDirect (s : State) (a : InputAction) : State := { s with sent := s.sent ++ [.direct a] }

/-- `enterAction`. -/
def enterAction (s : State) (a : InputAction) (inputEventBits : InputEventBits) : State :=
  if actionIsPress inputEventBits a then
    let s := sendDirect { s with repeatTimers := 0 } a
    if a.repeatPeriod ≠ 0 then
      { s with repeatAction := some a, repeatTimers := s.repeatTimers + 1 }
    else { s with repeatAction := none }
  else if a.repeatPeriod ≠ 0 ∧ s.repeatAction = some a ∧ actionIsRelease s a inputEventBits then
    { s with repeatTimers := 0, repeatAction := none }
  else s

/-- `releaseAction`. -/
def releaseAction (s : State) (a : InputAction) (inputEventBits : InputEventBits) : State :=
  if actionIsRelease s a inputEventBits then sendDirect s a else s

/-- `heldActionButtonDownAction`. -/
def heldActionButtonDownAction (s : State) (a : InputAction) : State :=
  { s with heldTimers := s.heldTimers ++ [a] }

/-- `heldActionButtonReleaseAction`. -/
def heldActionButtonReleaseAction (s : State) : State :=
  if s.heldTimers = [] then { s with repeatTimers := 0 } else { s with heldTimers := [] }

/-- `heldAction`. -/
def heldAction (s : State) (a : InputAction) (inputEventBits : InputEventBits) : State :=
  if actionIsPress inputEventBits a then heldActionButtonDownAction s a
  else if actionIsRelease s a inputEventBits then heldActionButtonReleaseAction s
  else s

/-- `heldReleaseButtonDownAction`. -/
def heldReleaseButtonDownAction (s : State) (a : InputAction) : State :=
  { s with heldReleaseTimers := s.heldReleaseTimers ++ [a], heldRelease := none }

/-- `heldReleaseButtonReleaseAction`. -/
def heldReleaseButtonReleaseAction (s : State) (a : InputAction) : State :=
  let s := { s with heldReleaseTimers := [] }
  if s.heldRelease = some a then sendDirect { s with heldRelease := none } a else s

/-- `heldReleaseAction`. -/
def heldReleaseAction (s : State) (a : InputAction) (inputEventBits : InputEventBits) : State :=
  if actionIsPress inputEventBits a then heldReleaseButtonDownAction s a
  else if actionIsRelease s a inputEventBits then heldReleaseButtonReleaseAction s a
  else s

/-- An entry of which a bit has changed. The bits of the state are stored after the last entry. -/
def hasChanged (s : State) (a : InputAction) (inputEventBits : InputEventBits) : Bool :=
  decide ((s.inputEventBits ^^^ inputEventBits) &&& a.mask ≠ 0)

/-- A turn of the loop of `inputEventsChanged`. -/
def processEntry (inputEventBits : InputEventBits) (s : State) (a : InputAction) : State :=
  if hasChanged s a inputEventBits then
    match a.action with
    | .enter => enterAction s a inputEventBits
    | .release => releaseAction s a inputEventBits
    | .held => heldAction s a inputEventBits
    | .heldRelease => heldReleaseAction s a inputEventBits
  else s

/-- `inputEventsChanged`. -/
def inputEventsChanged (actionTable : List InputAction) (s : State)
    (inputEventBits : InputEventBits) : State :=
  { actionTable.foldl (processEntry inputEventBits) s with inputEventBits }

/-- What the manager is told: the bits of the inputs, or that a timer has expired. -/
inductive Event
  | inputEvents (inputEventBits : InputEventBits)
  | heldTimer (inputAction : InputAction)
  | repeatTimer
  | heldReleaseTimer (inputAction : InputAction)
deriving DecidableEq, Repr

/-- `IEM_INTERNAL_HELD_TIMER`. -/
def handleHeldTimer (s : State) (a : InputAction) : State :=
  let s := sendDirect { s with heldTimers := s.heldTimers.erase a } a
  let s := { s with repeatTimers := 0 }
  if a.repeatPeriod ≠ 0 then
    { s with repeatTimers := s.repeatTimers + 1, repeatAction := some a }
  else s

/-- `IEM_INTERNAL_REPEAT_TIMER`. -/
def handleRepeatTimer (s : State) : State :=
  let s := { s with repeatTimers := s.repeatTimers - 1 }
  match s.repeatAction with
  | some a =>
    { s with
      sent := s.sent ++ [.repeated a s.inputEventBits]
      repeatTimers := s.repeatTimers + 1 }
  | none => s

/-- `IEM_INTERNAL_HELD_RELEASE_TIMER`. -/
def handleHeldReleaseTimer (s : State) (a : InputAction) : State :=
  { s with heldReleaseTimers := s.heldReleaseTimers.erase a, heldRelease := some a }

/-- `iemHandler`. A timer that is not pending does not expire. -/
def iemHandler (actionTable : List InputAction) (s : State) : Event → State
  | .inputEvents inputEventBits => inputEventsChanged actionTable s inputEventBits
  | .heldTimer a => if a ∈ s.heldTimers then handleHeldTimer s a else s
  | .repeatTimer => if 0 < s.repeatTimers then handleRepeatTimer s else s
  | .heldReleaseTimer a => if a ∈ s.heldReleaseTimers then handleHeldReleaseTimer s a else s

end Mh40.InputEventManager
