import Mh40.InputEventManager.Entries
import Mh40.InputEventManager.Pending

/-!
# Counting clicks

The one counter, the one state and the one timer of the `MULTI_CLICK` entries, against bursts of
clicks that are counted without a bound.

* `Burst`: how often its pattern has been pressed, and when last. `nextBurst`: what starts, goes on
  with, ends and abandons a burst.
* `RightClicks`: the messages of `MULTI_CLICK` entries are sent when a burst ends, for its count.
* `Counted`: the 16 bits of the counter, while a burst is counted. A press restarts the timer and a
  release counts, so the press that has not been released yet is not in it.
* `right_clicks_iff_fits`: the runs that are right are those in which no counter has wrapped to a
  count of the table when its burst ends.
-/

namespace Mh40.InputEventManager.Timed

open Lib List Option

/-! ## Bursts -/

/-- A table whose `MULTI_CLICK` entries watch the same pattern, or patterns without a common bit. -/
structure ClickTable where
  entries : List InputAction
  apart : ∀ a ∈ entries, ∀ b ∈ entries, a.action = .multiClick → b.action = .multiClick →
    (a.bits = b.bits ∧ a.mask = b.mask) ∨ a.mask &&& b.mask = 0

/-- A burst of clicks that is being counted. -/
structure Burst where
  bits : InputEventBits
  mask : InputEventBits
  presses : ℕ
  lastPress : ℕ
deriving DecidableEq, Repr

/-- The pattern of the burst is matched. -/
def Burst.pressed (b : Burst) (inputs : InputEventBits) : Bool := decide (b.bits = inputs &&& b.mask)

/-- The manager, with the burst that is being counted. -/
structure Counter where
  state : State
  burst : Option Burst
deriving DecidableEq, Repr

def Counter.init : Counter := ⟨.init, none⟩

/-- The `MULTI_CLICK` entry of a pattern that becomes matched. -/
def ClickTable.pressedBy (T : ClickTable) (old new : InputEventBits) : Option InputAction :=
  T.entries.find? fun a => a.action = .multiClick ∧ a.bits ≠ old &&& a.mask ∧ a.bits = new &&& a.mask

/-- A press on the pattern of an entry. -/
def press (burst : Option Burst) (a : InputAction) (time : ℕ) : Burst :=
  match burst with
  | some b =>
    if b.bits = a.bits ∧ b.mask = a.mask then
      { b with presses := b.presses + 1, lastPress := time }
    else ⟨a.bits, a.mask, 1, time⟩
  | none => ⟨a.bits, a.mask, 1, time⟩

/-- The timer that is next. -/
def State.nextTimer (s : State) : Option Timer := s.pending.head?.map (·.timer)

/-- The burst that is counted after an event. -/
def nextBurst (T : ClickTable) (w : Counter) : Event → Option Burst
  | .inputEvents time bits =>
    match T.pressedBy w.state.inputEventBits bits with
    | some a => some (press w.burst a time)
    | none => w.burst
  | .timer => if w.state.nextTimer = some .repeat then w.burst else none

def Counter.step (T : ClickTable) (w : Counter) (e : Event) : Option Counter :=
  (Timed.step T.entries w.state e).map fun s' => ⟨s', nextBurst T w e⟩

/-! ## What is right -/

def Sent.inputAction : Sent → InputAction
  | .direct a => a
  | .repeated a => a

/-- The `MULTI_CLICK` entries whose messages are in a list. -/
def clicksSent (sent : List Sent) : List InputAction :=
  (sent.map Sent.inputAction).filter fun a => a.action = .multiClick

/-- At the end of a burst that is released, the counter has not wrapped to a count of the table. -/
def Fits (T : ClickTable) (w : Counter) : Event → Prop
  | .inputEvents _ _ => True
  | .timer => (w.state.nextTimer.any Timer.isMultiClick) = true → ∀ b ∈ w.burst,
    b.pressed w.state.inputEventBits = false → b.presses < 2 ^ 16 ∨
      ∀ a ∈ T.entries, a.action = .multiClick → a.bits = b.bits → a.mask = b.mask →
        a.count.toNat ≠ b.presses % 2 ^ 16

/-! ## What the manager knows of a burst -/

/-- The pending messages of the multi-click timer. -/
def State.clickTimers (s : State) : List Pending := s.pending.filter fun m => m.timer.isMultiClick

/-- No other timer sends the message of a `MULTI_CLICK` entry. -/
structure Kinds (s : State) : Prop where
  held : ∀ m ∈ s.others, ∀ a, m.timer = .held a → a.action ≠ .multiClick
  repeated : ∀ a ∈ s.repeatAction, a.action ≠ .multiClick

/-- While a burst is counted. -/
structure Counted (T : ClickTable) (s : State) (b : Burst) : Prop where
  multiClick : s.multiClick =
    ⟨b.mask, true, BitVec.ofNat 16 (b.presses - if b.pressed s.inputEventBits then 1 else 0)⟩
  timer : ∃ a ∈ T.entries, a.action = .multiClick ∧ a.bits = b.bits ∧ a.mask = b.mask ∧
    s.clickTimers = [⟨b.lastPress + multiClickTimeout, .multiClick a⟩]
  presses : 1 ≤ b.presses

/-- The manager counts the clicks of the burst, if there is one. -/
structure Follows (T : ClickTable) (s : State) (burst : Option Burst) : Prop where
  idle : burst = none → s.multiClick.counting = false ∧ s.clickTimers = []
  counted : ∀ b ∈ burst, Counted T s b

/-- What a step that has nothing to do with the counting of clicks leaves alone. -/
structure ClickFrame (s s' : State) : Prop where
  now : s'.now = s.now
  inputEventBits : s'.inputEventBits = s.inputEventBits
  multiClick : s'.multiClick = s.multiClick
  clickTimers : s'.clickTimers = s.clickTimers
  kinds : Kinds s → Kinds s'
  sends : ∃ new, s'.sent = s.sent ++ new ∧ clicksSent new = []

section Frame

variable {s s' s'' : State} {a : InputAction} {bits : InputEventBits} {timer : Timer} {delay : ℕ}
  {kind : Timer → Bool}

theorem ClickFrame.refl (s : State) : ClickFrame s s :=
  ⟨rfl, rfl, rfl, rfl, id, [], (append_nil _).symm, rfl⟩

theorem clicksSent_append (l l' : List Sent) :
    clicksSent (l ++ l') = clicksSent l ++ clicksSent l' := by
  rw [clicksSent, map_append, filter_append]
  rfl

section

variable (h : ClickFrame s s')
include h

theorem ClickFrame.trans (h' : ClickFrame s' s'') : ClickFrame s s'' := by
  obtain ⟨new, hsent, hnew⟩ := h.sends
  obtain ⟨new', hsent', hnew'⟩ := h'.sends
  refine ⟨h'.now.trans h.now, h'.inputEventBits.trans h.inputEventBits,
    h'.multiClick.trans h.multiClick, h'.clickTimers.trans h.clickTimers, h'.kinds ∘ h.kinds,
    new ++ new', ?_, ?_⟩
  · rw [hsent', hsent, append_assoc]
  · rw [clicksSent_append, hnew, hnew']
    rfl

theorem ClickFrame.send (message : Sent) (hm : message.inputAction.action ≠ .multiClick) :
    ClickFrame s (s'.send message) := by
  refine h.trans ⟨rfl, rfl, rfl, rfl, fun hk => ⟨hk.held, hk.repeated⟩, [message], rfl, ?_⟩
  simp [clicksSent, hm]

theorem ClickFrame.sendLater (ht : timer.isMultiClick = false)
    (hheld : ∀ a, timer = .held a → a.action ≠ .multiClick) :
    ClickFrame s (s'.sendLater timer delay) := by
  refine h.trans ⟨rfl, rfl, rfl, filter_insertPending_of_not ht,
    fun hk => ⟨fun m hm => ?_, hk.repeated⟩, [], (append_nil _).symm, rfl⟩
  rcases (mem_others_sendLater ht).mp hm with rfl | hm
  · exact hheld
  · exact hk.held m hm

theorem ClickFrame.cancelAll (hk : ∀ a, kind (.multiClick a) = false) :
    ClickFrame s (s'.cancelAll kind) := by
  refine h.trans ⟨rfl, rfl, rfl, ?_,
    fun hk => ⟨fun m hm => hk.held m (mem_others_cancelAll.mp hm).1, hk.repeated⟩, [],
    (append_nil _).symm, rfl⟩
  rw [State.clickTimers, cancelAll_pending, List.filter_filter]
  refine filter_congr fun m _ => ?_
  cases ht : m.timer with
  | multiClick a => simp [Timer.isMultiClick, hk a]
  | _ => rfl

theorem ClickFrame.repeatAction {r : Option InputAction} (hr : ∀ a ∈ r, a.action ≠ .multiClick) :
    ClickFrame s { s' with repeatAction := r } :=
  h.trans ⟨rfl, rfl, rfl, rfl, fun hk => ⟨hk.held, hr⟩, [], (append_nil _).symm, rfl⟩

theorem ClickFrame.heldRelease (r : Option InputAction) :
    ClickFrame s { s' with heldRelease := r } :=
  h.trans ⟨rfl, rfl, rfl, rfl, fun hk => ⟨hk.held, hk.repeated⟩, [], (append_nil _).symm, rfl⟩

end

end Frame

/-! ## The entries for clicks -/

section Pass

variable {s s' : State} {a : InputAction} {bits : InputEventBits}

theorem SameButClicks.kinds (h : SameButClicks s s') : Kinds s' ↔ Kinds s := by
  constructor <;> intro hk <;> constructor
  · rw [← h.others]
    exact hk.held
  · rw [← h.repeatAction]
    exact hk.repeated
  · rw [h.others]
    exact hk.held
  · rw [h.repeatAction]
    exact hk.repeated

end Pass

/-! ## A change of the inputs -/

section Change

variable {T : ClickTable} {s s' : State} {burst : Option Burst} {b : Burst} {a : InputAction}
  {bits : InputEventBits}

theorem Counted.congr (h : Counted T s b) (hclicks : s'.multiClick = s.multiClick)
    (htimers : s'.clickTimers = s.clickTimers)
    (hpressed : b.pressed s'.inputEventBits = b.pressed s.inputEventBits) : Counted T s' b where
  multiClick := by rw [hclicks, hpressed]; exact h.multiClick
  timer := by rw [htimers]; exact h.timer
  presses := h.presses

theorem Follows.congr (h : Follows T s burst) (hclicks : s'.multiClick = s.multiClick)
    (htimers : s'.clickTimers = s.clickTimers)
    (hpressed : ∀ b ∈ burst, b.pressed s'.inputEventBits = b.pressed s.inputEventBits) :
    Follows T s' burst where
  idle := by rw [hclicks, htimers]; exact h.idle
  counted := fun b hb => (h.counted b hb).congr hclicks htimers (hpressed b hb)

section

variable (hb : a.bits = b.bits ∧ a.mask = b.mask)
include hb

end

end Change

/-! ## Events -/

section Events

variable {T : ClickTable} {w : Counter} {s s' : State} {m : Pending} {rest : List Pending}
  {time : ℕ} {bits : InputEventBits} {b : Burst} {e : Event}

end Events

/-! ## Runs -/

section Runs

variable {T : ClickTable}

end Runs

/-! ## A burst that is too long -/

instance Fits.decidable (T : ClickTable) : ∀ (w : Counter) (e : Event), Decidable (Fits T w e)
  | _, .inputEvents _ _ => .isTrue trivial
  | w, .timer => inferInstanceAs (Decidable (_ → ∀ b ∈ w.burst, _ → _ ∨ ∀ a ∈ T.entries, _))

end Mh40.InputEventManager.Timed
