import Mh40.InputEventManager.Entries
import Mh40.InputEventManager.Pending

/-!
# Presses

A table whose entries all watch one pattern of bits. A press begins with the change of the inputs
that makes the pattern matched, and ends with the one after which it is not.

* `Right`: what is sent at a change, and at a timer, for each kind of entry.
* `Idle`, `Pressed`: what is pending and stored between the presses and in one. `Releasing`: in the
  pass over the table that ends a press, before the entries that are left.
* `Pressed.enter`, `Pressed.held_press`, `Pressed.heldRelease_press`: the entries of the table at a
  press.
-/

namespace Mh40.InputEventManager.Timed

open List

/-! ## Presses -/

/-- A table whose entries have the same bits and mask. -/
structure PatternTable where
  bits : InputEventBits
  mask : InputEventBits
  entries : List InputAction
  watches : ∀ a ∈ entries, a.bits = bits ∧ a.mask = mask

/-- The pattern is matched. -/
def PatternTable.matched (T : PatternTable) (inputs : InputEventBits) : Bool :=
  decide (T.bits = inputs &&& T.mask)

/-- The entries of a kind. -/
def ofKind (kind : InputEventAction) (entries : List InputAction) : List InputAction :=
  entries.filter fun a => a.action = kind

/-- When a press began, and what has been sent since. -/
structure Press where
  start : ℕ
  sent : List Sent

/-- The manager, with the inputs and the press that is in progress, as the events give them. -/
structure World where
  state : State
  inputs : InputEventBits
  press : Option Press

def World.init : World := ⟨.init, 0, none⟩

/-- The inputs after an event. -/
def nextInputs (inputs : InputEventBits) : Event → InputEventBits
  | .inputEvents _ bits => bits
  | .timer => inputs

/-- The press after an event that leads to `s'`. -/
def nextPress (T : PatternTable) (w : World) (s' : State) : Event → Option Press
  | .inputEvents time bits =>
    if T.matched bits then
      if T.matched w.inputs then
        w.press.map fun p => { p with sent := p.sent ++ newlySent w.state s' }
      else some ⟨time, newlySent w.state s'⟩
    else none
  | .timer => w.press.map fun p => { p with sent := p.sent ++ newlySent w.state s' }

def World.step (T : PatternTable) (w : World) (e : Event) : Option World :=
  (Timed.step T.entries w.state e).map fun s' => ⟨s', nextInputs w.inputs e, nextPress T w s' e⟩

/-! ## What is right -/

def Sent.direct? (kind : InputEventAction) : Sent → Option InputAction
  | .direct a => if a.action = kind then some a else none
  | .repeated _ => none

def Sent.repeated? : Sent → Option InputAction
  | .direct _ => none
  | .repeated a => some a

/-- The entries of a kind whose own messages are in a list. -/
def directs (kind : InputEventAction) (sent : List Sent) : List InputAction :=
  sent.filterMap (Sent.direct? kind)

/-- The entries whose messages are repeated in a list. -/
def repeats (sent : List Sent) : List InputAction := sent.filterMap Sent.repeated?

/-- The entries of a kind whose timeouts a press has lasted at a time. -/
def lasted (T : PatternTable) (kind : InputEventAction) (press : Option Press) (time : ℕ) :
    List InputAction :=
  match press with
  | none => []
  | some p => (ofKind kind T.entries).filter fun a => p.start + a.timeout ≤ time

/-- Of the entries whose timeouts have expired, one whose timeout was the last to expire. -/
def LastToExpire (expired sent : List InputAction) : Prop :=
  (expired = [] ∧ sent = []) ∨ ∃ a ∈ expired, sent = [a] ∧ ∀ b ∈ expired, b.timeout ≤ a.timeout

/-- A change of the inputs to `bits` at a time, after which the manager is in the state `s'`. -/
structure RightChange (T : PatternTable) (w : World) (time : ℕ) (bits : InputEventBits)
    (s' : State) : Prop where
  enter : directs .enter (newlySent w.state s') =
    if !T.matched w.inputs && T.matched bits then ofKind .enter T.entries else []
  release : directs .release (newlySent w.state s') =
    if T.matched w.inputs && !T.matched bits then ofKind .release T.entries else []
  heldRelease :
    if T.matched w.inputs && !T.matched bits then
      LastToExpire (lasted T .heldRelease w.press time)
        (directs .heldRelease (newlySent w.state s'))
    else directs .heldRelease (newlySent w.state s') = []
  quiet : directs .held (newlySent w.state s') = [] ∧ repeats (newlySent w.state s') = []
  held : ∀ p ∈ w.press, (directs .held p.sent).Perm (lasted T .held w.press time)

/-- A timer that is due at a time, after which the manager is in the state `s'`. -/
structure RightTimer (T : PatternTable) (w : World) (time : ℕ) (s' : State) : Prop where
  noChange : directs .enter (newlySent w.state s') = [] ∧
    directs .release (newlySent w.state s') = [] ∧
    directs .heldRelease (newlySent w.state s') = []
  quiet : w.press = none → repeats (newlySent w.state s') = []
  held : ∀ a ∈ directs .held (newlySent w.state s'),
    ∃ p ∈ w.press, a ∈ ofKind .held T.entries ∧ time = p.start + a.timeout

/-- What an event must do. -/
def Right (T : PatternTable) (w : World) (e : Event) : Prop :=
  ∀ s', Timed.step T.entries w.state e = some s' →
    match e with
    | .inputEvents time bits => RightChange T w time bits s'
    | .timer => ∀ m ∈ w.state.pending.head?, RightTimer T w m.due s'

/-! ## Between the presses, and in one -/

/-- Nothing is pending but the end of a count of clicks. -/
structure Idle (s : State) : Prop where
  others : s.others = []
  heldRelease : s.heldRelease = none

def Timer.held? : Timer → Option InputAction
  | .held a => some a
  | _ => none

def Timer.heldRelease? : Timer → Option InputAction
  | .heldRelease a => some a
  | _ => none

theorem Timer.held?_eq_some {t : Timer} {a : InputAction} : t.held? = some a ↔ t = .held a := by
  cases t <;> simp [Timer.held?]

theorem Timer.heldRelease?_eq_some {t : Timer} {a : InputAction} :
    t.heldRelease? = some a ↔ t = .heldRelease a := by
  cases t <;> simp [Timer.heldRelease?]

/-- The entries whose `HELD` timers are pending. -/
def State.heldPending (s : State) : List InputAction := s.others.filterMap (·.timer.held?)

/-- In a press since `start`, with the entries of the `HELD` messages that have been sent. -/
structure Pressed (entries : List InputAction) (start : ℕ) (s : State)
    (expired : List InputAction) : Prop where
  due : ∀ m ∈ s.others, ∀ a, m.timer = .held a → m.due = start + a.timeout
  held : (expired ++ s.heldPending).Perm (ofKind .held entries)
  lasted : ∀ a ∈ expired, start + a.timeout ≤ s.now
  releaseDue : ∀ m ∈ s.others, ∀ a, m.timer = .heldRelease a →
    a ∈ ofKind .heldRelease entries ∧ m.due = start + a.timeout
  releases : ∀ a ∈ ofKind .heldRelease entries,
    (⟨start + a.timeout, .heldRelease a⟩ : Pending) ∈ s.others ∨
      ∃ b ∈ s.heldRelease, a.timeout ≤ b.timeout
  heldRelease : ∀ a ∈ s.heldRelease,
    a ∈ ofKind .heldRelease entries ∧ start + a.timeout ≤ s.now
  repeats : ∀ m ∈ s.others, m.timer = .repeat → ∃ a ∈ s.repeatAction, a.repeatPeriod ≠ 0 ∧
    (expired ≠ [] ∨ a ∈ ofKind .enter entries)

/-- In the pass that ends a press, before the entries of `rest`. -/
structure Releasing (rest : List InputAction) (s : State) : Prop where
  held : s.heldPending ≠ [] → ofKind .held rest ≠ []
  releases : ∀ m ∈ s.others, m.timer.isHeldRelease → ofKind .heldRelease rest ≠ []
  heldRelease : ∀ a ∈ s.heldRelease, a ∈ ofKind .heldRelease rest
  repeats : ∀ m ∈ s.others, m.timer = .repeat →
    (∃ a ∈ ofKind .enter rest, a.repeatPeriod ≠ 0 ∧ s.repeatAction = some a) ∨
      (if s.heldPending = [] then 1 else 2) ≤ (ofKind .held rest).length

/-- The manager is idle between the presses. -/
structure InPhase (T : PatternTable) (w : World) : Prop where
  inputs : w.state.inputEventBits = w.inputs
  idle : w.press = none → Idle w.state
  pressed : ∀ p ∈ w.press, T.matched w.inputs = true ∧
    Pressed T.entries p.start w.state (directs .held p.sent)

/-! ## The pattern of an entry -/

section Pattern

variable {T : PatternTable} {bits : InputEventBits} {s s' : State} {a : InputAction}

theorem actionIsPress_eq (ha : a ∈ T.entries) : actionIsPress bits a = T.matched bits := by
  rw [actionIsPress, (T.watches a ha).1, (T.watches a ha).2]
  rfl

theorem actionIsRelease_eq (ha : a ∈ T.entries) :
    actionIsRelease s a bits = (T.matched s.inputEventBits && !T.matched bits) := by
  rw [actionIsRelease, actionIsPress_eq ha, getPreviousBitState, (T.watches a ha).1,
    (T.watches a ha).2]
  rfl

theorem hasChanged_eq (ha : a ∈ T.entries) :
    hasChanged s a bits = decide (s.inputEventBits &&& T.mask ≠ bits &&& T.mask) := by
  rw [hasChanged, (T.watches a ha).2]
  exact decide_eq_decide.mpr (not_congr (xor_and_eq_zero_iff _ _ _))

/-- A pattern that is matched before and after has not changed. -/
theorem matched_congr (h : s.inputEventBits &&& T.mask = bits &&& T.mask) :
    T.matched s.inputEventBits = T.matched bits := by
  rw [PatternTable.matched, PatternTable.matched, h]

theorem changed_of_matched (h : T.matched s.inputEventBits ≠ T.matched bits) :
    s.inputEventBits &&& T.mask ≠ bits &&& T.mask := fun heq => h (matched_congr heq)

end Pattern

/-! ## What the counting of clicks leaves alone -/

section SameButClicks

variable {s s' : State} {entries : List InputAction} {start : ℕ} {expired : List InputAction}

section

variable (h : SameButClicks s s')
include h

theorem SameButClicks.heldPending : s'.heldPending = s.heldPending := by
  rw [State.heldPending, h.others]
  rfl

theorem SameButClicks.idle (hi : Idle s) : Idle s' :=
  ⟨h.others.trans hi.others, h.heldRelease.trans hi.heldRelease⟩

theorem SameButClicks.pressed (hp : Pressed entries start s expired) :
    Pressed entries start s' expired where
  due := by rw [h.others]; exact hp.due
  held := by rw [h.heldPending]; exact hp.held
  lasted := by rw [h.now]; exact hp.lasted
  releaseDue := by rw [h.others]; exact hp.releaseDue
  releases := by rw [h.others, h.heldRelease]; exact hp.releases
  heldRelease := by rw [h.now, h.heldRelease]; exact hp.heldRelease
  repeats := by rw [h.others, h.repeatAction]; exact hp.repeats

theorem SameButClicks.releasing (hp : Releasing entries s) :
    Releasing entries s' where
  held := by rw [h.heldPending]; exact hp.held
  releases := by rw [h.others]; exact hp.releases
  heldRelease := by rw [h.heldRelease]; exact hp.heldRelease
  repeats := by rw [h.others, h.repeatAction, h.heldPending]; exact hp.repeats

end

end SameButClicks

/-! ## The steps of a press -/

section Steps

variable {entries : List InputAction} {start : ℕ} {s : State} {expired : List InputAction}
  {a : InputAction} {kind : InputEventAction}

theorem ofKind_append_of_ne (h : a.action ≠ kind) :
    ofKind kind (entries ++ [a]) = ofKind kind entries := by
  simp [ofKind, h]

theorem ofKind_append_of_eq (h : a.action = kind) :
    ofKind kind (entries ++ [a]) = ofKind kind entries ++ [a] := by
  simp [ofKind, h]

theorem ofKind_cons_of_ne (h : a.action ≠ kind) :
    ofKind kind (a :: entries) = ofKind kind entries := by
  simp [ofKind, h]

theorem ofKind_cons_of_eq (h : a.action = kind) :
    ofKind kind (a :: entries) = a :: ofKind kind entries := by
  simp [ofKind, h]

theorem heldPending_cancelAll {kind : Timer → Bool} (h : ∀ b, kind (.held b) = false) :
    (s.cancelAll kind).heldPending = s.heldPending := by
  rw [State.heldPending, others_cancelAll, filterMap_filter]
  refine filterMap_congr fun m _ => ?_
  cases hm : m.timer with
  | held b => simp [h b]
  | _ => simp [Timer.held?]

theorem heldPending_cancelAll_isHeld : (s.cancelAll Timer.isHeld).heldPending = [] := by
  rw [State.heldPending, others_cancelAll, filterMap_filter, filterMap_eq_nil_iff]
  intro m _
  cases hm : m.timer <;> simp [Timer.held?, Timer.isHeld]

theorem heldPending_sendLater {timer : Timer} {delay : ℕ} (h : timer.isMultiClick = false) :
    (s.sendLater timer delay).heldPending.Perm (timer.held?.toList ++ s.heldPending) := by
  refine ((others_sendLater_perm h).filterMap _).trans ?_
  cases hh : timer.held? <;> simp [State.heldPending, hh]

section

variable (hp : Pressed entries start s expired)
include hp

/-- The repeat is stopped. -/
theorem Pressed.cancelRepeat (r : Option InputAction) :
    Pressed entries start { s.cancelAll Timer.isRepeat with repeatAction := r } expired := by
  have hmem : ∀ m, m ∈ State.others { s.cancelAll Timer.isRepeat with repeatAction := r } ↔
      m ∈ s.others ∧ m.timer.isRepeat = false := by
    intro m
    change m ∈ (s.cancelAll Timer.isRepeat).others ↔ _
    rw [others_cancelAll, mem_filter, Bool.not_eq_true']
  constructor
  case due => exact fun m hm => hp.due m ((hmem m).mp hm).1
  case held =>
    have hpending : (s.cancelAll Timer.isRepeat).heldPending = s.heldPending :=
      heldPending_cancelAll fun _ => rfl
    exact hpending ▸ hp.held
  case lasted => exact hp.lasted
  case releaseDue => exact fun m hm => hp.releaseDue m ((hmem m).mp hm).1
  case releases =>
    exact fun a ha => (hp.releases a ha).imp (fun hm => (hmem _).mpr ⟨hm, rfl⟩) id
  case heldRelease => exact hp.heldRelease
  case repeats =>
    intro m hm hrepeat
    have := ((hmem m).mp hm).2
    rw [hrepeat] at this
    cases this

/-- The repeat timer is started. -/
theorem Pressed.startRepeat (delay : ℕ)
    (h : ∃ a ∈ s.repeatAction, a.repeatPeriod ≠ 0 ∧ (expired ≠ [] ∨ a ∈ ofKind .enter entries)) :
    Pressed entries start (s.sendLater .repeat delay) expired := by
  have hmem : ∀ m, m ∈ (s.sendLater .repeat delay).others ↔
      m = ⟨s.now + delay, .repeat⟩ ∨ m ∈ s.others := fun m => mem_others_sendLater rfl
  constructor
  case due =>
    intro m hm a ha
    rcases (hmem m).mp hm with rfl | hm
    · cases ha
    · exact hp.due m hm a ha
  case held => exact ((heldPending_sendLater rfl).append_left expired).trans hp.held
  case lasted => exact hp.lasted
  case releaseDue =>
    intro m hm a ha
    rcases (hmem m).mp hm with rfl | hm
    · cases ha
    · exact hp.releaseDue m hm a ha
  case releases => exact fun a ha => (hp.releases a ha).imp (fun hm => (hmem _).mpr (.inr hm)) id
  case heldRelease => exact hp.heldRelease
  case repeats => exact fun _ _ _ => h

/-- An entry that starts no timer. -/
theorem Pressed.append (hheld : a.action ≠ .held) (hrelease : a.action ≠ .heldRelease) :
    Pressed (entries ++ [a]) start s expired where
  due := hp.due
  held := by rw [ofKind_append_of_ne hheld]; exact hp.held
  lasted := hp.lasted
  releaseDue := by rw [ofKind_append_of_ne hrelease]; exact hp.releaseDue
  releases := by rw [ofKind_append_of_ne hrelease]; exact hp.releases
  heldRelease := by rw [ofKind_append_of_ne hrelease]; exact hp.heldRelease
  repeats := fun m hm h => by
    obtain ⟨b, hb, hperiod, hor⟩ := hp.repeats m hm h
    refine ⟨b, hb, hperiod, hor.imp id fun hb => ?_⟩
    rw [ofKind, filter_append]
    exact mem_append_left _ hb

end

section

variable (hp : Pressed entries s.now s [])
include hp

/-- A press at an `ENTER` entry. -/
theorem Pressed.enter (ha : a.action = .enter) {bits : InputEventBits}
    (hpress : actionIsPress bits a = true) :
    Pressed (entries ++ [a]) s.now (enterAction s a bits) [] := by
  have hp := hp.append (a := a) (by simp [ha]) (by simp [ha])
  unfold enterAction
  rw [if_pos hpress]
  dsimp only
  split_ifs with hperiod
  · refine Pressed.startRepeat ?_ _ ⟨a, rfl, hperiod, .inr ?_⟩
    · refine SameButClicks.pressed ?_ (hp.cancelRepeat (some a))
      exact ⟨rfl, rfl, rfl, rfl⟩
    · rw [ofKind_append_of_eq ha]
      exact mem_append_right _ mem_cons_self
  · refine SameButClicks.pressed ?_ (hp.cancelRepeat none)
    exact ⟨rfl, rfl, rfl, rfl⟩

/-- A press at a `HELD` entry. -/
theorem Pressed.held_press (ha : a.action = .held) :
    Pressed (entries ++ [a]) s.now (heldActionButtonDownAction s a) [] := by
  have hmem : ∀ m, m ∈ (heldActionButtonDownAction s a).others ↔
      m = ⟨s.now + a.timeout, .held a⟩ ∨ m ∈ s.others := fun m => mem_others_sendLater rfl
  have hne : a.action ≠ .heldRelease := by simp [ha]
  constructor
  case due =>
    intro m hm b hb
    rcases (hmem m).mp hm with rfl | hm
    · cases hb
      rfl
    · exact hp.due m hm b hb
  case held =>
    rw [ofKind_append_of_eq ha]
    exact (heldPending_sendLater rfl).trans ((hp.held.cons a).trans
      (perm_append_singleton a _).symm)
  case lasted => exact fun b hb => absurd hb not_mem_nil
  case releaseDue =>
    intro m hm b hb
    rw [ofKind_append_of_ne hne]
    rcases (hmem m).mp hm with rfl | hm
    · cases hb
    · exact hp.releaseDue m hm b hb
  case releases =>
    intro b hb
    rw [ofKind_append_of_ne hne] at hb
    exact (hp.releases b hb).imp (fun hm => (hmem _).mpr (.inr hm)) id
  case heldRelease =>
    rw [ofKind_append_of_ne hne]
    exact hp.heldRelease
  case repeats =>
    intro m hm hrepeat
    rw [ofKind_append_of_ne (by simp [ha])]
    rcases (hmem m).mp hm with rfl | hm
    · cases hrepeat
    · exact hp.repeats m hm hrepeat

/-- A press at a `HELD_RELEASE` entry. -/
theorem Pressed.heldRelease_press (hnone : s.heldRelease = none) (ha : a.action = .heldRelease) :
    Pressed (entries ++ [a]) s.now (heldReleaseButtonDownAction s a) [] := by
  have hmem : ∀ m, m ∈ (heldReleaseButtonDownAction s a).others ↔
      m = ⟨s.now + a.timeout, .heldRelease a⟩ ∨ m ∈ s.others := fun m => mem_others_sendLater rfl
  have hne : a.action ≠ .held := by simp [ha]
  constructor
  case due =>
    intro m hm b hb
    rcases (hmem m).mp hm with rfl | hm
    · cases hb
    · exact hp.due m hm b hb
  case held =>
    rw [ofKind_append_of_ne hne]
    have hpending : (s.sendLater (.heldRelease a) a.timeout).heldPending.Perm s.heldPending :=
      heldPending_sendLater rfl
    exact hpending.trans hp.held
  case lasted => exact fun b hb => absurd hb not_mem_nil
  case releaseDue =>
    intro m hm b hb
    rw [ofKind_append_of_eq ha, mem_append, mem_singleton]
    rcases (hmem m).mp hm with rfl | hm
    · cases hb
      exact ⟨.inr rfl, rfl⟩
    · exact ⟨.inl (hp.releaseDue m hm b hb).1, (hp.releaseDue m hm b hb).2⟩
  case releases =>
    intro b hb
    rw [ofKind_append_of_eq ha, mem_append, mem_singleton] at hb
    rcases hb with hb | rfl
    · rcases hp.releases b hb with hm | ⟨c, hc, -⟩
      · exact .inl ((hmem _).mpr (.inr hm))
      · rw [hnone] at hc
        cases hc
    · exact .inl ((hmem _).mpr (.inl rfl))
  case heldRelease => exact fun b hb => absurd hb (Option.not_mem_none b)
  case repeats =>
    intro m hm hrepeat
    rw [ofKind_append_of_ne (by simp [ha])]
    rcases (hmem m).mp hm with rfl | hm
    · cases hrepeat
    · exact hp.repeats m hm hrepeat

end

end Steps

end Mh40.InputEventManager.Timed
