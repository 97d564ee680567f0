import Mh40.InputEventManager.Manager

/-!
# What an entry of the table changes

* `processEntry_cases`: an entry is pressed, released, or left alone.
* `timers_processEntry`, `heldRelease_processEntry`, `directs_processEntry`: what that does to the
  timers and to the messages sent.
-/

namespace Mh40.InputEventManager

section Entry

variable {s : State} {a b : InputAction} {bits : InputEventBits}

/-- The bits of the entry are matched from now on. -/
def isPressed (s : State) (a : InputAction) (bits : InputEventBits) : Bool :=
  hasChanged s a bits && actionIsPress bits a

theorem xor_and_eq_zero_iff (x y m : InputEventBits) :
    (x ^^^ y) &&& m = 0 ↔ x &&& m = y &&& m := by
  have hdistrib : (x ^^^ y) &&& m = (x &&& m) ^^^ (y &&& m) := by
    ext i hi
    simp [Bool.and_xor_distrib_right]
  rw [hdistrib]
  exact BitVec.xor_eq_zero_iff

section

variable (h : actionIsRelease s a bits = true)
include h

theorem hasChanged_of_release :
    hasChanged s a bits = true := by
  obtain ⟨hprev, hnot⟩ := Bool.and_eq_true_iff.mp h
  have hprev : a.bits = s.inputEventBits &&& a.mask := of_decide_eq_true hprev
  refine decide_eq_true fun hzero => ?_
  rw [xor_and_eq_zero_iff] at hzero
  rw [actionIsPress, hprev, hzero, decide_eq_true rfl] at hnot
  cases hnot

theorem not_press_of_release :
    actionIsPress bits a = false := by
  obtain ⟨-, hnot⟩ := Bool.and_eq_true_iff.mp h
  exact Bool.not_eq_true' _ ▸ hnot

theorem isPressed_eq_false_of_release :
    isPressed s a bits = false := by
  rw [isPressed, not_press_of_release h, Bool.and_false]

end

/-- Only the bits before a change matter for what it releases. -/
theorem actionIsRelease_congr {s' : State} (h : s.inputEventBits = s'.inputEventBits) :
    actionIsRelease s a bits = actionIsRelease s' a bits := by
  unfold actionIsRelease getPreviousBitState
  rw [h]

theorem isPressed_congr {s' : State} (h : s.inputEventBits = s'.inputEventBits) :
    isPressed s a bits = isPressed s' a bits := by
  unfold isPressed hasChanged
  rw [h]

/-- The four ways in which an entry is processed. -/
theorem processEntry_cases (bits : InputEventBits) (s : State) (a : InputAction) :
    (isPressed s a bits = true ∧ actionIsRelease s a bits = false ∧ processEntry bits s a =
      match a.action with
      | .enter => enterAction s a bits
      | .release => s
      | .held => heldActionButtonDownAction s a
      | .heldRelease => heldReleaseButtonDownAction s a) ∨
    (isPressed s a bits = false ∧ actionIsRelease s a bits = true ∧ processEntry bits s a =
      match a.action with
      | .enter => enterAction s a bits
      | .release => sendDirect s a
      | .held => heldActionButtonReleaseAction s
      | .heldRelease => heldReleaseButtonReleaseAction s a) ∨
    (isPressed s a bits = false ∧ actionIsRelease s a bits = false ∧ processEntry bits s a = s) := by
  unfold processEntry isPressed
  by_cases hchanged : hasChanged s a bits = true
  · rw [hchanged, Bool.true_and, if_pos rfl]
    by_cases hpress : actionIsPress bits a = true
    · refine .inl ⟨hpress, ?_, ?_⟩
      · rw [actionIsRelease, hpress, Bool.not_true, Bool.and_false]
      · have hnot : actionIsRelease s a bits = false := by
          rw [actionIsRelease, hpress, Bool.not_true, Bool.and_false]
        cases a.action with
        | enter => rfl
        | release => exact if_neg (Bool.eq_false_iff.mp hnot)
        | held | heldRelease => exact if_pos hpress
    · by_cases hrelease : actionIsRelease s a bits = true
      · refine .inr (.inl ⟨Bool.eq_false_iff.mpr hpress, hrelease, ?_⟩)
        cases a.action with
        | enter => rfl
        | release => exact if_pos hrelease
        | held | heldRelease => exact (if_neg hpress).trans (if_pos hrelease)
      · refine .inr (.inr ⟨Bool.eq_false_iff.mpr hpress, Bool.eq_false_iff.mpr hrelease, ?_⟩)
        have henter : enterAction s a bits = s := by
          unfold enterAction
          rw [if_neg hpress, if_neg fun h => hrelease h.2.2]
        cases a.action with
        | enter => exact henter
        | release => exact if_neg hrelease
        | held | heldRelease => exact (if_neg hpress).trans (if_neg hrelease)
  · rw [if_neg hchanged, Bool.eq_false_iff.mpr hchanged, Bool.false_and]
    exact .inr (.inr ⟨rfl, Bool.eq_false_iff.mpr (mt hasChanged_of_release hchanged), rfl⟩)

/-- What only the `HELD` and `HELD_RELEASE` entries change. -/
structure SameTimers (s s' : State) : Prop where
  inputEventBits : s'.inputEventBits = s.inputEventBits
  heldTimers : s'.heldTimers = s.heldTimers
  heldReleaseTimers : s'.heldReleaseTimers = s.heldReleaseTimers
  heldRelease : s'.heldRelease = s.heldRelease

theorem sameTimers_enterAction : SameTimers s (enterAction s a bits) := by
  unfold enterAction
  dsimp only
  split_ifs <;> exact ⟨rfl, rfl, rfl, rfl⟩

theorem heldActionButtonReleaseAction_eq : (heldActionButtonReleaseAction s).heldTimers = [] ∧
    SameTimers { s with heldTimers := [] } (heldActionButtonReleaseAction s) := by
  unfold heldActionButtonReleaseAction
  by_cases h : s.heldTimers = []
  · rw [if_pos h]
    exact ⟨h, rfl, h, rfl, rfl⟩
  · rw [if_neg h]
    exact ⟨rfl, rfl, rfl, rfl, rfl⟩

theorem heldReleaseButtonReleaseAction_eq :
    heldReleaseButtonReleaseAction s a =
      { s with
        heldReleaseTimers := []
        heldRelease := if s.heldRelease = some a then none else s.heldRelease
        sent := if s.heldRelease = some a then s.sent ++ [.direct a] else s.sent } := by
  unfold heldReleaseButtonReleaseAction
  dsimp only
  by_cases h : s.heldRelease = some a
  · rw [if_pos h, if_pos h, if_pos h]
    rfl
  · rw [if_neg h, if_neg h, if_neg h]

/-- What an entry does to the bits and to the timers. -/
theorem timers_processEntry (bits : InputEventBits) (s : State) (a : InputAction) :
    (processEntry bits s a).inputEventBits = s.inputEventBits ∧
    ((processEntry bits s a).heldTimers =
      if a.action = .held ∧ isPressed s a bits then s.heldTimers ++ [a]
      else if a.action = .held ∧ actionIsRelease s a bits then [] else s.heldTimers) ∧
    (processEntry bits s a).heldReleaseTimers =
      if a.action = .heldRelease ∧ isPressed s a bits then s.heldReleaseTimers ++ [a]
      else if a.action = .heldRelease ∧ actionIsRelease s a bits then []
      else s.heldReleaseTimers := by
  have henter : SameTimers s (enterAction s a bits) := sameTimers_enterAction
  rcases processEntry_cases bits s a with ⟨hp, hr, h⟩ | ⟨hp, hr, h⟩ | ⟨hp, hr, h⟩
  · rw [h, hp, hr]
    cases a.action with
    | enter => exact ⟨henter.inputEventBits, henter.heldTimers, henter.heldReleaseTimers⟩
    | release | held | heldRelease => exact ⟨rfl, rfl, rfl⟩
  · rw [h, hp, hr]
    cases a.action with
    | enter => exact ⟨henter.inputEventBits, henter.heldTimers, henter.heldReleaseTimers⟩
    | release => exact ⟨rfl, rfl, rfl⟩
    | held =>
      obtain ⟨hnil, hsame⟩ := heldActionButtonReleaseAction_eq
      exact ⟨hsame.inputEventBits, hnil, hsame.heldReleaseTimers⟩
    | heldRelease =>
      rw [heldReleaseButtonReleaseAction_eq]
      exact ⟨rfl, rfl, rfl⟩
  · rw [h, hp, hr]
    simp

@[simp]
theorem inputEventBits_processEntry :
    (processEntry bits s a).inputEventBits = s.inputEventBits := (timers_processEntry bits s a).1

theorem heldRelease_processEntry : (processEntry bits s a).heldRelease =
    if a.action = .heldRelease ∧ isPressed s a bits then none
    else if (a.action = .heldRelease ∧ actionIsRelease s a bits) ∧ s.heldRelease = some a then none
    else s.heldRelease := by
  rcases processEntry_cases bits s a with ⟨hp, hr, h⟩ | ⟨hp, hr, h⟩ | ⟨hp, hr, h⟩
  · rw [h, hp, hr]
    cases a.action with
    | enter => exact sameTimers_enterAction.heldRelease.trans (by simp)
    | release => simp
    | held => simp [heldActionButtonDownAction]
    | heldRelease => rfl
  · rw [h, hp, hr]
    cases a.action with
    | enter => exact sameTimers_enterAction.heldRelease.trans (by simp)
    | release => simp [sendDirect]
    | held => exact heldActionButtonReleaseAction_eq.2.heldRelease.trans (by simp)
    | heldRelease =>
      rw [heldReleaseButtonReleaseAction_eq]
      simp
  · rw [h, hp, hr]
    simp

/-- The entries whose messages were sent by themselves. -/
def directs (part : InputAction → Bool) (sent : List Sent) : List InputAction :=
  sent.filterMap fun
    | .direct a => if part a then some a else none
    | .repeated _ _ => none

theorem directs_append (part : InputAction → Bool) (sent sent' : List Sent) :
    directs part (sent ++ sent') = directs part sent ++ directs part sent' :=
  List.filterMap_append

theorem directs_direct (part : InputAction → Bool) (a : InputAction) :
    directs part [.direct a] = if part a then [a] else [] := by
  unfold directs
  cases h : part a <;> simp [h]

/-- An entry sends at most its own message. -/
theorem directs_processEntry (part : InputAction → Bool) :
    directs part (processEntry bits s a).sent = directs part s.sent ++
      if part a ∧ ((a.action = .enter ∧ isPressed s a bits) ∨
        (a.action = .release ∧ actionIsRelease s a bits) ∨
        (a.action = .heldRelease ∧ actionIsRelease s a bits ∧ s.heldRelease = some a))
      then [a] else [] := by
  have henter : directs part (enterAction s a bits).sent = directs part s.sent ++
      if part a ∧ actionIsPress bits a then [a] else [] := by
    unfold enterAction
    dsimp only
    by_cases hpress : actionIsPress bits a = true
    · have hsent : directs part (s.sent ++ [.direct a]) = directs part s.sent ++
          if part a ∧ actionIsPress bits a then [a] else [] := by
        rw [directs_append, directs_direct]
        simp [hpress]
      rw [if_pos hpress]
      by_cases hrepeat : a.repeatPeriod ≠ 0
      · rw [if_pos hrepeat]
        exact hsent
      · rw [if_neg hrepeat]
        exact hsent
    · have hnot : ¬ (part a = true ∧ actionIsPress bits a = true) := fun h => hpress h.2
      rw [if_neg hpress, if_neg hnot, List.append_nil]
      split_ifs <;> rfl
  rcases processEntry_cases bits s a with ⟨hp, hr, h⟩ | ⟨hp, hr, h⟩ | ⟨hp, hr, h⟩
  · have hpress := (Bool.and_eq_true_iff.mp hp).2
    rw [h, hp, hr]
    cases a.action with
    | enter =>
      dsimp only
      rw [henter, hpress]
      simp
    | release => simp
    | held => simp [heldActionButtonDownAction]
    | heldRelease => simp [heldReleaseButtonDownAction]
  · have hpress := not_press_of_release hr
    rw [h, hp, hr]
    cases a.action with
    | enter =>
      dsimp only
      rw [henter, hpress]
      simp
    | release =>
      dsimp only [sendDirect]
      rw [directs_append, directs_direct]
      simp
    | held =>
      have hsent : (heldActionButtonReleaseAction s).sent = s.sent := by
        unfold heldActionButtonReleaseAction
        split_ifs <;> rfl
      simp [hsent]
    | heldRelease =>
      dsimp only
      rw [heldReleaseButtonReleaseAction_eq]
      by_cases hwait : s.heldRelease = some a
      · simp [hwait, directs_append, directs_direct]
      · simp [hwait]
  · rw [h, hp, hr]
    simp

end Entry

end Mh40.InputEventManager
