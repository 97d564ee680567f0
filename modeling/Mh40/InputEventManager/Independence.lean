import Mh40.InputEventManager.Repeat
import Mh40.Lib.Run
import Mathlib.Data.Option.Basic

/-!
# Buttons of one table

A table and a part of it see the same inputs and expiries.

* `Undisturbed`: no entry outside the part takes away what is pending for the part, and releasing
  the entry of a running repeat stops it.
* `foldl_mid`, `parted_step`: what a pass over the table and an event keep.
* `independent_of_undisturbed`: in an undisturbed run the entries of the part send what the part
  alone sends, and repeats are sent for entries whose bits match.
-/

namespace Mh40.InputEventManager

open Lib List Option

/-! ## A table and a part of it -/

/-- The whole table, and the part alone. -/
structure Joint where
  full : State
  alone : State

def Joint.init : Joint := ⟨.init, .init⟩

/-- Both see the same. -/
def step (actionTable : List InputAction) (part : InputAction → Bool) (j : Joint) (event : Event) :
    Option Joint :=
  some ⟨iemHandler actionTable j.full event, iemHandler (actionTable.filter part) j.alone event⟩

/-- What should hold: the entries of the part send the messages that the part alone sends, in the
same order, and a message is repeated only for an entry whose bits match. -/
structure Independent (part : InputAction → Bool) (j : Joint) : Prop where
  directs : directs part j.full.sent = directs (fun _ => true) j.alone.sent
  repeated : ∀ a bits, .repeated a bits ∈ j.full.sent → actionIsPress bits a = true

/-- An entry of the part and of the kind is released by the change, further down the table. -/
def isReleasedLater (part : InputAction → Bool) (kind : InputEventAction) (s : State)
    (bits : InputEventBits) (rest : List InputAction) : Bool :=
  rest.any fun b => part b && decide (b.action = kind) && actionIsRelease s b bits

/-- An entry outside the part takes nothing away from the part: it is not released while a timer of
its kind is pending for the part, which no entry of the part further down the table cancels, and a
`HELD_RELEASE` entry is not pressed while one of the part waits for its release. -/
def spares (part : InputAction → Bool) (bits : InputEventBits) (alone : State) (a : InputAction)
    (rest : List InputAction) : Bool :=
  (!(decide (a.action = .held) && actionIsRelease alone a bits) || alone.heldTimers.isEmpty ||
    isReleasedLater part .held alone bits rest) &&
  (!(decide (a.action = .heldRelease) && actionIsRelease alone a bits) ||
    alone.heldReleaseTimers.isEmpty || isReleasedLater part .heldRelease alone bits rest) &&
  (!(decide (a.action = .heldRelease) && isPressed alone a bits) || alone.heldRelease.isNone)

/-- Every entry outside the part spares what the part alone would have pending. -/
def isSpared (part : InputAction → Bool) (bits : InputEventBits) : State → List InputAction → Bool
  | _, [] => true
  | alone, a :: rest =>
    if part a then isSpared part bits (processEntry bits alone a) rest
    else spares part bits alone a rest && isSpared part bits alone rest

/-- Nothing of the part is taken away, and no repeat outlives its entry. -/
def Undisturbed (actionTable : List InputAction) (part : InputAction → Bool) (j : Joint)
    (event : Event) : Prop :=
  RepeatEnds actionTable j.full event ∧
    match event with
    | .inputEvents bits => isSpared part bits j.alone actionTable = true
    | .heldReleaseTimer a =>
      a ∈ j.full.heldReleaseTimers → part a = false → j.alone.heldRelease = none
    | _ => True

instance (actionTable : List InputAction) (part : InputAction → Bool) (j : Joint) (event : Event) :
    Decidable (Undisturbed actionTable part j event) := by
  cases event <;> unfold Undisturbed RepeatEnds <;> infer_instance

/-! ## What is pending for the part -/

section Part

variable {actionTable : List InputAction} {part : InputAction → Bool} {bits : InputEventBits}
  {full alone : State} {a : InputAction} {rest : List InputAction} {kind : InputEventAction}
  {timers timers' : List InputAction}

/-- In a pass, before the entries of `rest`: what is pending for the part is what the part alone
has pending, but for timers that are still to be cancelled. -/
structure Mid (part : InputAction → Bool) (bits : InputEventBits) (rest : List InputAction)
    (full alone : State) : Prop where
  inputEventBits : full.inputEventBits = alone.inputEventBits
  directs : directs part full.sent = directs (fun _ => true) alone.sent
  held : full.heldTimers.filter part = alone.heldTimers ∨
    isReleasedLater part .held alone bits rest = true
  heldReleaseTimers : full.heldReleaseTimers.filter part = alone.heldReleaseTimers ∨
    isReleasedLater part .heldRelease alone bits rest = true
  heldRelease : full.heldRelease.filter part = alone.heldRelease

theorem isReleasedLater_cons {s : State} (h : isReleasedLater part kind s bits (a :: rest) = true) :
    (part a = true ∧ a.action = kind ∧ actionIsRelease s a bits = true) ∨
      isReleasedLater part kind s bits rest = true := by
  unfold isReleasedLater at h ⊢
  rw [any_cons, Bool.or_eq_true_iff, Bool.and_eq_true_iff, Bool.and_eq_true_iff,
    decide_eq_true_iff, and_assoc] at h
  exact h

theorem isReleasedLater_processEntry {s : State} :
    isReleasedLater part kind (processEntry bits s a) bits rest =
      isReleasedLater part kind s bits rest := by
  unfold isReleasedLater
  congr 1
  funext b
  rw [actionIsRelease_congr inputEventBits_processEntry]

/-- Timers of one kind after an entry of the part: pressed, it adds one; released, it cancels all. -/
theorem filter_timers_of_part (ha : part a = true)
    (h : timers.filter part = timers' ∨ isReleasedLater part kind alone bits (a :: rest) = true) :
    ((if a.action = kind ∧ isPressed alone a bits = true then timers ++ [a]
        else if a.action = kind ∧ actionIsRelease alone a bits = true then [] else timers).filter
          part =
      if a.action = kind ∧ isPressed alone a bits = true then timers' ++ [a]
        else if a.action = kind ∧ actionIsRelease alone a bits = true then [] else timers') ∨
      isReleasedLater part kind alone bits rest = true := by
  rcases h with h | h
  · left
    split_ifs
    · rw [filter_append, h, filter_singleton, ha]
      rfl
    · rfl
    · exact h
  · rcases isReleasedLater_cons h with ⟨-, hkind, hrelease⟩ | h
    · left
      have hnot : ¬ (a.action = kind ∧ isPressed alone a bits = true) := fun hp => by
        rw [isPressed_eq_false_of_release hrelease] at hp
        exact Bool.false_ne_true hp.2
      rw [if_neg hnot, if_pos ⟨hkind, hrelease⟩, if_neg hnot, if_pos ⟨hkind, hrelease⟩]
      rfl
    · exact .inr h

/-- Timers of one kind after an entry outside the part that spares them. -/
theorem filter_timers_of_other (ha : part a = false)
    (hspares : ¬ (a.action = kind ∧ actionIsRelease alone a bits = true) ∨ timers' = [] ∨
      isReleasedLater part kind alone bits rest = true)
    (h : timers.filter part = timers' ∨ isReleasedLater part kind alone bits (a :: rest) = true) :
    (if a.action = kind ∧ isPressed alone a bits = true then timers ++ [a]
        else if a.action = kind ∧ actionIsRelease alone a bits = true then [] else timers).filter
          part = timers' ∨
      isReleasedLater part kind alone bits rest = true := by
  rcases h with h | h
  · split_ifs with hpress hrelease
    · left
      rw [filter_append, h, filter_singleton, ha]
      exact append_nil _
    · rcases hspares with hno | hnil | hlater
      · exact absurd hrelease hno
      · exact .inl hnil.symm
      · exact .inr hlater
    · exact .inl h
  · rcases isReleasedLater_cons h with ⟨hpart, -⟩ | h
    · rw [ha] at hpart
      cases hpart
    · exact .inr h

/-- An entry of the part. -/
theorem mid_of_part (h : Mid part bits (a :: rest) full alone) (ha : part a = true) :
    Mid part bits rest (processEntry bits full a) (processEntry bits alone a) where
  inputEventBits := by
    rw [inputEventBits_processEntry, inputEventBits_processEntry, h.inputEventBits]
  directs := by
    have hwait : full.heldRelease = some a ↔ alone.heldRelease = some a := by
      rw [← h.heldRelease, filter_eq_some_iff, and_iff_left ha]
    rw [directs_processEntry, directs_processEntry, h.directs, isPressed_congr h.inputEventBits,
      actionIsRelease_congr h.inputEventBits, ha]
    simp only [hwait]
  held := by
    rw [(timers_processEntry ..).2.1, (timers_processEntry ..).2.1, isReleasedLater_processEntry,
      isPressed_congr h.inputEventBits, actionIsRelease_congr h.inputEventBits]
    exact filter_timers_of_part ha h.held
  heldReleaseTimers := by
    rw [(timers_processEntry ..).2.2, (timers_processEntry ..).2.2,
      isReleasedLater_processEntry, isPressed_congr h.inputEventBits,
      actionIsRelease_congr h.inputEventBits]
    exact filter_timers_of_part ha h.heldReleaseTimers
  heldRelease := by
    have hwait : full.heldRelease = some a ↔ alone.heldRelease = some a := by
      rw [← h.heldRelease, filter_eq_some_iff, and_iff_left ha]
    rw [heldRelease_processEntry, heldRelease_processEntry, isPressed_congr h.inputEventBits,
      actionIsRelease_congr h.inputEventBits]
    simp only [hwait]
    split_ifs
    · rfl
    · rfl
    · exact h.heldRelease

/-- An entry outside the part that spares it. -/
theorem mid_of_other (h : Mid part bits (a :: rest) full alone) (ha : part a = false)
    (hspares : spares part bits alone a rest = true) :
    Mid part bits rest (processEntry bits full a) alone := by
  unfold spares at hspares
  simp only [Bool.and_eq_true_iff, Bool.or_eq_true_iff, Bool.not_eq_true',
    List.isEmpty_iff, isNone_iff_eq_none, Bool.and_eq_false_iff, decide_eq_false_iff_not]
    at hspares
  obtain ⟨⟨hheld, hheldRelease⟩, hwait⟩ := hspares
  have hspared {kind : InputEventAction} {timers : List InputAction}
      (hs : (((¬ a.action = kind) ∨ actionIsRelease alone a bits = false) ∨ timers = []) ∨
        isReleasedLater part kind alone bits rest = true) :
      ¬ (a.action = kind ∧ actionIsRelease alone a bits = true) ∨ timers = [] ∨
        isReleasedLater part kind alone bits rest = true := by
    rcases hs with ((hkind | hrelease) | hnil) | hlater
    · exact .inl fun h => hkind h.1
    · refine .inl fun h => ?_
      rw [hrelease] at h
      exact Bool.false_ne_true h.2
    · exact .inr (.inl hnil)
    · exact .inr (.inr hlater)
  refine ⟨?_, ?_, ?_, ?_, ?_⟩
  · rw [inputEventBits_processEntry, h.inputEventBits]
  · rw [directs_processEntry, h.directs, if_neg, append_nil]
    rw [ha]
    exact fun h => Bool.false_ne_true h.1
  · rw [(timers_processEntry ..).2.1, isPressed_congr h.inputEventBits,
      actionIsRelease_congr h.inputEventBits]
    exact filter_timers_of_other ha (hspared hheld) h.held
  · rw [(timers_processEntry ..).2.2, isPressed_congr h.inputEventBits,
      actionIsRelease_congr h.inputEventBits]
    exact filter_timers_of_other ha (hspared hheldRelease) h.heldReleaseTimers
  · rw [heldRelease_processEntry, isPressed_congr h.inputEventBits,
      actionIsRelease_congr h.inputEventBits]
    split_ifs with hpress hrelease
    · rcases hwait with (hkind | hnot) | hnone
      · exact absurd hpress.1 hkind
      · rw [hnot] at hpress
        exact absurd hpress.2 Bool.false_ne_true
      · exact hnone.symm
    · rw [← h.heldRelease, hrelease.2, filter_some, ha]
      rfl
    · exact h.heldRelease

/-- **A pass.** -/
theorem foldl_mid (entries : List InputAction) (h : Mid part bits entries full alone)
    (hspared : isSpared part bits alone entries = true) :
    Mid part bits [] (entries.foldl (processEntry bits) full)
      ((entries.filter part).foldl (processEntry bits) alone) := by
  induction entries generalizing full alone with
  | nil => exact h
  | cons a rest ih =>
    rw [isSpared] at hspared
    cases ha : part a with
    | true =>
      rw [if_pos ha] at hspared
      rw [filter_cons_of_pos ha]
      exact ih (mid_of_part h ha) hspared
    | false =>
      rw [if_neg (Bool.eq_false_iff.mp ha), Bool.and_eq_true_iff] at hspared
      rw [filter_cons_of_neg (Bool.eq_false_iff.mp ha)]
      exact ih (mid_of_other h ha hspared.1) hspared.2

/-- Between the events nothing is left to be cancelled. -/
structure Parted (part : InputAction → Bool) (full alone : State) : Prop where
  inputEventBits : full.inputEventBits = alone.inputEventBits
  directs : directs part full.sent = directs (fun _ => true) alone.sent
  held : full.heldTimers.filter part = alone.heldTimers
  heldReleaseTimers : full.heldReleaseTimers.filter part = alone.heldReleaseTimers
  heldRelease : full.heldRelease.filter part = alone.heldRelease

theorem Parted.mid (h : Parted part full alone) : Mid part bits actionTable full alone :=
  ⟨h.inputEventBits, h.directs, .inl h.held, .inl h.heldReleaseTimers, h.heldRelease⟩

theorem parted_inputEventsChanged (h : Parted part full alone)
    (hspared : isSpared part bits alone actionTable = true) :
    Parted part (inputEventsChanged actionTable full bits)
      (inputEventsChanged (actionTable.filter part) alone bits) := by
  obtain ⟨-, hdirects, hheld, htimers, hwait⟩ := foldl_mid actionTable h.mid hspared
  exact ⟨rfl, hdirects, hheld.resolve_right Bool.false_ne_true,
    htimers.resolve_right Bool.false_ne_true, hwait⟩

/-- A pending timer expires in the part when it is one of its own. -/
theorem filter_erase (timers : List InputAction) :
    (timers.erase a).filter part =
      if part a then (timers.filter part).erase a else timers.filter part := by
  induction timers with
  | nil => split_ifs <;> rfl
  | cons b timers ih =>
    by_cases hb : b = a
    · subst hb
      rw [erase_cons_head]
      cases hpart : part b with
      | true => rw [if_pos rfl, filter_cons_of_pos hpart, erase_cons_head]
      | false =>
        rw [if_neg Bool.false_ne_true, filter_cons_of_neg (Bool.eq_false_iff.mp hpart)]
    · rw [erase_cons_tail (by simpa using hb)]
      cases hpart : part b with
      | true =>
        rw [filter_cons_of_pos hpart, filter_cons_of_pos hpart, ih]
        split_ifs
        · rw [erase_cons_tail (by simpa using hb)]
        · rfl
      | false =>
        rw [filter_cons_of_neg (Bool.eq_false_iff.mp hpart),
          filter_cons_of_neg (Bool.eq_false_iff.mp hpart), ih]

theorem handleHeldTimer_eq (s : State) (a : InputAction) :
    ∃ repeatAction repeatTimers, handleHeldTimer s a =
      { s with
        heldTimers := s.heldTimers.erase a
        sent := s.sent ++ [.direct a]
        repeatAction
        repeatTimers } := by
  unfold handleHeldTimer
  dsimp only [sendDirect]
  split_ifs
  · exact ⟨_, _, rfl⟩
  · exact ⟨_, _, rfl⟩

theorem parted_heldTimer (h : Parted part full alone) :
    Parted part (iemHandler actionTable full (.heldTimer a))
      (iemHandler (actionTable.filter part) alone (.heldTimer a)) := by
  have hmem : a ∈ alone.heldTimers ↔ a ∈ full.heldTimers ∧ part a = true := by
    rw [← h.held, mem_filter]
  obtain ⟨repeatAction, repeatTimers, hfull⟩ := handleHeldTimer_eq full a
  obtain ⟨repeatAction', repeatTimers', halone⟩ := handleHeldTimer_eq alone a
  unfold iemHandler
  dsimp only
  by_cases hin : a ∈ full.heldTimers
  · rw [if_pos hin, hfull]
    cases ha : part a with
    | true =>
      rw [if_pos (hmem.mpr ⟨hin, ha⟩), halone]
      refine ⟨h.inputEventBits, ?_, ?_, h.heldReleaseTimers, h.heldRelease⟩
      · dsimp only
        rw [directs_append, directs_append, h.directs, directs_direct, directs_direct, ha]
      · dsimp only
        rw [filter_erase, if_pos ha, h.held]
    | false =>
      have hnot : a ∉ alone.heldTimers := fun hmem' => by
        rw [ha] at hmem
        exact Bool.false_ne_true (hmem.mp hmem').2
      rw [if_neg hnot]
      refine ⟨h.inputEventBits, ?_, ?_, h.heldReleaseTimers, h.heldRelease⟩
      · dsimp only
        rw [directs_append, h.directs, directs_direct, ha]
        exact append_nil _
      · dsimp only
        rw [filter_erase, if_neg (Bool.eq_false_iff.mp ha), h.held]
  · rw [if_neg hin, if_neg fun hmem' => hin (hmem.mp hmem').1]
    exact h

theorem parted_heldReleaseTimer (h : Parted part full alone)
    (hfits : a ∈ full.heldReleaseTimers → part a = false → alone.heldRelease = none) :
    Parted part (iemHandler actionTable full (.heldReleaseTimer a))
      (iemHandler (actionTable.filter part) alone (.heldReleaseTimer a)) := by
  have hmem : a ∈ alone.heldReleaseTimers ↔ a ∈ full.heldReleaseTimers ∧ part a = true := by
    rw [← h.heldReleaseTimers, mem_filter]
  unfold iemHandler
  dsimp only
  by_cases hin : a ∈ full.heldReleaseTimers
  · rw [if_pos hin]
    cases ha : part a with
    | true =>
      rw [if_pos (hmem.mpr ⟨hin, ha⟩)]
      refine ⟨h.inputEventBits, h.directs, h.held, ?_, ?_⟩
      · dsimp only [handleHeldReleaseTimer]
        rw [filter_erase, if_pos ha, h.heldReleaseTimers]
      · dsimp only [handleHeldReleaseTimer]
        rw [filter_some, ha, if_pos rfl]
    | false =>
      have hnot : a ∉ alone.heldReleaseTimers := fun hmem' => by
        rw [ha] at hmem
        exact Bool.false_ne_true (hmem.mp hmem').2
      rw [if_neg hnot]
      refine ⟨h.inputEventBits, h.directs, h.held, ?_, ?_⟩
      · dsimp only [handleHeldReleaseTimer]
        rw [filter_erase, if_neg (Bool.eq_false_iff.mp ha), h.heldReleaseTimers]
      · dsimp only [handleHeldReleaseTimer]
        rw [filter_some, ha, hfits hin ha]
        rfl
  · rw [if_neg hin, if_neg fun hmem' => hin (hmem.mp hmem').1]
    exact h

variable (actionTable part) in
/-- A repeat changes nothing else. -/
theorem sameTimers_repeatTimer (s : State) :
    SameTimers s (iemHandler actionTable s .repeatTimer) ∧
      directs part (iemHandler actionTable s .repeatTimer).sent = directs part s.sent := by
  unfold iemHandler
  dsimp only
  split_ifs
  · unfold handleRepeatTimer
    dsimp only
    cases s.repeatAction with
    | some a =>
      refine ⟨⟨rfl, rfl, rfl, rfl⟩, ?_⟩
      dsimp only
      rw [directs_append]
      exact append_nil _
    | none => exact ⟨⟨rfl, rfl, rfl, rfl⟩, rfl⟩
  · exact ⟨⟨rfl, rfl, rfl, rfl⟩, rfl⟩

theorem parted_repeatTimer (h : Parted part full alone) :
    Parted part (iemHandler actionTable full .repeatTimer)
      (iemHandler (actionTable.filter part) alone .repeatTimer) := by
  obtain ⟨hfull, hsent⟩ := sameTimers_repeatTimer actionTable part full
  obtain ⟨halone, hsent'⟩ :=
    sameTimers_repeatTimer (actionTable.filter part) (fun _ => true) alone
  exact ⟨by rw [hfull.inputEventBits, halone.inputEventBits, h.inputEventBits],
    by rw [hsent, hsent', h.directs], by rw [hfull.heldTimers, halone.heldTimers, h.held],
    by rw [hfull.heldReleaseTimers, halone.heldReleaseTimers, h.heldReleaseTimers],
    by rw [hfull.heldRelease, halone.heldRelease, h.heldRelease]⟩

/-- **An event.** -/
theorem parted_step {j : Joint} (h : Parted part j.full j.alone) {event : Event}
    (hfits : Undisturbed actionTable part j event) :
    Parted part (iemHandler actionTable j.full event)
      (iemHandler (actionTable.filter part) j.alone event) := by
  cases event with
  | inputEvents bits => exact parted_inputEventsChanged h hfits.2
  | heldTimer a => exact parted_heldTimer h
  | repeatTimer => exact parted_repeatTimer h
  | heldReleaseTimer a => exact parted_heldReleaseTimer h hfits.2

end Part

/-! ## Runs -/

theorem parted_init (part : InputAction → Bool) : Parted part .init .init :=
  ⟨rfl, rfl, rfl, rfl, rfl⟩

/-- **Independence.** In every state of a run in which nothing of the part is disturbed and no
repeat outlives its entry, the entries of the part have sent what the part alone has sent, and
messages have been repeated only for entries whose bits matched. -/
theorem independent_of_undisturbed (actionTable : List InputAction) (part : InputAction → Bool)
    (events : List Event) (h : Meets (step actionTable part) (Undisturbed actionTable part) .init events) :
    Throughout (step actionTable part) (Independent part) .init events := by
  intro ks j hks hj
  have hstep (j : Joint) (event : Event) (j' : Joint)
      (hj : Parted part j.full j.alone ∧ Matched actionTable j.full)
      (hfits : Undisturbed actionTable part j event)
      (hstep : step actionTable part j event = some j') :
      Parted part j'.full j'.alone ∧ Matched actionTable j'.full := by
    obtain rfl := Option.some.inj hstep
    exact ⟨parted_step hj.1 hfits, matched_iemHandler hj.2 hfits.1⟩
  have hinv := invariant_of_meets hstep ⟨parted_init part, matched_init actionTable⟩
    (h.of_prefix hks) hj
  exact ⟨hinv.1.directs, hinv.2.sent⟩

/-! ## Two buttons -/

/-- An entry for a button that is held. -/
def heldEntry (address : ℕ) (bits : InputEventBits) (repeatPeriod : ℕ) : InputAction :=
  ⟨address, bits, bits, .held, repeatPeriod, address⟩

/-- Two buttons are held at once until their timers expire; the first one repeats in between and is
released first. -/
theorem independent_of_undisturbed_both :
    Throughout (step [heldEntry 0 1 5, heldEntry 1 2 0] fun a => a.address == 0)
      (Independent fun a => a.address == 0) .init
      [.inputEvents 1, .inputEvents 3, .heldTimer (heldEntry 0 1 5), .repeatTimer,
        .heldTimer (heldEntry 1 2 0), .inputEvents 2, .inputEvents 0] :=
  independent_of_undisturbed _ _ _ (by decide +kernel)

/-- A second button is pressed and released while the first one is held: nothing is sent for the
first one when its time is up. -/
theorem not_independent_overlapping :
    ¬ Throughout (step [heldEntry 0 1 0, heldEntry 1 2 0] fun a => a.address == 0)
      (Independent fun a => a.address == 0) .init
      [.inputEvents 1, .inputEvents 3, .inputEvents 1, .heldTimer (heldEntry 0 1 0)] := by
  intro h
  have hdirects := (h _ _ List.prefix_rfl rfl).directs
  exact absurd hdirects (by decide +kernel)

end Mh40.InputEventManager
