import Mh40.InputEventManager.Entries

/-!
# The repeat

One entry at a time repeats its message.

* `Matched`: the entry of a running repeat, and those of the pending `HELD` timers, match the bits
  of the inputs.
* `foldl_matching`, `matched_iemHandler`: a pass over the table and an event keep that, when the
  release of the entry ends the repeat.
-/

namespace Mh40.InputEventManager

open List

/-- An entry of the table stops the repeat: an `ENTER` entry that is pressed, or a `HELD` entry that
is released when no `HELD` timer is pending. -/
def repeatStops (s : State) (bits : InputEventBits) : Bool → List InputAction → Bool
  | _, [] => false
  | pending, a :: rest =>
    if a.action = .enter ∧ isPressed s a bits then true
    else if a.action = .held ∧ isPressed s a bits then repeatStops s bits true rest
    else if a.action = .held ∧ actionIsRelease s a bits then
      !pending || repeatStops s bits false rest
    else repeatStops s bits pending rest

/-- The change that releases the `HELD` entry of a running repeat stops the repeat. -/
def RepeatEnds (actionTable : List InputAction) (s : State) : Event → Prop
  | .inputEvents bits =>
    ∀ a ∈ s.repeatAction, a.action = .held → actionIsRelease s a bits = true →
      0 < s.repeatTimers → repeatStops s bits (!s.heldTimers.isEmpty) actionTable = true
  | _ => True

section Repeat

variable {actionTable : List InputAction} {bits : InputEventBits} {s : State} {a : InputAction}
  {rest : List InputAction} {s' : State}

/-- An entry that repeats. -/
def CanRepeat (actionTable : List InputAction) (a : InputAction) : Prop :=
  a ∈ actionTable ∧ a.repeatPeriod ≠ 0 ∧ (a.action = .enter ∨ a.action = .held)

/-- Between the events: what may send a message belongs to an entry whose bits match. -/
structure Matched (actionTable : List InputAction) (s : State) : Prop where
  held : ∀ a ∈ s.heldTimers,
    a ∈ actionTable ∧ a.action = .held ∧ actionIsPress s.inputEventBits a = true
  repeated : s.repeatTimers = 0 ∨ ∃ a, s.repeatAction = some a ∧ CanRepeat actionTable a ∧
    actionIsPress s.inputEventBits a = true
  sent : ∀ a bits, .repeated a bits ∈ s.sent → actionIsPress bits a = true

/-- In a pass, before the entries of `rest`. -/
structure Matching (actionTable : List InputAction) (bits : InputEventBits)
    (rest : List InputAction) (s : State) : Prop where
  held : ∀ a ∈ s.heldTimers, a ∈ actionTable ∧ a.action = .held ∧
    (actionIsPress bits a = true ∨ (a ∈ rest ∧ actionIsRelease s a bits = true))
  repeated : s.repeatTimers = 0 ∨ ∃ a, s.repeatAction = some a ∧ CanRepeat actionTable a ∧
    (actionIsPress bits a = true ∨
      (a.action = .enter ∧ a ∈ rest ∧ actionIsRelease s a bits = true) ∨
      (a.action = .held ∧ repeatStops s bits (!s.heldTimers.isEmpty) rest = true))
  sent : ∀ a bits, .repeated a bits ∈ s.sent → actionIsPress bits a = true

theorem repeatStops_congr (h : s'.inputEventBits = s.inputEventBits) (pending : Bool)
    (rest : List InputAction) :
    repeatStops s' bits pending rest = repeatStops s bits pending rest := by
  induction rest generalizing pending with
  | nil => rfl
  | cons a rest ih =>
    unfold repeatStops
    rw [isPressed_congr h, actionIsRelease_congr h, ih, ih, ih]

/-- An entry that stops no repeat and cancels no `HELD` timer. -/
theorem repeatStops_cons_of_other {pending : Bool}
    (henter : ¬ (a.action = .enter ∧ isPressed s a bits = true))
    (hheld : a.action = .held → isPressed s a bits = false ∧ actionIsRelease s a bits = false) :
    repeatStops s bits pending (a :: rest) = repeatStops s bits pending rest := by
  rw [repeatStops, if_neg henter, if_neg, if_neg]
  · rintro ⟨hkind, hrelease⟩
    rw [(hheld hkind).2] at hrelease
    cases hrelease
  · rintro ⟨hkind, hpress⟩
    rw [(hheld hkind).1] at hpress
    cases hpress

/-- The `HELD` timers that an entry leaves alone. -/
theorem Matching.held_of_same (h : Matching actionTable bits (a :: rest) s)
    (hbits : s'.inputEventBits = s.inputEventBits)
    (ha : a.action = .held → actionIsRelease s a bits = false) :
    ∀ b ∈ s.heldTimers, b ∈ actionTable ∧ b.action = .held ∧
      (actionIsPress bits b = true ∨ (b ∈ rest ∧ actionIsRelease s' b bits = true)) := by
  intro b hb
  obtain ⟨hmem, hkind, hpress | ⟨hrest, hrelease⟩⟩ := h.held b hb
  · exact ⟨hmem, hkind, .inl hpress⟩
  · refine ⟨hmem, hkind, .inr ⟨?_, by rwa [actionIsRelease_congr hbits]⟩⟩
    rcases mem_cons.mp hrest with rfl | hrest
    · rw [ha hkind] at hrelease
      cases hrelease
    · exact hrest

/-- The repeat that an entry leaves alone. -/
theorem Matching.repeated_of_same (h : Matching actionTable bits (a :: rest) s)
    (hbits : s'.inputEventBits = s.inputEventBits) (hrepeat : s'.repeatTimers = s.repeatTimers)
    (haction : s'.repeatAction = s.repeatAction)
    (henter : a.action = .enter → s.repeatTimers = 0 ∨ s.repeatAction ≠ some a ∨
      actionIsRelease s a bits = false)
    (hstops : repeatStops s bits (!s.heldTimers.isEmpty) (a :: rest) = true →
      repeatStops s bits (!s'.heldTimers.isEmpty) rest = true) :
    s'.repeatTimers = 0 ∨ ∃ b, s'.repeatAction = some b ∧ CanRepeat actionTable b ∧
      (actionIsPress bits b = true ∨
        (b.action = .enter ∧ b ∈ rest ∧ actionIsRelease s' b bits = true) ∨
        (b.action = .held ∧ repeatStops s' bits (!s'.heldTimers.isEmpty) rest = true)) := by
  rw [hrepeat, haction]
  rcases h.repeated with hzero | ⟨b, hb, hcan, hcases⟩
  · exact .inl hzero
  · by_cases hzero : s.repeatTimers = 0
    · exact .inl hzero
    · refine .inr ⟨b, hb, hcan, ?_⟩
      rcases hcases with hpress | ⟨hkind, hrest, hrelease⟩ | ⟨hkind, hstops'⟩
      · exact .inl hpress
      · refine .inr (.inl ⟨hkind, ?_, by rwa [actionIsRelease_congr hbits]⟩)
        rcases mem_cons.mp hrest with rfl | hrest
        · rcases henter hkind with h0 | hne | hno
          · exact absurd h0 hzero
          · exact absurd hb hne
          · rw [hno] at hrelease
            cases hrelease
        · exact hrest
      · refine .inr (.inr ⟨hkind, ?_⟩)
        rw [repeatStops_congr hbits]
        exact hstops hstops'

/-- An entry that leaves the `HELD` timers and the repeat alone. -/
theorem Matching.of_same (h : Matching actionTable bits (a :: rest) s)
    (hbits : s'.inputEventBits = s.inputEventBits) (htimers : s'.heldTimers = s.heldTimers)
    (hrepeat : s'.repeatTimers = s.repeatTimers) (haction : s'.repeatAction = s.repeatAction)
    (hsent : ∀ b bits, .repeated b bits ∈ s'.sent → .repeated b bits ∈ s.sent)
    (henter : a.action = .enter → isPressed s a bits = false ∧ (s.repeatTimers = 0 ∨
      s.repeatAction ≠ some a ∨ actionIsRelease s a bits = false))
    (hheld : a.action = .held → isPressed s a bits = false ∧ actionIsRelease s a bits = false) :
    Matching actionTable bits rest s' where
  held := by
    rw [htimers]
    exact h.held_of_same hbits fun hkind => (hheld hkind).2
  repeated := h.repeated_of_same hbits hrepeat haction (fun hkind => (henter hkind).2)
    fun hstops => by
      rw [htimers]
      rwa [repeatStops_cons_of_other (fun hp => by
        rw [(henter hp.1).1] at hp
        exact Bool.false_ne_true hp.2) hheld] at hstops
  sent := fun b bits' hb => h.sent b bits' (hsent b bits' hb)

theorem mem_sent_of_direct {sent : List Sent} {b : InputAction} {bits' : InputEventBits}
    (h : .repeated b bits' ∈ sent ++ [.direct a]) : .repeated b bits' ∈ sent := by
  rcases mem_append.mp h with h | h
  · exact h
  · cases mem_singleton.mp h

section

variable (h : Matching actionTable bits (a :: rest) s)
include h

/-- An `ENTER` entry that is pressed takes the repeat over. -/
theorem Matching.enter_pressed (ha : a ∈ actionTable) (hkind : a.action = .enter)
    (hpress : actionIsPress bits a = true) :
    Matching actionTable bits rest (enterAction s a bits) := by
  have hsame : SameTimers s (enterAction s a bits) := sameTimers_enterAction
  have hheld := h.held_of_same hsame.inputEventBits fun hheld => by
    rw [hkind] at hheld
    cases hheld
  refine ⟨by rw [hsame.heldTimers]; exact hheld, ?_, fun b bits' hb => h.sent b bits' ?_⟩
  · unfold enterAction
    rw [if_pos hpress]
    dsimp only
    by_cases hperiod : a.repeatPeriod ≠ 0
    · rw [if_pos hperiod]
      exact .inr ⟨a, rfl, ⟨ha, hperiod, .inl hkind⟩, .inl hpress⟩
    · rw [if_neg hperiod]
      exact .inl rfl
  · unfold enterAction at hb
    rw [if_pos hpress] at hb
    dsimp only at hb
    split_ifs at hb
    · exact mem_sent_of_direct hb
    · exact mem_sent_of_direct hb

/-- An `ENTER` entry that is released stops its own repeat. -/
theorem Matching.enter_released (hkind : a.action = .enter)
    (hrelease : actionIsRelease s a bits = true) :
    Matching actionTable bits rest (enterAction s a bits) := by
  have hpress := not_press_of_release hrelease
  unfold enterAction
  rw [if_neg (Bool.eq_false_iff.mp hpress)]
  by_cases hown : a.repeatPeriod ≠ 0 ∧ s.repeatAction = some a ∧ actionIsRelease s a bits = true
  · rw [if_pos hown]
    refine ⟨h.held_of_same rfl fun hheld => ?_, .inl rfl, h.sent⟩
    rw [hkind] at hheld
    cases hheld
  · rw [if_neg hown]
    refine h.of_same rfl rfl rfl rfl (fun _ _ hb => hb) (fun _ => ⟨isPressed_eq_false_of_release hrelease, ?_⟩)
      fun hheld => ?_
    · rcases h.repeated with hzero | ⟨b, hb, hcan, -⟩
      · exact .inl hzero
      · refine .inr (.inl fun heq => hown ⟨?_, heq, hrelease⟩)
        obtain rfl := Option.some.inj (hb.symm.trans heq)
        exact hcan.2.1
    · rw [hkind] at hheld
      cases hheld

/-- A `HELD` entry that is pressed. -/
theorem Matching.held_pressed (ha : a ∈ actionTable) (hkind : a.action = .held)
    (hpress : isPressed s a bits = true) (hrelease : actionIsRelease s a bits = false) :
    Matching actionTable bits rest (heldActionButtonDownAction s a) where
  held := fun b hb => by
    rcases mem_append.mp hb with hb | hb
    · exact h.held_of_same rfl (fun _ => hrelease) b hb
    · obtain rfl := mem_singleton.mp hb
      exact ⟨ha, hkind, .inl (Bool.and_eq_true_iff.mp hpress).2⟩
  repeated := h.repeated_of_same rfl rfl rfl (fun henter => nomatch hkind.symm.trans henter)
    fun hstops => by
      have hpending : (!(heldActionButtonDownAction s a).heldTimers.isEmpty) = true := by
        simp [heldActionButtonDownAction]
      rw [repeatStops, if_neg (by simp [hkind]), if_pos ⟨hkind, hpress⟩] at hstops
      rwa [hpending]
  sent := h.sent

/-- A `HELD` entry that is released. -/
theorem Matching.held_released (hkind : a.action = .held)
    (hrelease : actionIsRelease s a bits = true) :
    Matching actionTable bits rest (heldActionButtonReleaseAction s) := by
  unfold heldActionButtonReleaseAction
  by_cases hnil : s.heldTimers = []
  · rw [if_pos hnil]
    refine ⟨fun b hb => ?_, .inl rfl, h.sent⟩
    rw [hnil] at hb
    cases hb
  · rw [if_neg hnil]
    refine ⟨nofun, h.repeated_of_same rfl rfl rfl (fun henter => nomatch hkind.symm.trans henter)
      fun hstops => ?_, h.sent⟩
    have hpending : s.heldTimers.isEmpty = false := by simpa using hnil
    rw [repeatStops, if_neg (by rw [hkind]; nofun), if_neg, if_pos ⟨hkind, hrelease⟩,
      hpending] at hstops
    · exact hstops
    · rw [isPressed_eq_false_of_release hrelease]
      exact fun hp => Bool.false_ne_true hp.2

theorem matching_processEntry (ha : a ∈ actionTable) :
    Matching actionTable bits rest (processEntry bits s a) := by
  rcases processEntry_cases bits s a with ⟨hp, hr, heq⟩ | ⟨hp, hr, heq⟩ | ⟨hp, hr, heq⟩
  · rw [heq]
    cases hkind : a.action with
    | enter => exact h.enter_pressed ha hkind (Bool.and_eq_true_iff.mp hp).2
    | release => exact h.of_same rfl rfl rfl rfl (fun _ _ hb => hb) (by simp [hkind]) (by simp [hkind])
    | held => exact h.held_pressed ha hkind hp hr
    | heldRelease =>
      exact h.of_same rfl rfl rfl rfl (fun _ _ hb => hb) (by simp [hkind]) (by simp [hkind])
  · rw [heq]
    cases hkind : a.action with
    | enter => exact h.enter_released hkind hr
    | release =>
      exact h.of_same rfl rfl rfl rfl (fun _ _ hb => mem_sent_of_direct hb) (by simp [hkind])
        (by simp [hkind])
    | held => exact h.held_released hkind hr
    | heldRelease =>
      dsimp only
      rw [heldReleaseButtonReleaseAction_eq]
      refine h.of_same rfl rfl rfl rfl (fun _ _ hb => ?_) (by simp [hkind]) (by simp [hkind])
      dsimp only at hb
      split_ifs at hb
      · exact mem_sent_of_direct hb
      · exact hb
  · rw [heq]
    exact h.of_same rfl rfl rfl rfl (fun _ _ hb => hb) (fun _ => ⟨hp, .inr (.inr hr)⟩)
      fun _ => ⟨hp, hr⟩

end

/-- **A pass, for the repeat.** -/
theorem foldl_matching (entries : List InputAction) (h : Matching actionTable bits entries s)
    (hsub : ∀ a ∈ entries, a ∈ actionTable) :
    Matching actionTable bits [] (entries.foldl (processEntry bits) s) := by
  induction entries generalizing s with
  | nil => exact h
  | cons a rest ih =>
    exact ih (matching_processEntry h (hsub a mem_cons_self))
      fun b hb => hsub b (mem_cons_of_mem a hb)

theorem Matched.matching (h : Matched actionTable s)
    (hstops : RepeatEnds actionTable s (.inputEvents bits)) :
    Matching actionTable bits actionTable s := by
  have hrelease : ∀ a, actionIsPress s.inputEventBits a = true → actionIsPress bits a ≠ true →
      actionIsRelease s a bits = true := fun a hprev hnot =>
    Bool.and_eq_true_iff.mpr ⟨hprev, by rw [Bool.eq_false_iff.mpr hnot]; rfl⟩
  refine ⟨fun a ha => ?_, ?_, h.sent⟩
  · obtain ⟨hmem, hkind, hprev⟩ := h.held a ha
    by_cases hpress : actionIsPress bits a = true
    · exact ⟨hmem, hkind, .inl hpress⟩
    · exact ⟨hmem, hkind, .inr ⟨hmem, hrelease a hprev hpress⟩⟩
  · rcases h.repeated with hzero | ⟨a, ha, hcan, hprev⟩
    · exact .inl hzero
    · by_cases hzero : s.repeatTimers = 0
      · exact .inl hzero
      · refine .inr ⟨a, ha, hcan, ?_⟩
        by_cases hpress : actionIsPress bits a = true
        · exact .inl hpress
        · have hrel := hrelease a hprev hpress
          rcases hcan.2.2 with hkind | hkind
          · exact .inr (.inl ⟨hkind, hcan.1, hrel⟩)
          · exact .inr (.inr ⟨hkind, hstops a ha hkind hrel (Nat.pos_of_ne_zero hzero)⟩)

/-- **An event, for the repeat.** -/
theorem matched_iemHandler (h : Matched actionTable s) {event : Event}
    (hends : RepeatEnds actionTable s event) :
    Matched actionTable (iemHandler actionTable s event) := by
  cases event with
  | inputEvents bits =>
    obtain ⟨hheld, hrepeated, hsent⟩ :=
      foldl_matching actionTable (h.matching hends) fun _ ha => ha
    refine ⟨fun a ha => ?_, ?_, hsent⟩
    · obtain ⟨hmem, hkind, hpress | ⟨hnil, -⟩⟩ := hheld a ha
      · exact ⟨hmem, hkind, hpress⟩
      · cases hnil
    · rcases hrepeated with hzero | ⟨a, ha, hcan, hpress | ⟨-, hnil, -⟩ | ⟨-, hstops⟩⟩
      · exact .inl hzero
      · exact .inr ⟨a, ha, hcan, hpress⟩
      · cases hnil
      · cases hstops
  | heldTimer a =>
    unfold iemHandler
    dsimp only
    by_cases hin : a ∈ s.heldTimers
    · rw [if_pos hin]
      obtain ⟨hmem, hkind, hpress⟩ := h.held a hin
      unfold handleHeldTimer
      dsimp only [sendDirect]
      by_cases hperiod : a.repeatPeriod ≠ 0
      · rw [if_pos hperiod]
        exact ⟨fun b hb => h.held b (mem_of_mem_erase hb),
          .inr ⟨a, rfl, ⟨hmem, hperiod, .inr hkind⟩, hpress⟩,
          fun b bits hb => h.sent b bits (mem_sent_of_direct hb)⟩
      · rw [if_neg hperiod]
        exact ⟨fun b hb => h.held b (mem_of_mem_erase hb), .inl rfl,
          fun b bits hb => h.sent b bits (mem_sent_of_direct hb)⟩
    · rw [if_neg hin]
      exact h
  | repeatTimer =>
    unfold iemHandler
    dsimp only
    by_cases hpos : 0 < s.repeatTimers
    · obtain ⟨a, ha, hcan, hpress⟩ := h.repeated.resolve_left (Nat.pos_iff_ne_zero.mp hpos)
      rw [if_pos hpos]
      unfold handleRepeatTimer
      dsimp only
      rw [ha]
      refine ⟨h.held, .inr ⟨a, rfl, hcan, hpress⟩, fun b bits hb => ?_⟩
      rcases mem_append.mp hb with hb | hb
      · exact h.sent b bits hb
      · cases mem_singleton.mp hb
        exact hpress
    · rw [if_neg hpos]
      exact h
  | heldReleaseTimer a =>
    unfold iemHandler
    dsimp only
    split_ifs
    · exact ⟨h.held, h.repeated, h.sent⟩
    · exact h

end Repeat

theorem matched_init (actionTable : List InputAction) : Matched actionTable .init :=
  ⟨nofun, .inl rfl, nofun⟩

end Mh40.InputEventManager
