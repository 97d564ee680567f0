import Mh40.InputEventManager.Presses

/-!
# The passes over the table

* `pressing_foldl`: the pass that begins a press, by induction on the entries behind.
* `releasing_foldl`: the pass that ends it, by induction on the entries that are left. The repeat of
  a `HELD` entry is cancelled by the first `HELD` entry that finds no `HELD` timer; there is one,
  since the entry that repeats is none of those whose timers are pending.
-/

namespace Mh40.InputEventManager.Timed

open List Option

/-! ## The pass that begins a press -/

section Press

variable {T : PatternTable} {bits : InputEventBits} {done rest : List InputAction}
  {s₀ s : State} {flag : Bool} {a : InputAction}

/-- In the pass that begins a press, behind the entries of `done`. -/
structure Pressing (done : List InputAction) (s₀ s : State) : Prop where
  now : s.now = s₀.now
  inputEventBits : s.inputEventBits = s₀.inputEventBits
  sent : s.sent = s₀.sent ++ (ofKind .enter done).map Sent.direct
  pressed : Pressed done s.now s []
  heldRelease : s.heldRelease = none

/-- A turn of the loop for an entry of which a bit has changed. -/
theorem processEntry_of_changed (hchanged : hasChanged s a bits = true) :
    (processEntry bits (s, flag) a).1 = match a.action with
      | .enter => enterAction s a bits
      | .release => releaseAction s a bits
      | .multiClick => if flag then s else multiClickAction s a bits
      | .held => heldAction s a bits
      | .heldRelease => heldReleaseAction s a bits := by
  unfold processEntry
  rw [if_pos hchanged]
  cases a.action <;> cases flag <;> rfl

/-- A `MULTI_CLICK` entry, whether or not another one was triggered before it. -/
theorem multiClick_same (s : State) (a : InputAction) (bits : InputEventBits) (flag : Bool) :
    SameButClicks s (if flag then s else multiClickAction s a bits) ∧
      (if flag then s else multiClickAction s a bits).inputEventBits = s.inputEventBits ∧
      (if flag then s else multiClickAction s a bits).sent = s.sent := by
  cases flag with
  | false => exact multiClickAction_same s a bits
  | true => exact ⟨⟨rfl, rfl, rfl, rfl⟩, rfl, rfl⟩

variable (flag) in
theorem Pressing.entry (h : Pressing done s₀ s) (ha : a ∈ T.entries)
    (hbefore : T.matched s₀.inputEventBits = false) (hafter : T.matched bits = true) :
    Pressing (done ++ [a]) s₀ (processEntry bits (s, flag) a).1 := by
  have hpress : actionIsPress bits a = true := (actionIsPress_eq ha).trans hafter
  have hrelease : actionIsRelease s a bits = false := by
    rw [actionIsRelease, hpress, Bool.not_true, Bool.and_false]
  have hchanged : hasChanged s a bits = true := by
    rw [hasChanged_eq ha, decide_eq_true_eq, h.inputEventBits]
    exact changed_of_matched (by rw [hbefore, hafter]; decide)
  have hsent : a.action ≠ .enter →
      s.sent = s₀.sent ++ (ofKind .enter (done ++ [a])).map Sent.direct := fun hne => by
    rw [ofKind_append_of_ne hne]
    exact h.sent
  rw [processEntry_of_changed hchanged]
  cases hk : a.action with
  | enter =>
    have hframe : (enterAction s a bits).now = s.now ∧
        (enterAction s a bits).inputEventBits = s.inputEventBits ∧
        (enterAction s a bits).heldRelease = s.heldRelease ∧
        (enterAction s a bits).sent = s.sent ++ [.direct a] := by
      unfold enterAction
      rw [if_pos hpress]
      dsimp only
      split_ifs <;> exact ⟨rfl, rfl, rfl, rfl⟩
    obtain ⟨hnow, hbits, hheld, hsent⟩ := hframe
    refine ⟨hnow.trans h.now, hbits.trans h.inputEventBits, ?_, ?_, hheld.trans h.heldRelease⟩
    · dsimp only
      rw [hsent, h.sent, ofKind_append_of_eq hk, map_append, append_assoc]
      rfl
    · dsimp only
      rw [hnow]
      exact h.pressed.enter hk hpress
  | release =>
    dsimp only
    rw [releaseAction, hrelease]
    exact ⟨h.now, h.inputEventBits, hsent (by simp [hk]),
      h.pressed.append (by simp [hk]) (by simp [hk]), h.heldRelease⟩
  | multiClick =>
    obtain ⟨hsame, hbits, hsent'⟩ := multiClick_same s a bits flag
    refine ⟨hsame.now.trans h.now, hbits.trans h.inputEventBits,
      hsent'.trans (hsent (by simp [hk])), ?_, hsame.heldRelease.trans h.heldRelease⟩
    dsimp only
    rw [hsame.now]
    exact hsame.pressed (h.pressed.append (by simp [hk]) (by simp [hk]))
  | held =>
    dsimp only
    rw [heldAction, if_pos hpress]
    exact ⟨h.now, h.inputEventBits, hsent (by simp [hk]), h.pressed.held_press hk, h.heldRelease⟩
  | heldRelease =>
    dsimp only
    rw [heldReleaseAction, if_pos hpress]
    exact ⟨h.now, h.inputEventBits, hsent (by simp [hk]),
      h.pressed.heldRelease_press h.heldRelease hk, rfl⟩

variable (flag) in
/-- **The pass that begins a press** sends the `ENTER` messages and starts the timers. -/
theorem pressing_foldl (hentries : ∀ a ∈ rest, a ∈ T.entries)
    (hbefore : T.matched s₀.inputEventBits = false) (hafter : T.matched bits = true)
    (h : Pressing done s₀ s) :
    Pressing (done ++ rest) s₀ (rest.foldl (processEntry bits) (s, flag)).1 := by
  induction rest generalizing done s flag with
  | nil => simpa using h
  | cons a rest ih =>
    have hentry := h.entry flag (hentries a mem_cons_self) hbefore hafter
    have := ih (processEntry bits (s, flag) a).2
      (fun b hb => hentries b (mem_cons_of_mem a hb)) hentry
    rwa [append_assoc] at this

end Press

/-! ## The pass that ends a press -/

section Release

variable {T : PatternTable} {bits : InputEventBits} {entries rest : List InputAction} {s : State}
  {flag : Bool} {a : InputAction} {start : ℕ} {expired : List InputAction}

theorem directs_append (kind : InputEventAction) (l l' : List Sent) :
    directs kind (l ++ l') = directs kind l ++ directs kind l' := filterMap_append

theorem repeats_append (l l' : List Sent) : repeats (l ++ l') = repeats l ++ repeats l' :=
  filterMap_append

theorem directs_direct (kind : InputEventAction) (a : InputAction) :
    directs kind [.direct a] = if a.action = kind then [a] else [] := by
  by_cases h : a.action = kind <;> simp [directs, Sent.direct?, h]

/-- What the entries of `rest` send when the press ends. -/
structure ReleaseSends (rest : List InputAction) (heldRelease : Option InputAction)
    (new : List Sent) : Prop where
  release : directs .release new = ofKind .release rest
  heldRelease : directs .heldRelease new = heldRelease.toList
  enter : directs .enter new = []
  quiet : directs .held new = [] ∧ repeats new = []

theorem any_isHeld : s.pending.any (·.timer.isHeld) = true ↔ s.heldPending ≠ [] := by
  have hheld : ∀ t : Timer, t.isHeld = true ↔ ∃ a, t.held? = some a := by
    rintro (_ | _ | _ | _) <;> simp [Timer.isHeld, Timer.held?]
  rw [List.any_eq_true, ← not_iff_not, not_not, State.heldPending, filterMap_eq_nil_iff]
  constructor
  · intro h m hm
    refine eq_none_iff_forall_ne_some.mpr fun a ha => h ⟨m, ?_, (hheld _).mpr ⟨a, ha⟩⟩
    exact mem_of_mem_filter hm
  · rintro h ⟨m, hm, ht⟩
    obtain ⟨a, ha⟩ := (hheld _).mp ht
    have hother : m ∈ s.others := by
      refine mem_filter.mpr ⟨hm, ?_⟩
      cases hk : m.timer <;> rw [hk] at ha <;> first | rfl | cases ha
    rw [h m hother] at ha
    cases ha

/-- Before the first entry. -/
theorem Pressed.releasing (h : Pressed entries start s expired) : Releasing entries s where
  held := fun hne hnil => by
    have := h.held
    rw [hnil, perm_nil, append_eq_nil_iff] at this
    exact hne this.2
  releases := fun m hm hk => by
    obtain ⟨a, ha⟩ : ∃ a, m.timer = .heldRelease a := by
      cases ht : m.timer <;> rw [ht] at hk <;> first | exact ⟨_, rfl⟩ | cases hk
    exact ne_nil_of_mem (h.releaseDue m hm a ha).1
  heldRelease := fun a ha => (h.heldRelease a ha).1
  repeats := fun m hm hk => by
    obtain ⟨a, ha, hperiod, hor⟩ := h.repeats m hm hk
    refine hor.symm.imp (fun hmem => ⟨a, hmem, hperiod, ha⟩) fun hne => ?_
    have hlen := h.held.length_eq
    rw [length_append] at hlen
    have := length_pos_iff.mpr hne
    split_ifs with hnil
    · omega
    · have := length_pos_iff.mpr hnil
      omega

theorem Idle.releasing (h : Idle s) : Releasing entries s where
  held := fun hne => absurd (by rw [State.heldPending, h.others]; rfl) hne
  releases := fun m hm => absurd hm (by simp [h.others])
  heldRelease := fun a ha => by simp [h.heldRelease] at ha
  repeats := fun m hm => absurd hm (by simp [h.others])

/-- Before the first entry of a press. -/
theorem Idle.pressed_nil (h : Idle s) : Pressed [] start s [] where
  due := fun m hm => absurd hm (by simp [h.others])
  held := by rw [nil_append, State.heldPending, h.others]; rfl
  lasted := fun a ha => absurd ha not_mem_nil
  releaseDue := fun m hm => absurd hm (by simp [h.others])
  releases := fun a ha => absurd ha not_mem_nil
  heldRelease := fun a ha => by simp [h.heldRelease] at ha
  repeats := fun m hm => absurd hm (by simp [h.others])

/-- Behind the last entry. -/
theorem Releasing.idle (h : Releasing [] s) : Idle s := by
  refine ⟨eq_nil_iff_forall_not_mem.mpr fun m hm => ?_, ?_⟩
  · have hnone : s.heldPending = [] := not_not.mp fun hne => h.held hne rfl
    cases ht : m.timer with
    | held a =>
      refine not_mem_nil (a := a) ?_
      rw [← hnone]
      exact mem_filterMap.mpr ⟨m, hm, by rw [ht]; rfl⟩
    | «repeat» =>
      rcases h.repeats m hm ht with ⟨a, ha, -⟩ | hle
      · cases ha
      · rw [if_pos hnone] at hle
        cases hle
    | heldRelease a => exact h.releases m hm (by rw [ht]; rfl) rfl
    | multiClick a =>
      have := (mem_filter.mp hm).2
      rw [ht] at this
      cases this
  · exact eq_none_iff_forall_ne_some.mpr fun a ha => by cases h.heldRelease a ha

section

variable (h : Releasing (a :: rest) s)
include h

/-- An entry that does nothing for the press. -/
theorem Releasing.tail (hheld : a.action ≠ .held) (hrelease : a.action ≠ .heldRelease)
    (henter : a.action = .enter → a.repeatPeriod = 0 ∨ s.repeatAction ≠ some a) :
    Releasing rest s where
  held := by rw [← ofKind_cons_of_ne hheld]; exact h.held
  releases := by rw [← ofKind_cons_of_ne hrelease]; exact h.releases
  heldRelease := by rw [← ofKind_cons_of_ne hrelease]; exact h.heldRelease
  repeats := fun m hm hk => by
    rw [← ofKind_cons_of_ne hheld]
    refine (h.repeats m hm hk).imp (fun ⟨b, hb, hperiod, hb'⟩ => ⟨b, ?_, hperiod, hb'⟩) id
    by_cases hk : a.action = .enter
    · rw [ofKind_cons_of_eq hk] at hb
      refine (mem_cons.mp hb).resolve_left ?_
      rintro rfl
      exact (henter hk).elim hperiod fun hne => hne hb'
    · rwa [ofKind_cons_of_ne hk] at hb

/-- An entry that cancels the repeat. -/
theorem Releasing.cancelRepeat (r : Option InputAction) (hrelease : a.action ≠ .heldRelease)
    (hheld : s.heldPending ≠ [] → ofKind .held rest ≠ []) :
    Releasing rest { s.cancelAll Timer.isRepeat with repeatAction := r } where
  held := by
    have hpending : State.heldPending { s.cancelAll Timer.isRepeat with repeatAction := r } =
        s.heldPending := heldPending_cancelAll fun _ => rfl
    rwa [hpending]
  releases := by
    rw [← ofKind_cons_of_ne hrelease]
    exact fun m hm => h.releases m (mem_others_cancelAll.mp hm).1
  heldRelease := by
    rw [← ofKind_cons_of_ne hrelease]
    exact h.heldRelease
  repeats := fun m hm hk => by
    have := (mem_others_cancelAll.mp hm).2
    rw [hk] at this
    cases this

/-- The release of an `ENTER` entry. -/
theorem Releasing.enter (ha : a.action = .enter) (hpress : actionIsPress bits a = false)
    (hrelease : actionIsRelease s a bits = true) :
    Releasing rest (enterAction s a bits) := by
  unfold enterAction
  rw [if_neg (by simp [hpress])]
  split
  case isFalse hcond =>
    refine h.tail (by simp [ha]) (by simp [ha]) fun _ => ?_
    by_contra hor
    exact hcond ⟨fun hz => hor (.inl hz), not_not.mp fun hne => hor (.inr hne), hrelease⟩
  case isTrue hcond =>
    refine h.cancelRepeat none (by simp [ha]) ?_
    rw [← ofKind_cons_of_ne (a := a) (by simp [ha])]
    exact h.held

/-- The release of a `HELD` entry. -/
theorem Releasing.held_release (ha : a.action = .held) :
    Releasing rest (heldActionButtonReleaseAction s) := by
  have hne : a.action ≠ .heldRelease := by simp [ha]
  unfold heldActionButtonReleaseAction
  split
  case isTrue hany =>
    have hnil := heldPending_cancelAll_isHeld (s := s)
    constructor
    case held => exact fun hheld => absurd hnil hheld
    case releases =>
      rw [← ofKind_cons_of_ne hne]
      exact fun m hm => h.releases m (mem_others_cancelAll.mp hm).1
    case heldRelease =>
      rw [← ofKind_cons_of_ne hne]
      exact h.heldRelease
    case repeats =>
      intro m hm hk
      rw [if_pos hnil]
      refine (h.repeats m (mem_others_cancelAll.mp hm).1 hk).imp ?_ fun hle => ?_
      · rw [ofKind_cons_of_ne (by simp [ha])]
        exact id
      · rw [if_neg (any_isHeld.mp hany), ofKind_cons_of_eq ha, length_cons] at hle
        omega
  case isFalse hany =>
    have hnil : s.heldPending = [] := not_not.mp fun hne => hany (any_isHeld.mpr hne)
    exact h.cancelRepeat s.repeatAction hne fun hp => absurd hnil hp

/-- The release of a `HELD_RELEASE` entry, up to the message. -/
theorem Releasing.heldRelease_release (ha : a.action = .heldRelease) (r : Option InputAction)
    (hr : ∀ b ∈ r, b ∈ s.heldRelease ∧ b ≠ a) :
    Releasing rest { s.cancelAll Timer.isHeldRelease with heldRelease := r } := by
  have hpending : State.heldPending { s.cancelAll Timer.isHeldRelease with heldRelease := r } =
      s.heldPending := heldPending_cancelAll fun _ => rfl
  have hheld : ofKind .held (a :: rest) = ofKind .held rest := ofKind_cons_of_ne (by simp [ha])
  have henter : ofKind .enter (a :: rest) = ofKind .enter rest := ofKind_cons_of_ne (by simp [ha])
  constructor
  case held =>
    rw [hpending, ← hheld]
    exact h.held
  case releases =>
    intro m hm hk
    rw [(mem_others_cancelAll.mp hm).2] at hk
    cases hk
  case heldRelease =>
    intro b hb
    obtain ⟨hb, hne⟩ := hr b hb
    have := h.heldRelease b hb
    rw [ofKind_cons_of_eq ha] at this
    exact (mem_cons.mp this).resolve_left hne
  case repeats =>
    rw [hpending, ← hheld, ← henter]
    exact fun m hm => h.repeats m (mem_others_cancelAll.mp hm).1

end

variable (flag) in
/-- What an entry sends when the press ends. -/
theorem Releasing.entry (h : Releasing (a :: rest) s) (ha : a ∈ T.entries)
    (hbefore : T.matched s.inputEventBits = true) (hafter : T.matched bits = false) :
    ∃ s' new, (processEntry bits (s, flag) a).1 = s' ∧ Releasing rest s' ∧ s'.now = s.now ∧
      s'.inputEventBits = s.inputEventBits ∧ s'.sent = s.sent ++ new ∧
      ∀ later, ReleaseSends rest s'.heldRelease later →
        ReleaseSends (a :: rest) s.heldRelease (new ++ later) := by
  have hpress : actionIsPress bits a = false := (actionIsPress_eq ha).trans hafter
  have hrelease : actionIsRelease s a bits = true := by
    rw [actionIsRelease_eq ha, hbefore, hafter]
    rfl
  have hchanged : hasChanged s a bits = true := by
    rw [hasChanged_eq ha, decide_eq_true_eq]
    exact changed_of_matched (by rw [hbefore, hafter]; decide)
  -- An entry that sends nothing leaves the rest to send what there is to send.
  have hnothing : a.action ≠ .release → ∀ later, ReleaseSends rest s.heldRelease later →
      ReleaseSends (a :: rest) s.heldRelease ([] ++ later) := fun hne later hl =>
    ⟨hl.release.trans (ofKind_cons_of_ne hne).symm, hl.heldRelease, hl.enter, hl.quiet⟩
  rw [processEntry_of_changed hchanged]
  cases hk : a.action with
  | enter =>
    have hframe : (enterAction s a bits).now = s.now ∧
        (enterAction s a bits).inputEventBits = s.inputEventBits ∧
        (enterAction s a bits).heldRelease = s.heldRelease ∧
        (enterAction s a bits).sent = s.sent := by
      unfold enterAction
      rw [if_neg (by simp [hpress])]
      split <;> exact ⟨rfl, rfl, rfl, rfl⟩
    obtain ⟨hnow, hbits, hheld, hsent⟩ := hframe
    refine ⟨_, [], rfl, h.enter hk hpress hrelease, hnow, hbits, ?_, ?_⟩
    · rw [hsent, append_nil]
    · rw [hheld]
      exact hnothing (by simp [hk])
  | release =>
    refine ⟨_, [.direct a], rfl, ?_⟩
    dsimp only
    rw [releaseAction, if_pos hrelease]
    refine ⟨?_, rfl, rfl, rfl, fun later hl => ?_⟩
    · exact (sameButClicks_send s _).releasing
        (h.tail (by simp [hk]) (by simp [hk]) (by simp [hk]))
    · constructor
      case release =>
        rw [directs_append, directs_direct, hk, hl.release, ofKind_cons_of_eq hk]
        rfl
      case heldRelease => rw [directs_append, directs_direct, hk, hl.heldRelease]; rfl
      case enter => rw [directs_append, directs_direct, hk, hl.enter]; rfl
      case quiet =>
        rw [directs_append, directs_direct, hk, hl.quiet.1, repeats_append, hl.quiet.2]
        exact ⟨rfl, rfl⟩
  | multiClick =>
    obtain ⟨hsame, hbits, hsent⟩ := multiClick_same s a bits flag
    refine ⟨_, [], rfl, ?_, hsame.now, hbits, ?_, ?_⟩
    · exact hsame.releasing (h.tail (by simp [hk]) (by simp [hk]) (by simp [hk]))
    · rw [hsent, append_nil]
    · rw [hsame.heldRelease]
      exact hnothing (by simp [hk])
  | held =>
    refine ⟨heldActionButtonReleaseAction s, [], ?_, h.held_release hk, ?_⟩
    · dsimp only
      rw [heldAction, if_neg (by simp [hpress]), if_pos hrelease]
    · unfold heldActionButtonReleaseAction
      split <;> exact ⟨rfl, rfl, (append_nil _).symm, hnothing (by simp [hk])⟩
  | heldRelease =>
    dsimp only
    rw [heldReleaseAction, if_neg (by simp [hpress]), if_pos hrelease]
    unfold heldReleaseButtonReleaseAction
    dsimp only
    by_cases heq : (s.cancelAll Timer.isHeldRelease).heldRelease = some a
    · rw [if_pos heq]
      change s.heldRelease = some a at heq
      refine ⟨_, [.direct a], rfl, ?_, rfl, rfl, rfl, fun later hl => ?_⟩
      · exact (sameButClicks_send _ _).releasing
          (h.heldRelease_release hk none fun b hb => absurd hb (not_mem_none b))
      · constructor
        case release =>
          rw [directs_append, directs_direct, hk, hl.release, ofKind_cons_of_ne (by simp [hk])]
          rfl
        case heldRelease => rw [directs_append, directs_direct, hk, hl.heldRelease, heq]; rfl
        case enter => rw [directs_append, directs_direct, hk, hl.enter]; rfl
        case quiet =>
          rw [directs_append, directs_direct, hk, hl.quiet.1, repeats_append, hl.quiet.2]
          exact ⟨rfl, rfl⟩
    · rw [if_neg heq]
      refine ⟨_, [], rfl, ?_, rfl, rfl, (append_nil _).symm, hnothing (by simp [hk])⟩
      refine h.heldRelease_release hk s.heldRelease fun b hb => ⟨hb, ?_⟩
      rintro rfl
      exact heq hb

variable (flag) in
/-- **The pass that ends a press** sends the `RELEASE` messages and the `HELD_RELEASE` message that
waits, and leaves nothing behind. -/
theorem releasing_foldl (hentries : ∀ a ∈ rest, a ∈ T.entries)
    (hbefore : T.matched s.inputEventBits = true) (hafter : T.matched bits = false)
    (h : Releasing rest s) :
    ∃ new, (rest.foldl (processEntry bits) (s, flag)).1.sent = s.sent ++ new ∧
      ReleaseSends rest s.heldRelease new ∧ Idle (rest.foldl (processEntry bits) (s, flag)).1 := by
  induction rest generalizing s flag with
  | nil =>
    have hidle := h.idle
    refine ⟨[], (append_nil _).symm, ⟨rfl, ?_, rfl, rfl, rfl⟩, hidle⟩
    rw [hidle.heldRelease]
    rfl
  | cons a rest ih =>
    obtain ⟨s', new, hs', hrest, -, hbits, hsent, hsends⟩ :=
      h.entry flag (hentries a mem_cons_self) hbefore hafter
    subst hs'
    obtain ⟨later, hsent', hlater, hidle⟩ := ih (processEntry bits (s, flag) a).2
      (fun b hb => hentries b (mem_cons_of_mem a hb)) (hbits ▸ hbefore) hrest
    refine ⟨new ++ later, ?_, hsends later hlater, hidle⟩
    rw [foldl_cons, hsent', hsent, append_assoc]

end Release

end Mh40.InputEventManager.Timed
