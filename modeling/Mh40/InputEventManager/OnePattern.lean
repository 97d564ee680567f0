import Mh40.InputEventManager.Passes

/-!
# One pattern in time

The runs of a table whose entries all watch one pattern.

* `right_change`, `right_timer`: an event sends what it must, from a state of the phase that the
  manager is in, and leads to such a state.
* `timers_run_out`: at no time do the timers run for ever.
* `right_of_one_pattern`: every run is right.
-/

namespace Mh40.InputEventManager.Timed

open Lib List Option

/-! ## The timers of a press -/

section Timers

variable {T : PatternTable} {entries : List InputAction} {start : ℕ} {s s₁ : State}
  {expired : List InputAction} {a : InputAction} {m : Pending} {time : ℕ}

theorem Pressed.later (hp : Pressed entries start s expired) (hnow : s.now ≤ time) :
    Pressed entries start { s with now := time } expired where
  due := hp.due
  held := hp.held
  lasted := fun a ha => (hp.lasted a ha).trans hnow
  releaseDue := hp.releaseDue
  releases := hp.releases
  heldRelease := fun a ha => ⟨(hp.heldRelease a ha).1, (hp.heldRelease a ha).2.trans hnow⟩
  repeats := hp.repeats

/-- A timer is up. The timeout of an entry that waits for the release from now on is the longest
that has expired. -/
theorem Pressed.expires (hp : Pressed entries start s expired)
    (hothers : s.others = m :: s₁.others) (hnow : s.now ≤ m.due) (hdue : s₁.now = m.due)
    (hrelease : s₁.heldRelease = m.timer.heldRelease?.or s.heldRelease)
    (hrepeat : s₁.repeatAction = s.repeatAction) :
    Pressed entries start s₁ (expired ++ m.timer.held?.toList) := by
  have hm : m ∈ s.others := by simp [hothers]
  have htail : ∀ {p}, p ∈ s₁.others → p ∈ s.others := fun hp => by
    rw [hothers]
    exact mem_cons_of_mem m hp
  constructor
  case due => exact fun p hp' => hp.due p (htail hp')
  case held =>
    have hpending : s.heldPending = m.timer.held?.toList ++ s₁.heldPending := by
      rw [State.heldPending, hothers, filterMap_cons]
      cases m.timer.held? <;> rfl
    rw [append_assoc, ← hpending]
    exact hp.held
  case lasted =>
    intro b hb
    rw [hdue]
    rcases mem_append.mp hb with hb | hb
    · exact (hp.lasted b hb).trans hnow
    · have ht : m.timer = .held b := Timer.held?_eq_some.mp (mem_toList.mp hb)
      exact (hp.due m hm b ht).ge
  case releaseDue => exact fun p hp' => hp.releaseDue p (htail hp')
  case releases =>
    intro b hb
    rw [hrelease]
    rcases hp.releases b hb with hmem | ⟨c, hc, hle⟩
    · rw [hothers] at hmem
      refine (mem_cons.mp hmem).symm.imp id ?_
      rintro rfl
      exact ⟨b, rfl, Nat.le_refl _⟩
    · right
      cases ht : m.timer.heldRelease? with
      | none => exact ⟨c, hc, hle⟩
      | some a =>
        have hadue := (hp.releaseDue m hm a (Timer.heldRelease?_eq_some.mp ht)).2
        have hcnow := (hp.heldRelease c hc).2
        exact ⟨a, rfl, by omega⟩
  case heldRelease =>
    intro b hb
    rw [hrelease] at hb
    cases ht : m.timer.heldRelease? with
    | none =>
      rw [ht] at hb
      exact ⟨(hp.heldRelease b hb).1, (hp.heldRelease b hb).2.trans (hdue ▸ hnow)⟩
    | some a =>
      rw [ht] at hb
      obtain rfl := some.inj hb
      obtain ⟨ha, hadue⟩ := hp.releaseDue m hm a (Timer.heldRelease?_eq_some.mp ht)
      exact ⟨ha, by omega⟩
  case repeats =>
    rw [hrepeat]
    intro p hp' ht
    obtain ⟨b, hb, hperiod, hor⟩ := hp.repeats p (htail hp') ht
    exact ⟨b, hb, hperiod, hor.imp (fun hne => by simp [hne]) id⟩

theorem mem_heldPending : a ∈ s.heldPending ↔ ∃ m ∈ s.others, m.timer = .held a := by
  simp only [State.heldPending, mem_filterMap, Timer.held?_eq_some]

/-- When no timer is due, the `HELD` messages of the press are those that it has lasted. -/
theorem Pressed.held_lasted (hp : Pressed entries start s expired) (hnow : s.now ≤ time)
    (hdue : ∀ m ∈ s.pending, time < m.due) :
    expired.Perm ((ofKind .held entries).filter fun a => start + a.timeout ≤ time) := by
  refine List.Perm.trans (.of_eq ?_) (hp.held.filter _)
  rw [filter_append, filter_eq_self.mpr, filter_eq_nil_iff.mpr, append_nil]
  · intro a ha
    obtain ⟨m, hm, ht⟩ := mem_heldPending.mp ha
    have := hdue m (mem_of_mem_filter hm)
    rw [hp.due m hm a ht] at this
    simpa using this
  · exact fun a ha => decide_eq_true ((hp.lasted a ha).trans hnow)

/-- When no timer is due, the entry that waits for the release was the last to expire. -/
theorem Pressed.lastToExpire (hp : Pressed entries start s expired) (hnow : s.now ≤ time)
    (hdue : ∀ m ∈ s.pending, time < m.due) :
    LastToExpire ((ofKind .heldRelease entries).filter fun a => start + a.timeout ≤ time)
      s.heldRelease.toList := by
  have hstored : ∀ a ∈ (ofKind .heldRelease entries).filter fun a => start + a.timeout ≤ time,
      ∃ b ∈ s.heldRelease, a.timeout ≤ b.timeout := by
    intro a ha
    obtain ⟨ha, hle⟩ := mem_filter.mp ha
    refine (hp.releases a ha).resolve_left fun hmem => ?_
    exact Nat.not_lt.mpr (of_decide_eq_true hle) (hdue _ (mem_of_mem_filter hmem))
  cases hr : s.heldRelease with
  | none =>
    refine .inl ⟨eq_nil_iff_forall_not_mem.mpr fun a ha => ?_, rfl⟩
    obtain ⟨b, hb, -⟩ := hstored a ha
    rw [hr] at hb
    cases hb
  | some b =>
    obtain ⟨hb, hle⟩ := hp.heldRelease b hr
    refine .inr ⟨b, mem_filter.mpr ⟨hb, decide_eq_true (hle.trans hnow)⟩, rfl, fun a ha => ?_⟩
    obtain ⟨c, hc, hac⟩ := hstored a ha
    rw [hr] at hc
    obtain rfl := some.inj hc
    exact hac

end Timers

/-! ## The changes of the inputs -/

section Changes

variable {T : PatternTable} {w : World} {s s' : State} {new : List Sent} {time : ℕ}
  {bits : InputEventBits} {a : InputAction} {flag : Bool}

theorem directs_map (kind : InputEventAction) (l : List InputAction) :
    directs kind (l.map .direct) = ofKind kind l := by
  induction l with
  | nil => rfl
  | cons a l ih =>
    rw [map_cons, ← singleton_append, directs_append, directs_direct, ih]
    by_cases h : a.action = kind <;> simp [ofKind, h]

theorem repeats_map (l : List InputAction) : repeats (l.map .direct) = [] := by
  rw [repeats, filterMap_map]
  exact filterMap_eq_nil_iff.mpr fun _ _ => rfl

theorem ofKind_ofKind_of_ne {kind kind' : InputEventAction} (h : kind ≠ kind')
    (l : List InputAction) : ofKind kind (ofKind kind' l) = [] := by
  refine filter_eq_nil_iff.mpr fun a ha hk => ?_
  have := of_decide_eq_true (mem_filter.mp ha).2
  exact h ((of_decide_eq_true hk).symm.trans this)

theorem ofKind_ofKind (kind : InputEventAction) (l : List InputAction) :
    ofKind kind (ofKind kind l) = ofKind kind l := by
  rw [ofKind, ofKind, List.filter_filter]
  simp

/-- The `HELD` messages of a press, at a time at which no timer is due. -/
theorem InPhase.held (h : InPhase T w) (hnow : w.state.now ≤ time)
    (hdue : ∀ m ∈ w.state.pending, time < m.due) :
    ∀ p ∈ w.press, (directs .held p.sent).Perm (lasted T .held w.press time) := by
  intro p hp
  rw [mem_def.mp hp]
  exact (h.pressed p hp).2.held_lasted hnow hdue

/-- The entry that waits for the release, at a time at which no timer is due. -/
theorem InPhase.lastToExpire (h : InPhase T w) (hnow : w.state.now ≤ time)
    (hdue : ∀ m ∈ w.state.pending, time < m.due) :
    LastToExpire (lasted T .heldRelease w.press time) w.state.heldRelease.toList := by
  cases hp : w.press with
  | none =>
    rw [(h.idle hp).heldRelease]
    exact .inl ⟨rfl, rfl⟩
  | some p => exact (h.pressed p hp).2.lastToExpire hnow hdue

variable (flag) in
/-- A change that neither begins nor ends a press does nothing. -/
theorem processEntry_same (ha : a ∈ T.entries)
    (hsame : T.matched s.inputEventBits = T.matched bits) :
    (processEntry bits (s, flag) a).1 = s := by
  by_cases hchanged : hasChanged s a bits = true
  · have hafter : T.matched bits = false := by
      refine Bool.eq_false_iff.mpr fun hafter => ?_
      have hbefore := of_decide_eq_true (hsame.trans hafter)
      rw [hasChanged_eq ha, decide_eq_true_eq, ← hbefore, ← of_decide_eq_true hafter] at hchanged
      exact hchanged rfl
    have hpress : actionIsPress bits a = false := (actionIsPress_eq ha).trans hafter
    have hrelease : actionIsRelease s a bits = false := by
      rw [actionIsRelease_eq ha, hsame, hafter]
      rfl
    rw [processEntry_of_changed hchanged]
    cases a.action <;> cases flag <;>
      simp [enterAction, releaseAction, heldAction, heldReleaseAction, multiClickAction, hpress,
        hrelease]
  · rw [processEntry, if_neg hchanged]

theorem foldl_processEntry_same {rest : List InputAction} (hentries : ∀ a ∈ rest, a ∈ T.entries)
    (hsame : T.matched s.inputEventBits = T.matched bits) :
    (rest.foldl (processEntry bits) (s, flag)).1 = s := by
  induction rest generalizing flag with
  | nil => rfl
  | cons a rest ih =>
    have hentry := processEntry_same flag (hentries a mem_cons_self) hsame
    have hpair : processEntry bits (s, flag) a = (s, (processEntry bits (s, flag) a).2) :=
      Prod.ext hentry rfl
    rw [foldl_cons, hpair]
    exact ih fun b hb => hentries b (mem_cons_of_mem a hb)

theorem InPhase.later (h : InPhase T w) (hnow : w.state.now ≤ time) :
    InPhase T ⟨{ w.state with now := time }, w.inputs, w.press⟩ where
  inputs := h.inputs
  idle := fun hp => ⟨(h.idle hp).others, (h.idle hp).heldRelease⟩
  pressed := fun p hp => ⟨(h.pressed p hp).1, (h.pressed p hp).2.later hnow⟩

theorem InPhase.press_eq_none (h : InPhase T w) (hbefore : T.matched w.inputs = false) :
    w.press = none :=
  eq_none_iff_forall_ne_some.mpr fun p hp => by
    rw [(h.pressed p hp).1] at hbefore
    cases hbefore

/-- A change that neither begins nor ends a press. -/
theorem right_change_same (h : InPhase T w)
    (hheld : ∀ p ∈ w.press, (directs .held p.sent).Perm (lasted T .held w.press time))
    (hsent : s'.sent = w.state.sent) (hsame : T.matched w.inputs = T.matched bits)
    (hs : InPhase T ⟨s', bits, w.press⟩) :
    RightChange T w time bits s' ∧
      InPhase T ⟨s', bits, nextPress T w s' (.inputEvents time bits)⟩ := by
  have hnew : newlySent w.state s' = [] := newlySent_eq (by rw [hsent, append_nil])
  have hnext : nextPress T w s' (.inputEvents time bits) = w.press := by
    rw [nextPress, hsame, hnew]
    cases hafter : T.matched bits with
    | false => exact (h.press_eq_none (hsame.trans hafter)).symm
    | true => cases w.press <;> simp
  refine ⟨⟨?_, ?_, ?_, ?_, hheld⟩, hnext ▸ hs⟩
  · simp [hnew, hsame, directs]
  · simp [hnew, hsame, directs]
  · simp [hnew, hsame, directs]
  · simp [hnew, directs, repeats]

/-- A change that begins a press. -/
theorem right_change_press (h : InPhase T ⟨s, w.inputs, w.press⟩) (hs : s.sent = w.state.sent)
    (hclocked : Clocked time s.pending) (hnow : s.now = time)
    (hs' : s' = inputEventsChanged T.entries s bits)
    (hheld : ∀ p ∈ w.press, (directs .held p.sent).Perm (lasted T .held w.press time))
    (hbefore : T.matched w.inputs = false) (hafter : T.matched bits = true) :
    RightChange T w time bits s' ∧
      InPhase T ⟨s', bits, nextPress T w s' (.inputEvents time bits)⟩ := by
  have hidle : Idle s := h.idle (h.press_eq_none hbefore)
  have hstored : T.matched s.inputEventBits = false := h.inputs ▸ hbefore
  have hpass := pressing_foldl false (fun a (ha : a ∈ T.entries) => ha) hstored hafter
    ⟨rfl, rfl, (append_nil _).symm, hidle.pressed_nil, hidle.heldRelease⟩
  rw [nil_append] at hpass
  have hnew : newlySent w.state s' = (ofKind .enter T.entries).map .direct := by
    refine newlySent_eq ?_
    rw [hs', ← hs]
    exact hpass.sent
  refine ⟨⟨?_, ?_, ?_, ?_, hheld⟩, by rw [hs']; rfl, fun hp => ?_, fun p hp => ?_⟩
  · simp [hnew, hbefore, hafter, directs_map, ofKind_ofKind]
  · simp [hnew, hbefore, directs_map, ofKind_ofKind_of_ne]
  · simp [hnew, hbefore, directs_map, ofKind_ofKind_of_ne]
  · simp [hnew, directs_map, ofKind_ofKind_of_ne, repeats_map]
  · simp [nextPress, hafter, hbefore] at hp
  · simp only [nextPress, hafter, hbefore, hnew, if_true, Bool.false_eq_true, if_false,
      mem_def, some.injEq] at hp
    subst hp
    refine ⟨hafter, ?_⟩
    rw [directs_map, ofKind_ofKind_of_ne (by decide), hs', ← hnow,
      ← (foldl_processEntry_clocked bits T.entries (s, false) (hnow ▸ hclocked)).1]
    refine SameButClicks.pressed ?_ hpass.pressed
    exact ⟨rfl, rfl, rfl, rfl⟩

/-- A change that ends a press, or the match that there was at first. -/
theorem right_change_release (h : InPhase T ⟨s, w.inputs, w.press⟩) (hs : s.sent = w.state.sent)
    (hs' : s' = inputEventsChanged T.entries s bits)
    (hheld : ∀ p ∈ w.press, (directs .held p.sent).Perm (lasted T .held w.press time))
    (hlast : LastToExpire (lasted T .heldRelease w.press time) s.heldRelease.toList)
    (hbefore : T.matched w.inputs = true) (hafter : T.matched bits = false) :
    RightChange T w time bits s' ∧
      InPhase T ⟨s', bits, nextPress T w s' (.inputEvents time bits)⟩ := by
  have hreleasing : Releasing T.entries s := by
    cases hp : w.press with
    | none => exact (h.idle hp).releasing
    | some p => exact (h.pressed p hp).2.releasing
  have hstored : T.matched s.inputEventBits = true := h.inputs ▸ hbefore
  obtain ⟨new, hsent, hsends, hidle⟩ := releasing_foldl false (fun _ ha => ha) hstored
    hafter hreleasing
  have hnew : newlySent w.state s' = new := by
    refine newlySent_eq ?_
    rw [hs', ← hs]
    exact hsent
  refine ⟨⟨?_, ?_, ?_, ?_, hheld⟩, by rw [hs']; rfl, fun _ => ?_, fun p hp => ?_⟩
  · simp [hnew, hbefore, hsends.enter]
  · simp [hnew, hbefore, hafter, hsends.release]
  · rw [hnew, hbefore, hafter, hsends.heldRelease]
    exact hlast
  · rw [hnew]
    exact hsends.quiet
  · rw [hs']
    exact ⟨hidle.others, hidle.heldRelease⟩
  · simp [nextPress, hafter] at hp

/-- **A change of the inputs** sends what it must, and begins or ends a press. -/
theorem right_change (h : InPhase T w) (hclocked : Clocked w.state.now w.state.pending)
    (hnow : w.state.now ≤ time) (hdue : ∀ m ∈ w.state.pending, time < m.due)
    (hs' : s' = inputEventsChanged T.entries { w.state with now := time } bits) :
    RightChange T w time bits s' ∧
      InPhase T ⟨s', bits, nextPress T w s' (.inputEvents time bits)⟩ := by
  have hheld := h.held hnow hdue
  have hlast := h.lastToExpire hnow hdue
  by_cases hsame : T.matched w.inputs = T.matched bits
  · have hs : s' = { w.state with now := time, inputEventBits := bits } := by
      rw [hs', inputEventsChanged,
        foldl_processEntry_same (s := { w.state with now := time }) (fun _ ha => ha)
          (h.inputs ▸ hsame)]
    refine right_change_same h hheld (by rw [hs]) hsame
      ⟨by rw [hs], fun hp => ?_, fun p hp => ?_⟩
    · rw [hs]
      exact ⟨(h.idle hp).others, (h.idle hp).heldRelease⟩
    · rw [hs]
      refine ⟨hsame ▸ (h.pressed p hp).1, ?_⟩
      refine SameButClicks.pressed ?_ ((h.pressed p hp).2.later hnow)
      exact ⟨rfl, rfl, rfl, rfl⟩
  · cases hbefore : T.matched w.inputs with
    | false =>
      have hafter := Bool.eq_true_of_not_eq_false fun ha => hsame (hbefore.trans ha.symm)
      exact right_change_press (h.later hnow) rfl
        ⟨hclocked.inOrder, fun m hm => (hdue m hm).le⟩ rfl hs' hheld hbefore hafter
    | true =>
      have hafter := Bool.eq_false_of_not_eq_true fun ha => hsame (hbefore.trans ha.symm)
      exact right_change_release (h.later hnow) rfl hs' hheld hlast hbefore hafter

end Changes

/-! ## The timers -/

section Expiries

variable {T : PatternTable} {w : World} {s s' : State} {m : Pending} {rest : List Pending}
  {new : List Sent}

theorem others_cons (hpending : s.pending = m :: rest) (hm : m.timer.isMultiClick = false)
    (now : ℕ) : s.others = m :: State.others { s with now := now, pending := rest } := by
  rw [State.others, hpending, filter_cons_of_pos (by simp [hm])]
  rfl

/-- What the message of a timer sends. -/
structure TimerSends (timer : Timer) (new : List Sent) : Prop where
  held : directs .held new = timer.held?.toList
  noChange : directs .enter new = [] ∧ directs .release new = [] ∧ directs .heldRelease new = []
  repeats : timer ≠ .repeat → repeats new = []

theorem timerSends_nil {timer : Timer} (h : timer.held? = none) : TimerSends timer [] :=
  ⟨by rw [h]; rfl, ⟨rfl, rfl, rfl⟩, fun _ => rfl⟩

theorem timerExpired_sends (table : List InputAction) (s : State) (timer : Timer)
    (hheld : ∀ a, timer = .held a → a.action = .held) :
    ∃ new, (timerExpired table s timer).sent = s.sent ++ new ∧ TimerSends timer new := by
  cases timer with
  | held a =>
    have ha := hheld a rfl
    refine ⟨[.direct a], ?_, ?_, ?_, fun _ => rfl⟩
    · unfold timerExpired handleHeldTimer
      dsimp only
      split_ifs <;> rfl
    · rw [directs_direct, ha]
      rfl
    · simp only [directs_direct, ha]
      exact ⟨rfl, rfl, rfl⟩
  | «repeat» =>
    unfold timerExpired handleRepeatTimer
    dsimp only
    split
    · exact ⟨[.repeated _], rfl, rfl, ⟨rfl, rfl, rfl⟩, fun hne => absurd rfl hne⟩
    · exact ⟨[], (append_nil _).symm, timerSends_nil rfl⟩
  | heldRelease a => exact ⟨[], (append_nil _).symm, timerSends_nil rfl⟩
  | multiClick a =>
    unfold timerExpired handleMultiClickTimer
    dsimp only
    split_ifs
    · exact ⟨[], (append_nil _).symm, timerSends_nil rfl⟩
    · rw [foldl_send_eq]
      refine ⟨_, rfl, ?_⟩
      have hnone : ∀ kind, kind ≠ .multiClick →
          ofKind kind (table.filter (isClicked s.multiClick.nClicks a)) = [] := by
        intro kind hne
        refine filter_eq_nil_iff.mpr fun b hb hk => hne ?_
        have hclicked := of_decide_eq_true (mem_filter.mp hb).2
        exact (of_decide_eq_true hk).symm.trans hclicked.1
      constructor
      case held => rw [directs_map, hnone _ (by decide)]; rfl
      case noChange =>
        rw [directs_map, directs_map, directs_map]
        exact ⟨hnone _ (by decide), hnone _ (by decide), hnone _ (by decide)⟩
      case repeats => exact fun _ => repeats_map _

/-- A timer in a press. -/
theorem Pressed.timer {entries table : List InputAction} {start : ℕ} {expired : List InputAction}
    (hp : Pressed entries start s expired) (hpending : s.pending = m :: rest)
    (hnow : s.now ≤ m.due) :
    Pressed entries start
      (timerExpired table { s with now := m.due, pending := rest } m.timer)
      (expired ++ m.timer.held?.toList) := by
  cases ht : m.timer with
  | held a =>
    have hexp := hp.expires (others_cons hpending (by rw [ht]; rfl) m.due) hnow rfl
      (by rw [ht]; rfl) rfl
    rw [ht] at hexp
    have hcancel := ((sameButClicks_send _ (.direct a)).pressed
      ((sameButClicks_multiClickEnd _).pressed hexp)).cancelRepeat
    unfold timerExpired handleHeldTimer
    dsimp only
    split_ifs with hperiod
    · refine SameButClicks.pressed ?_
        ((hcancel (some a)).startRepeat a.repeatPeriod ⟨a, rfl, hperiod, .inl ?_⟩)
      · exact ⟨rfl, rfl, rfl, rfl⟩
      · simp [Timer.held?]
    · exact hcancel s.repeatAction
  | «repeat» =>
    have hothers := others_cons hpending (by rw [ht]; rfl) m.due
    have hexp := hp.expires hothers hnow rfl (by rw [ht]; rfl) rfl
    rw [ht] at hexp
    unfold timerExpired handleRepeatTimer
    dsimp only
    split
    · refine ((sameButClicks_send _ _).pressed hexp).startRepeat _ ?_
      obtain ⟨b, hb, hperiod, hor⟩ := hp.repeats m (by simp [hothers]) ht
      exact ⟨b, hb, hperiod, hor.imp (fun hne => by simp [hne]) id⟩
    · exact hexp
  | heldRelease a =>
    have hexp : Pressed entries start
        { s with now := m.due, pending := rest, heldRelease := some a }
        (expired ++ m.timer.held?.toList) :=
      hp.expires (others_cons hpending (by rw [ht]; rfl) m.due) hnow rfl (by rw [ht]; rfl) rfl
    rw [ht] at hexp
    exact (sameButClicks_multiClickEnd _).pressed hexp
  | multiClick a =>
    have hothers : State.others { s with now := m.due, pending := rest } = s.others := by
      rw [State.others, State.others, hpending,
        filter_cons_of_neg (by simp [ht, Timer.isMultiClick])]
    refine (handleMultiClickTimer_same table _ a).pressed ?_
    rw [show (Timer.multiClick a).held?.toList = [] from rfl, append_nil]
    refine SameButClicks.pressed ?_ (hp.later hnow)
    exact ⟨rfl, rfl, rfl, hothers⟩

/-- **A timer** sends the message of a `HELD` entry on time, and repeats only in a press. -/
theorem right_timer (h : InPhase T w) (hclocked : Clocked w.state.now w.state.pending)
    (hpending : w.state.pending = m :: rest)
    (hs' : s' = timerExpired T.entries { w.state with now := m.due, pending := rest } m.timer) :
    RightTimer T w m.due s' ∧ InPhase T ⟨s', w.inputs, nextPress T w s' .timer⟩ := by
  have hnow : w.state.now ≤ m.due := hclocked.due m (by simp [hpending])
  have hbits : s'.inputEventBits = w.state.inputEventBits := by
    rw [hs', timerExpired_inputEventBits]
  have hheld : ∀ a, m.timer = .held a → ∃ p ∈ w.press, a ∈ ofKind .held T.entries ∧
      m.due = p.start + a.timeout := by
    intro a ht
    have hm : m ∈ w.state.others := by
      rw [others_cons hpending (by rw [ht]; rfl) 0]
      exact mem_cons_self
    cases hp : w.press with
    | none =>
      rw [(h.idle hp).others] at hm
      cases hm
    | some p =>
      have hpressed := (h.pressed p hp).2
      refine ⟨p, rfl, hpressed.held.mem_iff.mp ?_, hpressed.due m hm a ht⟩
      exact mem_append_right _ (mem_heldPending.mpr ⟨m, hm, ht⟩)
  obtain ⟨new, hsent, hsends⟩ := timerExpired_sends T.entries
    { w.state with now := m.due, pending := rest } m.timer fun a ht => by
      obtain ⟨p, -, ha, -⟩ := hheld a ht
      exact of_decide_eq_true (mem_filter.mp ha).2
  have hnew : newlySent w.state s' = new := newlySent_eq (hs' ▸ hsent)
  have hnext : nextPress T w s' .timer = w.press.map fun p => { p with sent := p.sent ++ new } := by
    rw [nextPress, hnew]
  have hclicks : w.press = none → m.timer.isMultiClick = true := fun hp => by
    by_contra hother
    have := others_cons hpending (Bool.eq_false_of_not_eq_true hother) 0
    rw [(h.idle hp).others] at this
    cases this
  refine ⟨⟨hnew ▸ hsends.noChange, fun hp => ?_, fun a ha => ?_⟩, hbits.trans h.inputs,
    fun hp => ?_, fun p hp => ?_⟩
  · rw [hnew]
    refine hsends.repeats fun ht => ?_
    have := hclicks hp
    rw [ht] at this
    cases this
  · rw [hnew, hsends.held] at ha
    exact hheld a (Timer.held?_eq_some.mp (mem_toList.mp ha))
  · have hp : w.press = none := map_eq_none_iff.mp (hnext.symm.trans hp)
    have hclick := hclicks hp
    obtain ⟨a, ht⟩ : ∃ a, m.timer = .multiClick a := by
      cases ht : m.timer <;> rw [ht] at hclick <;> first | exact ⟨_, rfl⟩ | cases hclick
    rw [hs', ht]
    refine (handleMultiClickTimer_same T.entries _ a).idle ⟨?_, (h.idle hp).heldRelease⟩
    rw [← (h.idle hp).others, State.others, State.others, hpending,
      filter_cons_of_neg (by simp [hclick])]
  · rw [mem_def, hnext, map_eq_some_iff] at hp
    obtain ⟨q, hq, rfl⟩ := hp
    refine ⟨(h.pressed q hq).1, ?_⟩
    rw [directs_append, hsends.held, hs']
    exact (h.pressed q hq).2.timer hpending hnow

end Expiries

/-! ## Runs -/

section Runs

variable {T : PatternTable} {w w' : World} {e : Event} {time : ℕ}

theorem step_world : World.step T w e = some w' ↔
    ∃ s', Timed.step T.entries w.state e = some s' ∧
      w' = ⟨s', nextInputs w.inputs e, nextPress T w s' e⟩ := by
  rw [World.step, map_eq_some_iff]
  exact exists_congr fun _ => and_congr_right fun _ => eq_comm

/-- Every event does what it must, and keeps the manager in its phase. -/
theorem right_step (h : Clocked w.state.now w.state.pending ∧ InPhase T w) :
    Right T w e ∧ ∀ w', World.step T w e = some w' →
      Clocked w'.state.now w'.state.pending ∧ InPhase T w' := by
  have hright : Right T w e ∧ ∀ s', Timed.step T.entries w.state e = some s' →
      InPhase T ⟨s', nextInputs w.inputs e, nextPress T w s' e⟩ := by
    refine forall_and.mp fun s' => imp_and.mp fun hs => ?_
    cases e with
    | inputEvents time bits =>
      obtain ⟨hnow, hdue, hs'⟩ := step_inputEvents.mp hs
      exact right_change h.2 h.1 hnow hdue hs'
    | timer =>
      obtain ⟨m, rest, hpending, hs'⟩ := step_timer.mp hs
      obtain ⟨hright, hphase⟩ := right_timer h.2 h.1 hpending hs'
      refine ⟨fun p hp => ?_, hphase⟩
      rw [hpending, head?_cons, mem_def, some.injEq] at hp
      exact hp ▸ hright
  refine ⟨hright.1, fun w' hw => ?_⟩
  obtain ⟨s', hs, rfl⟩ := step_world.mp hw
  exact ⟨clocked_step h.1 hs, hright.2 s' hs⟩

theorem inPhase_init (T : PatternTable) :
    Clocked World.init.state.now World.init.state.pending ∧ InPhase T World.init := by
  refine ⟨⟨List.Pairwise.nil, fun m hm => ?_⟩, rfl, fun _ => ⟨rfl, rfl⟩, fun p hp => ?_⟩
  · cases hm
  · cases hp

/-- How often a timer can still expire up to a time: the timers but the repeat, and the time that is
left to the repeat. -/
def timersLeft (time : ℕ) (pending : List Pending) : ℕ × ℕ :=
  (pending.countP fun m => !m.timer.isRepeat,
    (pending.map fun m => if m.timer.isRepeat then time + 1 - m.due else 0).sum)

theorem timersLeft_insertPending_repeat (due : ℕ) (l : List Pending) :
    timersLeft time (insertPending ⟨due, .repeat⟩ l) =
      ((timersLeft time l).1, time + 1 - due + (timersLeft time l).2) := by
  have hperm := insertPending_perm ⟨due, .repeat⟩ l
  rw [timersLeft, hperm.countP_eq, (hperm.map _).sum_nat,
    countP_cons_of_neg (by simp [Timer.isRepeat]),
    map_cons, sum_cons]
  rfl

variable (time) in
/-- The message of a timer starts no other timer than the repeat. -/
theorem timerExpired_timersLeft (table : List InputAction) (s : State) (timer : Timer) :
    (timersLeft time (timerExpired table s timer).pending).1 ≤ (timersLeft time s.pending).1 := by
  have hfilter : ∀ (P : Pending → Bool) (l : List Pending),
      (timersLeft time (l.filter P)).1 ≤ (timersLeft time l).1 :=
    fun P l => filter_sublist.countP_le
  cases timer with
  | held a =>
    unfold timerExpired handleHeldTimer
    dsimp only
    split_ifs
    · dsimp only [sendLater_pending]
      rw [timersLeft_insertPending_repeat]
      exact (hfilter _ _).trans (hfilter _ _)
    · exact (hfilter _ _).trans (hfilter _ _)
  | «repeat» =>
    unfold timerExpired handleRepeatTimer
    dsimp only
    split
    · rw [sendLater_pending, timersLeft_insertPending_repeat]
      exact Nat.le_refl _
    · exact Nat.le_refl _
  | heldRelease a => exact hfilter _ _
  | multiClick a =>
    unfold timerExpired handleMultiClickTimer
    dsimp only
    rw [foldl_send_eq]
    split_ifs <;> exact hfilter _ _

/-- A timer that is due leaves fewer of them. -/
theorem timersLeft_timer {m : Pending} {rest : List Pending}
    (h : InPhase T w) (hpending : w.state.pending = m :: rest) (hdue : m.due ≤ time) :
    Prod.Lex (· < ·) (· < ·)
      (timersLeft time (timerExpired T.entries { w.state with now := m.due, pending := rest }
        m.timer).pending)
      (timersLeft time w.state.pending) := by
  rw [hpending]
  cases hrepeat : m.timer.isRepeat with
  | false =>
    have hless : (timersLeft time rest).1 < (timersLeft time (m :: rest)).1 := by
      rw [timersLeft, timersLeft, countP_cons_of_pos (by simp [hrepeat])]
      exact Nat.lt_succ_self _
    have hle := timerExpired_timersLeft time T.entries
      { w.state with now := m.due, pending := rest } m.timer
    exact Prod.Lex.left _ _ (hle.trans_lt hless)
  | true =>
    have ht : m.timer = .repeat := by
      cases ht : m.timer <;> rw [ht] at hrepeat <;> first | rfl | cases hrepeat
    have hm : m ∈ w.state.others := by
      rw [others_cons hpending (by rw [ht]; rfl) 0]
      exact mem_cons_self
    obtain ⟨p, hp⟩ : ∃ p, w.press = some p := by
      refine ne_none_iff_exists'.mp fun hnone => ?_
      rw [(h.idle hnone).others] at hm
      cases hm
    obtain ⟨a, ha, hperiod, -⟩ := (h.pressed p hp).2.repeats m hm ht
    have hcons : timersLeft time (m :: rest) =
        ((timersLeft time rest).1, time + 1 - m.due + (timersLeft time rest).2) := by
      rw [timersLeft, countP_cons_of_neg (by simp [hrepeat]), map_cons, sum_cons,
        hrepeat]
      rfl
    have hafter : (timerExpired T.entries { w.state with now := m.due, pending := rest }
        .repeat).pending = insertPending ⟨m.due + a.repeatPeriod, .repeat⟩ rest := by
      unfold timerExpired handleRepeatTimer
      dsimp only
      rw [ha]
      rfl
    rw [ht, hafter, timersLeft_insertPending_repeat, hcons]
    exact Prod.Lex.right _ (by omega)

/-- **The timers run out.** After finitely many of them none is due any more. -/
theorem timers_run_out {w : World} (h : Clocked w.state.now w.state.pending ∧ InPhase T w)
    (hnow : w.state.now ≤ time) :
    ∃ n w', run (World.step T) w (List.replicate n .timer) = some w' ∧ w'.state.now ≤ time ∧
      ∀ m ∈ w'.state.pending, time < m.due := by
  cases hpending : w.state.pending with
  | nil => exact ⟨0, w, rfl, hnow, by simp [hpending]⟩
  | cons m rest =>
    by_cases hdue : time < m.due
    · refine ⟨0, w, rfl, hnow, fun p hp => ?_⟩
      rw [hpending] at h hp
      rcases mem_cons.mp hp with rfl | hp
      · exact hdue
      · exact hdue.trans_le (h.1.tail.2.due p hp)
    · have hdue := Nat.le_of_not_lt hdue
      have hstep := (step_world (T := T)).mpr
        ⟨_, step_timer.mpr ⟨m, rest, hpending, rfl⟩, rfl⟩
      have hless := timersLeft_timer h.2 hpending hdue
      have hclock := hpending ▸ h.1
      have hnow' := (timerExpired_clocked (s := { w.state with now := m.due, pending := rest })
        T.entries m.timer hclock.tail.2).1
      obtain ⟨n, w', hrun, hw'⟩ := timers_run_out ((right_step h).2 _ hstep) (hnow'.trans_le hdue)
      exact ⟨n + 1, w', run_cons.mpr ⟨_, hstep, hrun⟩, hw'⟩
termination_by timersLeft time w.state.pending
decreasing_by exact hless

/-- **A table of one pattern, in time.** In every run each `ENTER` message is sent once when the
pattern becomes matched and each `RELEASE` message once when it stops being matched; in a press each
`HELD` message is sent once, when its timeout has passed; the release sends the `HELD_RELEASE`
message of the entry whose timeout was the last to expire; and nothing is held or repeated between
the presses. The timers that are due come to an end, so a change of the inputs can come at any time.
-/
theorem right_of_one_pattern (T : PatternTable) (events : List Event) :
    Meets (World.step T) (Right T) World.init events ∧
      ∀ w time, run (World.step T) World.init events = some w → w.state.now ≤ time →
        ∃ n w', run (World.step T) w (List.replicate n .timer) = some w' ∧ w'.state.now ≤ time ∧
          ∀ m ∈ w'.state.pending, time < m.due := by
  refine ⟨meets_of_run (fun w e h => right_step h) (inPhase_init T), fun w time hrun hnow => ?_⟩
  have hinv := invariant_of_run (fun w e w' h hs => (right_step h).2 w' hs) (inPhase_init T) hrun
  exact timers_run_out hinv hnow

/-- A button with an entry of each kind, two of them for its release after a while. -/
def oneButton : PatternTable where
  bits := 1
  mask := 1
  entries := [⟨0, 1, 1, .heldRelease, 120, 0, 0, 3⟩, ⟨1, 1, 1, .enter, 0, 0, 0, 1⟩,
    ⟨2, 1, 1, .held, 100, 40, 0, 2⟩, ⟨3, 1, 1, .heldRelease, 50, 0, 0, 4⟩,
    ⟨4, 1, 1, .release, 0, 0, 0, 5⟩]
  watches := by decide

/-- A press that every timeout runs out in, with a repeat, and a short one. -/
def twoPresses : List Event :=
  [.inputEvents 5 1, .timer, .timer, .timer, .timer, .inputEvents 160 0, .inputEvents 200 1,
    .inputEvents 230 0]

theorem right_of_one_pattern_twoPresses :
    Meets (World.step oneButton) (Right oneButton) World.init twoPresses ∧
      (run (World.step oneButton) World.init twoPresses).map
        (fun w => w.state.sent.map fun m => match m with
          | .direct a => a.message
          | .repeated a => 100 + a.message) = some [1, 2, 102, 3, 5, 1, 5] :=
  ⟨(right_of_one_pattern oneButton twoPresses).1, by decide⟩

end Runs

end Mh40.InputEventManager.Timed
