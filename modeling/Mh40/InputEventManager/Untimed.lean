import Mathlib.Data.Option.Basic
import Mh40.InputEventManager.Pending

/-!
# The manager in time refines the one without

* `InputAction.untimed`: an entry as `Manager.lean` has it, unless it is a `MULTI_CLICK` one.
* `Refines`: the untimed manager has the same bits, actions and messages, and the timers that are
  pending, in any order.
* `refines_of_run`: a run in time is one of the untimed manager, told of the same inputs.
-/

namespace Mh40.InputEventManager.Timed

open Lib List Option

/-! ## The untimed manager of a table -/

def InputEventAction.untimed : InputEventAction → Option InputEventManager.InputEventAction
  | .enter => some .enter
  | .held => some .held
  | .release => some .release
  | .heldRelease => some .heldRelease
  | .multiClick => none

/-- The entry without what only clicks and the lengths of timers need. -/
def InputAction.untimed (a : InputAction) : Option InputEventManager.InputAction :=
  a.action.untimed.map fun action =>
    ⟨a.address, a.bits, a.mask, action, a.repeatPeriod, a.message⟩

@[simp] def Timer.untimedHeld : Timer → Option InputEventManager.InputAction
  | .held a => a.untimed
  | _ => none

@[simp] def Timer.untimedHeldRelease : Timer → Option InputEventManager.InputAction
  | .heldRelease a => a.untimed
  | _ => none

@[simp] def Timer.untimedRepeat : Timer → Option Unit
  | .repeat => some ()
  | _ => none

/-- The entry of a message, and whether the repeat timer sent it. -/
def Sent.untimed : Sent → Option (InputEventManager.InputAction × Bool)
  | .direct a => a.untimed.map (·, false)
  | .repeated a => a.untimed.map (·, true)

/-- The same of a message of the untimed manager, which has the bits of the inputs too. -/
def sentEntry : InputEventManager.Sent → InputEventManager.InputAction × Bool
  | .direct a => (a, false)
  | .repeated a _ => (a, true)

/-- The bits that an event tells the manager. -/
def Event.bits : Event → Option InputEventBits
  | .inputEvents _ bits => some bits
  | .timer => none

def untimedBits : InputEventManager.Event → Option InputEventBits
  | .inputEvents bits => some bits
  | _ => none

/-- No two entries are at one address. -/
def Distinct (table : List InputAction) : Prop :=
  ∀ a ∈ table, ∀ b ∈ table, a.address = b.address → a = b

instance (table : List InputAction) : Decidable (Distinct table) :=
  inferInstanceAs (Decidable (∀ a ∈ table, ∀ b ∈ table, _))

/-- `x` stands for the entry `a` of the table. -/
def Twin (table : List InputAction) (a : InputAction) (x : InputEventManager.InputAction) : Prop :=
  a ∈ table ∧ a.untimed = some x

/-- The timers that the untimed manager has pending are those of the queue. -/
structure SameTimers (table : List InputAction) (pending : List Pending)
    (held : List InputEventManager.InputAction) (repeats : ℕ)
    (heldRelease : List InputEventManager.InputAction) : Prop where
  held : held.Perm (pending.filterMap (·.timer.untimedHeld))
  repeats : repeats = (pending.filterMap (·.timer.untimedRepeat)).length
  heldRelease : heldRelease.Perm (pending.filterMap (·.timer.untimedHeldRelease))
  twin : ∀ m ∈ pending, ∀ a, m.timer = .held a ∨ m.timer = .heldRelease a → ∃ x, Twin table a x

/-- The untimed manager `s` does what the timed one does. -/
structure Refines (table : List InputAction) (t : State) (s : InputEventManager.State) : Prop where
  bits : s.inputEventBits = t.inputEventBits
  repeatAction : Option.Rel (Twin table) t.repeatAction s.repeatAction
  heldRelease : Option.Rel (Twin table) t.heldRelease s.heldRelease
  timers : SameTimers table t.pending s.heldTimers s.repeatTimers s.heldReleaseTimers
  sent : s.sent.map sentEntry = t.sent.filterMap Sent.untimed

variable {table : List InputAction} {t t' : State} {s : InputEventManager.State}
  {a : InputAction} {x : InputEventManager.InputAction} {bits : InputEventBits}

/-! ## Timers -/

section Timers

variable {β : Type} {pending : List Pending} {f : Timer → Option β} {kind : Timer → Bool}

theorem filterMap_insertPending (m : Pending) :
    ((insertPending m pending).filterMap (f ·.timer)).Perm
      ((f m.timer).toList ++ pending.filterMap (f ·.timer)) := by
  refine ((insertPending_perm m pending).filterMap _).trans (Perm.of_eq ?_)
  rw [filterMap_cons]
  cases f m.timer <;> rfl

/-- A cancellation of all of these timers, or of none of them. -/
theorem filterMap_cancel (all : Bool) (h : ∀ timer, f timer ≠ none → kind timer = all) :
    (pending.filter fun m => !kind m.timer).filterMap (f ·.timer) =
      if all then [] else pending.filterMap (f ·.timer) := by
  rw [filterMap_filter]
  cases all with
  | true =>
    refine filterMap_eq_nil_iff.mpr fun m _ => ?_
    by_contra hne
    cases hk : kind m.timer with
    | true => simp [hk] at hne
    | false => exact absurd ((h m.timer (by simpa [hk] using hne)).symm.trans hk) nofun
  | false =>
    refine filterMap_congr fun m _ => ?_
    cases hf : f m.timer with
    | none => exact ite_self _
    | some v => rw [h m.timer (by rw [hf]; nofun)]; rfl

end Timers

section Queue

variable {pending : List Pending} {held heldRelease : List InputEventManager.InputAction}
  {repeats : ℕ} (h : SameTimers table pending held repeats heldRelease)
include h

theorem SameTimers.cancel (kind : Timer → Bool) (p q r : Bool)
    (hkind : ∀ timer, (timer.untimedHeld ≠ none → kind timer = p) ∧
      (timer.untimedRepeat ≠ none → kind timer = q) ∧
      (timer.untimedHeldRelease ≠ none → kind timer = r)) :
    SameTimers table (pending.filter fun m => !kind m.timer) (if p then [] else held)
      (if q then 0 else repeats) (if r then [] else heldRelease) := by
  refine ⟨?_, ?_, ?_, fun m hm => h.twin m (mem_filter.mp hm).1⟩
  · rw [filterMap_cancel p fun timer => (hkind timer).1]
    cases p <;> [exact h.held; rfl]
  · rw [filterMap_cancel q fun timer => (hkind timer).2.1]
    cases q <;> [exact h.repeats; rfl]
  · rw [filterMap_cancel r fun timer => (hkind timer).2.2]
    cases r <;> [exact h.heldRelease; rfl]

theorem SameTimers.cancelHeld :
    SameTimers table (pending.filter fun m => !m.timer.isHeld) [] repeats heldRelease :=
  h.cancel Timer.isHeld true false false (by rintro (_ | _ | _ | _) <;> simp [Timer.isHeld])

theorem SameTimers.cancelRepeat :
    SameTimers table (pending.filter fun m => !m.timer.isRepeat) held 0 heldRelease :=
  h.cancel Timer.isRepeat false true false (by rintro (_ | _ | _ | _) <;> simp [Timer.isRepeat])

theorem SameTimers.cancelHeldRelease :
    SameTimers table (pending.filter fun m => !m.timer.isHeldRelease) held repeats [] :=
  h.cancel Timer.isHeldRelease false false true
    (by rintro (_ | _ | _ | _) <;> simp [Timer.isHeldRelease])

theorem SameTimers.cancelMultiClick :
    SameTimers table (pending.filter fun m => !m.timer.isMultiClick) held repeats heldRelease :=
  h.cancel Timer.isMultiClick false false false
    (by rintro (_ | _ | _ | _) <;> simp [Timer.isMultiClick])

/-- A timer is started, which is one of the untimed manager unless it is that of the clicks. -/
theorem SameTimers.start (due : ℕ) (timer : Timer)
    (htwin : ∀ b, timer = .held b ∨ timer = .heldRelease b → ∃ y, Twin table b y) :
    SameTimers table (insertPending ⟨due, timer⟩ pending) (held ++ timer.untimedHeld.toList)
      (repeats + timer.untimedRepeat.toList.length)
      (heldRelease ++ timer.untimedHeldRelease.toList) := by
  refine ⟨?_, ?_, ?_, fun m hm b hb => ?_⟩
  · exact perm_append_comm.trans
      ((h.held.append_left _).trans (filterMap_insertPending ⟨due, timer⟩).symm)
  · rw [(filterMap_insertPending ⟨due, timer⟩).length_eq, length_append, ← h.repeats,
      Nat.add_comm]
  · exact perm_append_comm.trans
      ((h.heldRelease.append_left _).trans (filterMap_insertPending ⟨due, timer⟩).symm)
  · rcases mem_insertPending.mp hm with rfl | hm
    · exact htwin b hb
    · exact h.twin m hm b hb

theorem SameTimers.startRepeat (due : ℕ) :
    SameTimers table (insertPending ⟨due, .repeat⟩ pending) held (repeats + 1) heldRelease := by
  simpa using h.start due .repeat nofun

theorem SameTimers.startMultiClick (due : ℕ) (a : InputAction) :
    SameTimers table (insertPending ⟨due, .multiClick a⟩ pending) held repeats heldRelease := by
  simpa using h.start due (.multiClick a) nofun

theorem SameTimers.startHeld (due : ℕ) (ha : Twin table a x) :
    SameTimers table (insertPending ⟨due, .held a⟩ pending) (held ++ [x]) repeats heldRelease := by
  have hstart := h.start due (.held a) fun b hb => by
    obtain rfl : a = b := by simpa using hb
    exact ⟨x, ha⟩
  simpa [ha.2] using hstart

theorem SameTimers.startHeldRelease (due : ℕ) (ha : Twin table a x) :
    SameTimers table (insertPending ⟨due, .heldRelease a⟩ pending) held repeats
      (heldRelease ++ [x]) := by
  have hstart := h.start due (.heldRelease a) fun b hb => by
    obtain rfl : a = b := by simpa using hb
    exact ⟨x, ha⟩
  simpa [ha.2] using hstart

end Queue

/-! ## The entries -/

variable (bits) in
theorem actionIsRelease_twin (h : Refines table t s) (ha : Twin table a x) :
    InputEventManager.actionIsPress bits x = actionIsPress bits a ∧
      InputEventManager.actionIsRelease s x bits = actionIsRelease t a bits ∧
      InputEventManager.hasChanged s x bits = hasChanged t a bits := by
  obtain ⟨action, -, rfl⟩ := map_eq_some_iff.mp ha.2
  unfold InputEventManager.actionIsRelease InputEventManager.getPreviousBitState
    InputEventManager.hasChanged
  rw [h.bits]
  exact ⟨rfl, rfl, rfl⟩

theorem Twin.repeatPeriod_eq (ha : Twin table a x) : x.repeatPeriod = a.repeatPeriod := by
  obtain ⟨action, -, rfl⟩ := map_eq_some_iff.mp ha.2
  rfl

/-- The two managers remember one entry. -/
theorem rel_eq_some_iff (hd : Distinct table) (ha : Twin table a x) {o : Option InputAction}
    {o' : Option InputEventManager.InputAction} (h : Option.Rel (Twin table) o o') :
    o' = some x ↔ o = some a := by
  cases h with
  | none => exact iff_of_false nofun nofun
  | @some b y hb =>
    rw [some.injEq, some.injEq]
    constructor
    · rintro rfl
      obtain ⟨action, -, rfl⟩ := map_eq_some_iff.mp ha.2
      obtain ⟨action', -, heq⟩ := map_eq_some_iff.mp hb.2
      exact hd b hb.1 a ha.1 (congrArg InputEventManager.InputAction.address heq)
    · rintro rfl
      exact Option.some.inj (hb.2.symm.trans ha.2)

theorem Refines.cancelRepeat (h : Refines table t s) :
    Refines table (t.cancelAll Timer.isRepeat) { s with repeatTimers := 0 } :=
  { h with timers := h.timers.cancelRepeat }

theorem Refines.send (h : Refines table t s) (ha : Twin table a x) :
    Refines table (t.send (.direct a)) (sendDirect s x) := by
  refine { h with sent := ?_ }
  have huntimed : Sent.untimed (.direct a) = some (x, false) := by rw [Sent.untimed, ha.2]; rfl
  simp [sendDirect, State.send, h.sent, huntimed, sentEntry]

theorem Refines.enterAction (hd : Distinct table) (h : Refines table t s) (ha : Twin table a x) :
    Refines table (enterAction t a bits) (InputEventManager.enterAction s x bits) := by
  obtain ⟨hpress, hrelease, -⟩ := actionIsRelease_twin bits h ha
  unfold Timed.enterAction InputEventManager.enterAction
  simp only [hpress, hrelease, ha.repeatPeriod_eq, rel_eq_some_iff hd ha h.repeatAction]
  have hsent := h.cancelRepeat.send ha
  split_ifs
  · exact { hsent with repeatAction := .some ha, timers := hsent.timers.startRepeat _ }
  · exact { hsent with repeatAction := .none }
  · exact { h.cancelRepeat with repeatAction := .none }
  · exact h

theorem Refines.releaseAction (h : Refines table t s) (ha : Twin table a x) :
    Refines table (releaseAction t a bits) (InputEventManager.releaseAction s x bits) := by
  unfold Timed.releaseAction InputEventManager.releaseAction
  rw [(actionIsRelease_twin bits h ha).2.1]
  split_ifs
  · exact h.send ha
  · exact h

theorem Refines.heldTimers_eq_nil_iff (h : Refines table t s) :
    s.heldTimers = [] ↔ ¬t.pending.any (·.timer.isHeld) := by
  have hnil : s.heldTimers = [] ↔ t.pending.filterMap (·.timer.untimedHeld) = [] :=
    ⟨fun hs => (hs ▸ h.timers.held).symm.eq_nil, fun hp => (hp ▸ h.timers.held).eq_nil⟩
  rw [hnil, filterMap_eq_nil_iff, Bool.not_eq_true, List.any_eq_false]
  refine forall₂_congr fun m hm => ?_
  cases htimer : m.timer with
  | held b =>
    obtain ⟨y, -, hy⟩ := h.timers.twin m hm b (.inl htimer)
    simp [Timer.isHeld, hy]
  | _ => simp [Timer.isHeld]

theorem Refines.heldAction (h : Refines table t s) (ha : Twin table a x) :
    Refines table (heldAction t a bits) (InputEventManager.heldAction s x bits) := by
  obtain ⟨hpress, hrelease, -⟩ := actionIsRelease_twin bits h ha
  unfold Timed.heldAction InputEventManager.heldAction heldActionButtonReleaseAction
    InputEventManager.heldActionButtonReleaseAction
  simp only [hpress, hrelease, h.heldTimers_eq_nil_iff, ite_not]
  split_ifs
  · exact { h with timers := h.timers.startHeld _ ha }
  · exact { h with timers := h.timers.cancelHeld }
  · exact { h with timers := h.timers.cancelRepeat }
  · exact h

theorem Refines.heldReleaseAction (hd : Distinct table) (h : Refines table t s)
    (ha : Twin table a x) :
    Refines table (heldReleaseAction t a bits) (InputEventManager.heldReleaseAction s x bits) := by
  obtain ⟨hpress, hrelease, -⟩ := actionIsRelease_twin bits h ha
  unfold Timed.heldReleaseAction InputEventManager.heldReleaseAction
    heldReleaseButtonReleaseAction InputEventManager.heldReleaseButtonReleaseAction
  have hcancel : (t.cancelAll Timer.isHeldRelease).heldRelease = t.heldRelease := rfl
  simp only [hpress, hrelease, hcancel, rel_eq_some_iff hd ha h.heldRelease]
  split_ifs
  · exact { h with heldRelease := .none, timers := h.timers.startHeldRelease _ ha }
  · have hcancelled : Refines table { t.cancelAll Timer.isHeldRelease with heldRelease := none }
        { s with heldReleaseTimers := [], heldRelease := none } :=
      { h with heldRelease := .none, timers := h.timers.cancelHeldRelease }
    exact hcancelled.send ha
  · exact { h with timers := h.timers.cancelHeldRelease }
  · exact h

/-- The count of clicks is not seen by the untimed manager. -/
theorem Refines.multiClickAction (h : Refines table t s) :
    Refines table (multiClickAction t a bits) s := by
  have hrestart : Refines table (multiClickReStartTimer t a) s :=
    { h with timers := h.timers.cancelMultiClick.startMultiClick _ a }
  have hstart : Refines table (multiClickStart t a) s :=
    { h with timers := h.timers.cancelMultiClick.cancelMultiClick.startMultiClick _ a }
  unfold Timed.multiClickAction
  split_ifs
  · exact hstart
  · exact hrestart
  · exact { h with }
  · exact h
  · exact h
  · exact hstart
  · exact h

theorem Refines.multiClickEnd (h : Refines table t s) : Refines table (multiClickEnd t) s :=
  { h with timers := h.timers.cancelMultiClick }

/-! ## The events -/

/-- A pass over the table: the untimed manager does not have the `MULTI_CLICK` entries. -/
theorem Refines.inputEventsChanged (hd : Distinct table) (h : Refines table t s) :
    Refines table (inputEventsChanged table t bits)
      (InputEventManager.inputEventsChanged (table.filterMap InputAction.untimed) s bits) := by
  have hfold : ∀ (entries : List InputAction) (r : State × Bool) (s), entries ⊆ table →
      Refines table r.1 s → Refines table (entries.foldl (processEntry bits) r).1
        ((entries.filterMap InputAction.untimed).foldl
          (InputEventManager.processEntry bits) s) := by
    intro entries
    induction entries with
    | nil => exact fun r s _ h => h
    | cons a entries ih =>
      intro r s hsub h
      have hmem := hsub mem_cons_self
      have hrest := fun r s => ih r s fun b hb => hsub (mem_cons_of_mem a hb)
      rw [foldl_cons, filterMap_cons]
      cases hx : a.untimed with
      | none =>
        have haction : a.action = .multiClick := by
          cases hk : a.action <;> simp [InputAction.untimed, InputEventAction.untimed, hk] at hx ⊢
        refine hrest _ _ ?_
        unfold processEntry
        rw [haction]
        split_ifs
        · exact h
        · exact h.multiClickAction
        · exact h
      | some x =>
        have ha : Twin table a x := ⟨hmem, hx⟩
        refine hrest _ _ ?_
        obtain ⟨-, -, hchanged⟩ := actionIsRelease_twin bits h ha
        obtain ⟨action, haction, hx'⟩ := map_eq_some_iff.mp hx
        have hkind : x.action = action := by rw [← hx']
        unfold processEntry InputEventManager.processEntry
        rw [hchanged, hkind]
        cases hasChanged r.1 a bits with
        | false => exact h
        | true =>
          cases hk : a.action with
          | enter =>
            cases hk ▸ haction
            exact h.enterAction hd ha
          | held =>
            cases hk ▸ haction
            exact h.heldAction ha
          | heldRelease =>
            cases hk ▸ haction
            exact h.heldReleaseAction hd ha
          | release =>
            cases hk ▸ haction
            exact h.releaseAction ha
          | multiClick => cases hk ▸ haction
  exact { hfold table (t, false) s (Subset.refl _) h with bits := rfl }

theorem Refines.sendMultiClicks (h : Refines table t s) (clicked : List InputAction)
    (hnone : ∀ b ∈ clicked, b.untimed = none) :
    Refines table (clicked.foldl (fun t b => t.send (.direct b)) t) s := by
  rw [foldl_send_eq]
  refine { h with sent := ?_ }
  have hskip : (clicked.map Sent.direct).filterMap Sent.untimed = [] := by
    refine filterMap_eq_nil_iff.mpr fun m hm => ?_
    obtain ⟨b, hb, rfl⟩ := List.mem_map.mp hm
    rw [Sent.untimed, hnone b hb]
    rfl
  rw [filterMap_append, hskip, append_nil]
  exact h.sent

/-- The event of the untimed manager for one in time. -/
theorem Refines.step (hd : Distinct table) (h : Refines table t s) {e : Event}
    (ht : step table t e = some t') : ∃ events : List InputEventManager.Event,
      events.filterMap untimedBits = e.bits.toList ∧
        Refines table t'
          (events.foldl (iemHandler (table.filterMap InputAction.untimed)) s) := by
  cases e with
  | inputEvents time bits =>
    obtain ⟨-, -, rfl⟩ := step_inputEvents.mp ht
    exact ⟨[.inputEvents bits], rfl,
      Refines.inputEventsChanged hd (t := { t with now := time }) { h with }⟩
  | timer =>
    obtain ⟨m, rest, hpending, rfl⟩ := step_timer.mp ht
    have htimers := h.timers
    rw [hpending] at htimers
    have hrest : ∀ n ∈ rest, ∀ b, n.timer = .held b ∨ n.timer = .heldRelease b →
        ∃ y, Twin table b y := fun n hn => htimers.twin n (mem_cons_of_mem m hn)
    obtain ⟨due, timer⟩ := m
    cases timer with
    | held a =>
      obtain ⟨x, ha⟩ := htimers.twin _ mem_cons_self a (.inl rfl)
      have hheld := htimers.held
      simp only [filterMap_cons, show Timer.untimedHeld (.held a) = some x from ha.2] at hheld
      have hmem : x ∈ s.heldTimers := hheld.mem_iff.mpr mem_cons_self
      have hnext : Refines table { t with now := due, pending := rest }
          { s with heldTimers := s.heldTimers.erase x } :=
        { h with timers := ⟨by simpa using hheld.erase x, htimers.repeats, htimers.heldRelease,
            hrest⟩ }
      refine ⟨[.heldTimer x], rfl, ?_⟩
      have hsent := (hnext.multiClickEnd.send ha).cancelRepeat
      rw [foldl_cons, foldl_nil, iemHandler, if_pos hmem]
      unfold timerExpired handleHeldTimer InputEventManager.handleHeldTimer
      simp only [ha.repeatPeriod_eq]
      split_ifs
      · exact { hsent with repeatAction := .some ha, timers := hsent.timers.startRepeat _ }
      · exact hsent
    | «repeat» =>
      refine ⟨[.repeatTimer], rfl, ?_⟩
      have hrepeats : s.repeatTimers = (rest.filterMap (·.timer.untimedRepeat)).length + 1 :=
        htimers.repeats
      have hnext : Refines table { t with now := due, pending := rest }
          { s with repeatTimers := s.repeatTimers - 1 } :=
        { h with timers := ⟨htimers.held, by rw [hrepeats]; rfl, htimers.heldRelease, hrest⟩ }
      rw [foldl_cons, foldl_nil, iemHandler, if_pos (by omega)]
      unfold timerExpired handleRepeatTimer InputEventManager.handleRepeatTimer
      dsimp only
      have hrel := hnext.repeatAction
      dsimp only at hrel
      rcases htr : t.repeatAction with _ | a <;> rcases hsr : s.repeatAction with _ | x <;>
        rw [htr, hsr] at hrel hnext
      · exact hnext
      · cases hrel
      · cases hrel
      · have ha : Twin table a x := by cases hrel with | some ha => exact ha
        have huntimed : Sent.untimed (.repeated a) = some (x, true) := by
          rw [Sent.untimed, ha.2]
          rfl
        refine { hnext with sent := ?_, timers := hnext.timers.startRepeat _ }
        simp [State.send, State.sendLater, h.sent, huntimed, sentEntry]
    | heldRelease a =>
      obtain ⟨x, ha⟩ := htimers.twin _ mem_cons_self a (.inr rfl)
      have hheld := htimers.heldRelease
      simp only [filterMap_cons,
        show Timer.untimedHeldRelease (.heldRelease a) = some x from ha.2] at hheld
      have hmem : x ∈ s.heldReleaseTimers := hheld.mem_iff.mpr mem_cons_self
      refine ⟨[.heldReleaseTimer x], rfl, ?_⟩
      rw [foldl_cons, foldl_nil, iemHandler, if_pos hmem]
      have hnext : Refines table { t with now := due, pending := rest, heldRelease := some a }
          { s with heldReleaseTimers := s.heldReleaseTimers.erase x, heldRelease := some x } :=
        { h with
          heldRelease := .some ha
          timers := ⟨htimers.held, htimers.repeats, by simpa using hheld.erase x, hrest⟩ }
      exact hnext.multiClickEnd
    | multiClick a =>
      refine ⟨[], rfl, ?_⟩
      have hnext : Refines table { t with now := due, pending := rest } s :=
        { h with timers := ⟨htimers.held, htimers.repeats, htimers.heldRelease, hrest⟩ }
      unfold timerExpired handleMultiClickTimer
      dsimp only
      split_ifs
      · exact hnext.multiClickEnd
      · refine (hnext.sendMultiClicks _ fun b hb => ?_).multiClickEnd
        have hclicked := of_decide_eq_true (mem_filter.mp hb).2
        rw [InputAction.untimed, hclicked.1]
        rfl

theorem Refines.run (hd : Distinct table) (h : Refines table t s) {es : List Event}
    (hrun : Lib.run (Timed.step table) t es = some t') :
    ∃ events : List InputEventManager.Event,
      events.filterMap untimedBits = es.filterMap Event.bits ∧
        Refines table t'
          (events.foldl (iemHandler (table.filterMap InputAction.untimed)) s) := by
  induction es generalizing t s with
  | nil =>
    cases hrun
    exact ⟨[], rfl, h⟩
  | cons e es ih =>
    obtain ⟨t1, ht1, hrun⟩ := run_cons.mp hrun
    obtain ⟨first, hfirst, h1⟩ := h.step hd ht1
    obtain ⟨rest, hrest, h2⟩ := ih h1 hrun
    refine ⟨first ++ rest, ?_, by rw [foldl_append]; exact h2⟩
    rw [filterMap_append, hfirst, hrest, filterMap_cons]
    cases e.bits <;> rfl

/-- **Refinement.** Where no two entries are at one address, a run in time sends the messages, other
than those for clicks, that the untimed manager sends in some run on the same inputs. -/
theorem refines_of_run (hd : Distinct table) (es : List Event)
    (hrun : run (step table) .init es = some t) : ∃ events : List InputEventManager.Event,
      events.filterMap untimedBits = es.filterMap Event.bits ∧
        Refines table t
          (events.foldl (iemHandler (table.filterMap InputAction.untimed)) .init) :=
  Refines.run hd ⟨rfl, .none, .none,
    ⟨.refl _, rfl, .refl _, fun _ hm => absurd hm not_mem_nil⟩, rfl⟩ hrun

/-- A button that repeats, is held and counts clicks, and another one that is held and released. -/
def mixedTable : List InputAction :=
  [⟨0, 1, 1, .enter, 0, 600, 0, 10⟩, ⟨1, 1, 1, .multiClick, 0, 0, 1, 11⟩,
    ⟨2, 1, 1, .held, 700, 300, 0, 12⟩, ⟨3, 2, 2, .heldRelease, 300, 0, 0, 13⟩,
    ⟨4, 2, 2, .release, 0, 0, 0, 14⟩]

/-- A click of the first button; then both are pressed, and released one after the other. -/
def mixedRun : List Event :=
  [.inputEvents 10 1, .inputEvents 60 0, .timer, .inputEvents 1000 3, .timer, .timer, .timer,
    .inputEvents 1750 2, .inputEvents 1800 0]

theorem refines_of_run_mixedRun : ∃ t, run (step mixedTable) .init mixedRun = some t ∧
    ∃ events : List InputEventManager.Event,
      events.filterMap untimedBits = mixedRun.filterMap Event.bits ∧
        Refines mixedTable t
          (events.foldl (iemHandler (mixedTable.filterMap InputAction.untimed)) .init) := by
  obtain ⟨t, ht⟩ : ∃ t, run (step mixedTable) .init mixedRun = some t :=
    isSome_iff_exists.mp (by decide +kernel)
  exact ⟨t, ht, refines_of_run (by decide) mixedRun ht⟩

end Mh40.InputEventManager.Timed
