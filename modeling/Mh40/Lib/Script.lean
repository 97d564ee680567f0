import Mathlib.Data.List.Forall2

/-!
# Traversal scripts

A traversal that calls its client back, with the order of the calls separated from what a call
does. A `Script` is a tree of visits and questions; `exec` runs it on a state, where a visit may
stop the traversal with `false` and where `none` is a fault.

* `exec_eq_forEach`: when the answers do not depend on the state, running the script is running
  the callback over the list `visits`.
* `exec_eq_forEach_of_determined`: the same when each answer is settled by the visits made before
  it, for callbacks that keep the invariant which settles it. So two runs over two states make the
  same visits.
* `events`: the visits and the questions in their order; those of two scripts in a row and of a
  list of scripts are appended.
* `exec_simulates`: a second run whose callback either follows the first or stops.
-/

namespace Mh40.Lib

open Option

/-- What a traversal does next: the visits and the questions it asks on the way. -/
inductive Script (V Q : Type) where
  | done
  | fault
  | visit (v : V) (next : Script V Q)
  | ask (q : Q) (next : ℕ → Script V Q)

/-- The callback over a list of visits. -/
def forEach {V σ : Type} (f : V → σ → Option (Bool × σ)) : List V → σ → Option (Bool × σ)
  | [], s => some (true, s)
  | v :: vs, s =>
    match f v s with
    | none => none
    | some (false, s') => some (false, s')
    | some (true, s') => forEach f vs s'

section

variable {V σ : Type} {f : V → σ → Option (Bool × σ)} {Inv : List V → σ → Prop} {all : List V}

/-- When each visit in turn succeeds or faults for a reason `Bad`, all succeed or one is bad. -/
theorem forEach_cases (Inv : List V → σ → Prop) (Bad : List V → V → Prop)
    (hvisit : ∀ past v rest s, past ++ v :: rest = all → Inv past s →
      (∃ s', f v s = some (true, s') ∧ Inv (past ++ [v]) s') ∨ f v s = none ∧ Bad past v)
    {past vs : List V} {s : σ} (hall : past ++ vs = all) (hi : Inv past s) :
    (∃ s', forEach f vs s = some (true, s') ∧ Inv all s') ∨
      forEach f vs s = none ∧ ∃ past v rest, past ++ v :: rest = all ∧ Bad past v := by
  induction vs generalizing past s with
  | nil =>
    rw [List.append_nil] at hall
    exact .inl ⟨s, rfl, hall ▸ hi⟩
  | cons v vs ih =>
    unfold forEach
    rcases hvisit past v vs s hall hi with ⟨s1, hf, hi1⟩ | ⟨hf, hbad⟩
    · rw [hf]
      exact ih (show (past ++ [v]) ++ vs = all by simpa using hall) hi1
    · rw [hf]
      exact .inr ⟨rfl, past, v, vs, hall, hbad⟩

end

namespace Script

variable {V Q σ τ : Type} {t : Script V Q} {s s' : σ} {vs : List V}

/-- The second script after the first. -/
def andThen : Script V Q → Script V Q → Script V Q
  | done, t => t
  | fault, _ => fault
  | visit v next, t => visit v (next.andThen t)
  | ask q next, t => ask q fun n => (next n).andThen t

@[simp] theorem andThen_done (t : Script V Q) : t.andThen done = t := by
  induction t with
  | done => rfl
  | fault => rfl
  | visit v next ih => rw [andThen, ih]
  | ask q next ih =>
    rw [andThen]
    congr 1
    funext n
    exact ih n

/-- The script run with a callback and an oracle for the questions. -/
def exec (f : V → σ → Option (Bool × σ)) (answer : Q → σ → Option ℕ) :
    Script V Q → σ → Option (Bool × σ)
  | done, s => some (true, s)
  | fault, _ => none
  | visit v next, s =>
    match f v s with
    | none => none
    | some (false, s') => some (false, s')
    | some (true, s') => exec f answer next s'
  | ask q next, s => (answer q s).bind fun n => exec f answer (next n) s

/-- The visits made under fixed answers. -/
def visits (answer : Q → Option ℕ) : Script V Q → Option (List V)
  | done => some []
  | fault => none
  | visit v next => (next.visits answer).map (v :: ·)
  | ask q next => (answer q).bind fun n => (next n).visits answer

/-- Along the answers, each question is settled by the visits before it. -/
def Determined (answer : Q → Option ℕ) (settled : List V → Q → Prop) :
    List V → Script V Q → Prop
  | _, done => True
  | _, fault => True
  | past, visit v next => Determined answer settled (past ++ [v]) next
  | past, ask q next =>
    settled past q ∧ ∀ n, answer q = some n → Determined answer settled past (next n)

/-- The script asks nothing. -/
def Silent : Script V Q → Prop
  | done => True
  | fault => True
  | visit _ next => next.Silent
  | ask _ _ => False

theorem Silent.andThen {t t' : Script V Q} (h : t.Silent) (h' : t'.Silent) :
    (t.andThen t').Silent := by
  induction t with
  | done => exact h'
  | fault => trivial
  | visit v next ih => exact ih h
  | ask q next ih => exact absurd h id

theorem Silent.determined {answer : Q → Option ℕ} {settled : List V → Q → Prop} (h : t.Silent)
    (past : List V) : t.Determined answer settled past := by
  induction t generalizing past with
  | done => trivial
  | fault => trivial
  | visit v next ih => exact ih h (past ++ [v])
  | ask q next ih => exact absurd h id

/-- Every visit of the script, whatever the answers. -/
def All (P : V → Prop) : Script V Q → Prop
  | done => True
  | fault => True
  | visit v next => P v ∧ next.All P
  | ask _ next => ∀ n, (next n).All P

theorem All.andThen {P : V → Prop} {t t' : Script V Q} (h : t.All P) (h' : t'.All P) :
    (t.andThen t').All P := by
  induction t with
  | done => exact h'
  | fault => trivial
  | visit v next ih => exact ⟨h.1, ih h.2⟩
  | ask q next ih => exact fun n => ih n (h n)

theorem All.of_mem_visits {P : V → Prop} {answer : Q → Option ℕ} (h : t.All P)
    (hv : t.visits answer = some vs) : ∀ v ∈ vs, P v := by
  induction t generalizing vs with
  | done =>
    cases hv
    simp
  | fault => cases hv
  | visit v next ih =>
    obtain ⟨ws, hw, rfl⟩ := map_eq_some_iff.mp hv
    exact List.forall_mem_cons.mpr ⟨h.1, ih h.2 hw⟩
  | ask q next ih =>
    obtain ⟨n, _, hv'⟩ := bind_eq_some_iff.mp hv
    exact ih n (h n) hv'

theorem visits_andThen {answer : Q → Option ℕ} {t t' : Script V Q}
    (h : (t.andThen t').visits answer = some vs) :
    ∃ ws ws', t.visits answer = some ws ∧ t'.visits answer = some ws' ∧ vs = ws ++ ws' := by
  induction t generalizing vs with
  | done => exact ⟨[], vs, rfl, h, rfl⟩
  | fault => cases h
  | visit v next ih =>
    obtain ⟨us, hu, rfl⟩ := map_eq_some_iff.mp h
    obtain ⟨ws, ws', hw, hw', rfl⟩ := ih hu
    exact ⟨v :: ws, ws', by simp [visits, hw], hw', rfl⟩
  | ask q next ih =>
    obtain ⟨n, hn, h'⟩ := bind_eq_some_iff.mp h
    obtain ⟨ws, ws', hw, hw', rfl⟩ := ih n h'
    exact ⟨ws, ws', by simp [visits, hn, hw], hw', rfl⟩

/-! ## Visits and questions -/

/-- The visits and the questions in their order, under fixed answers. -/
def events (answer : Q → Option ℕ) : Script V Q → Option (List (V ⊕ Q))
  | done => some []
  | fault => none
  | visit v next => (next.events answer).map (.inl v :: ·)
  | ask q next => (answer q).bind fun n => ((next n).events answer).map (.inr q :: ·)

theorem events_andThen {answer : Q → Option ℕ} {t t' : Script V Q} {es : List (V ⊕ Q)} :
    (t.andThen t').events answer = some es ↔
      ∃ ds ds', t.events answer = some ds ∧ t'.events answer = some ds' ∧ es = ds ++ ds' := by
  induction t generalizing es with
  | done => simp [andThen, events, eq_comm]
  | fault => simp [andThen, events]
  | visit v next ih =>
    simp only [andThen, events, map_eq_some_iff, ih]
    constructor
    · rintro ⟨_, ⟨ds, ds', h, h', rfl⟩, rfl⟩
      exact ⟨.inl v :: ds, ds', ⟨ds, h, rfl⟩, h', rfl⟩
    · rintro ⟨_, ds', ⟨ds, h, rfl⟩, h', rfl⟩
      exact ⟨ds ++ ds', ⟨ds, ds', h, h', rfl⟩, rfl⟩
  | ask q next ih =>
    simp only [andThen, events, bind_eq_some_iff, map_eq_some_iff, ih]
    constructor
    · rintro ⟨n, hn, _, ⟨ds, ds', h, h', rfl⟩, rfl⟩
      exact ⟨.inr q :: ds, ds', ⟨n, hn, ds, h, rfl⟩, h', rfl⟩
    · rintro ⟨_, ds', ⟨n, hn, ds, h, rfl⟩, h', rfl⟩
      exact ⟨n, hn, ds ++ ds', ⟨ds, ds', h, h', rfl⟩, rfl⟩

/-- The scripts of the entries of a list, one after the other. -/
def each {α : Type} (f : α → Script V Q) : List α → Script V Q
  | [] => done
  | a :: as => (f a).andThen (each f as)

/-- The events of a list of scripts are those of each, one after the other. -/
theorem events_each {α : Type} {f : α → Script V Q} {answer : Q → Option ℕ} {as : List α}
    {es : List (V ⊕ Q)} :
    (each f as).events answer = some es ↔
      ∃ parts, List.Forall₂ (fun a part => (f a).events answer = some part) as parts ∧
        es = parts.flatten := by
  induction as generalizing es with
  | nil => simp [each, events, eq_comm]
  | cons a as ih =>
    simp only [each, events_andThen, ih]
    constructor
    · rintro ⟨part, _, h, ⟨parts, hparts, rfl⟩, rfl⟩
      exact ⟨part :: parts, .cons h hparts, rfl⟩
    · rintro ⟨_, hparts, rfl⟩
      cases hparts with
      | cons h hparts => exact ⟨_, _, h, ⟨_, hparts, rfl⟩, rfl⟩

variable {f : V → σ → Option (Bool × σ)} {answer : Q → σ → Option ℕ} {ans : Q → Option ℕ}
  {settled : List V → Q → Prop}

/-- **The replay rule.** `Inv past s` holds after the visits `past` of `all`, and in such a state
every question that `past` settles gets the reference answer. Then the run makes the reference
visits. -/
theorem exec_eq_forEach_of_determined (Inv : List V → σ → Prop) {all : List V}
    (hvisit : ∀ past v rest s s', past ++ v :: rest = all → Inv past s →
      f v s = some (true, s') → Inv (past ++ [v]) s')
    (hanswer : ∀ past q s, Inv past s → settled past q → answer q s = ans q) {past vs : List V}
    {s : σ} (hall : past ++ vs = all) (hd : t.Determined ans settled past)
    (hv : t.visits ans = some vs) (hi : Inv past s) : t.exec f answer s = forEach f vs s := by
  induction t generalizing past vs s with
  | done =>
    cases hv
    rfl
  | fault => cases hv
  | visit v next ih =>
    obtain ⟨ws, hw, rfl⟩ := map_eq_some_iff.mp hv
    unfold exec forEach
    rcases hf : f v s with _ | ⟨_ | _, s'⟩
    · rfl
    · rfl
    · exact ih (by simpa using hall) hd hw (hvisit past v ws s s' hall hi hf)
  | ask q next ih =>
    obtain ⟨n, hn, hv'⟩ := bind_eq_some_iff.mp hv
    unfold exec
    rw [hanswer past q s hi hd.1, hn]
    exact ih n hall (hd.2 n hn) hv' hi

/-- Without questions that look at the state, a run is the callback over the visits. -/
theorem exec_eq_forEach (ans : Q → Option ℕ) (hanswer : ∀ q s, answer q s = ans q)
    (hv : t.visits ans = some vs) (s : σ) : t.exec f answer s = forEach f vs s := by
  induction t generalizing vs s with
  | done =>
    cases hv
    rfl
  | fault => cases hv
  | visit v next ih =>
    obtain ⟨ws, hw, rfl⟩ := map_eq_some_iff.mp hv
    unfold exec forEach
    rcases f v s with _ | ⟨_ | _, s'⟩
    · rfl
    · rfl
    · exact ih hw s'
  | ask q next ih =>
    obtain ⟨n, hn, hv'⟩ := bind_eq_some_iff.mp hv
    unfold exec
    rw [hanswer, hn]
    exact ih n hv' s

/-- A run to the end has made a list of visits. -/
theorem visits_of_exec (ans : Q → Option ℕ) (hanswer : ∀ q s, answer q s = ans q)
    (h : t.exec f answer s = some (true, s')) : ∃ vs, t.visits ans = some vs := by
  induction t generalizing s with
  | done => exact ⟨[], rfl⟩
  | fault => cases h
  | visit v next ih =>
    unfold exec at h
    rcases hf : f v s with _ | ⟨_ | _, s''⟩ <;> rw [hf] at h
    · cases h
    · cases h
    · obtain ⟨vs, hvs⟩ := ih h
      exact ⟨v :: vs, by simp [visits, hvs]⟩
  | ask q next ih =>
    obtain ⟨n, hn, h'⟩ := bind_eq_some_iff.mp h
    obtain ⟨vs, hvs⟩ := ih n h'
    exact ⟨vs, by simp [visits, ← hanswer q s, hn, hvs]⟩

/-- A run whose callback never returns `false` never does. -/
theorem exec_ne_false (hf : ∀ v s s', f v s ≠ some (false, s')) (t : Script V Q) (s s' : σ) :
    t.exec f answer s ≠ some (false, s') := by
  induction t generalizing s with
  | done => simp [exec]
  | fault => simp [exec]
  | visit v next ih =>
    unfold exec
    rcases hv : f v s with _ | ⟨_ | _, s1⟩
    · simp
    · exact absurd hv (hf v s s1)
    · exact ih s1
  | ask q next ih =>
    unfold exec
    rcases answer q s with _ | n
    · simp
    · exact ih n s

/-- What each visit keeps, a run to the end keeps. -/
theorem exec_keeps {Inv : σ → Prop} (hvisit : ∀ v s s', Inv s → f v s = some (true, s') → Inv s')
    (hs : Inv s) (h : t.exec f answer s = some (true, s')) : Inv s' := by
  induction t generalizing s with
  | done =>
    cases h
    exact hs
  | fault => cases h
  | visit v next ih =>
    unfold exec at h
    rcases hf : f v s with _ | ⟨_ | _, s1⟩ <;> rw [hf] at h
    · cases h
    · cases h
    · exact ih (hvisit v s s1 hs hf) h
  | ask q next ih =>
    obtain ⟨n, _, h'⟩ := bind_eq_some_iff.mp h
    exact ih n hs h'

/-- What each visit keeps, also one that stops the traversal, a run keeps. -/
theorem exec_keeps_result {Inv : σ → Prop}
    (hvisit : ∀ v s b s', Inv s → f v s = some (b, s') → Inv s') {b : Bool} (hs : Inv s)
    (h : t.exec f answer s = some (b, s')) : Inv s' := by
  induction t generalizing s with
  | done =>
    cases h
    exact hs
  | fault => cases h
  | visit v next ih =>
    unfold exec at h
    rcases hf : f v s with _ | ⟨_ | _, s1⟩ <;> rw [hf] at h
    · cases h
    · cases h
      exact hvisit v s false s' hs hf
    · exact ih (hvisit v s true s1 hs hf) h
  | ask q next ih =>
    obtain ⟨n, _, h'⟩ := bind_eq_some_iff.mp h
    exact ih n hs h'

/-- **The simulation rule.** When the first run goes to the end, a second run whose callback
follows it step by step or stops in `Stopped` does the same. -/
theorem exec_simulates {g : V → τ → Option (Bool × τ)} {answer' : Q → τ → Option ℕ}
    (R : σ → τ → Prop) (Stopped : τ → Prop)
    (hvisit : ∀ v s s' t, R s t → f v s = some (true, s') →
      (∃ t', g v t = some (true, t') ∧ R s' t') ∨ ∃ t', g v t = some (false, t') ∧ Stopped t')
    (hanswer : ∀ q s t, R s t → answer' q t = answer q s) {p : Script V Q} {t : τ} (hR : R s t)
    (h : p.exec f answer s = some (true, s')) :
    (∃ t', p.exec g answer' t = some (true, t') ∧ R s' t') ∨
      ∃ t', p.exec g answer' t = some (false, t') ∧ Stopped t' := by
  induction p generalizing s t with
  | done =>
    cases h
    exact .inl ⟨t, rfl, hR⟩
  | fault => cases h
  | visit v next ih =>
    unfold exec at h ⊢
    rcases hf : f v s with _ | ⟨_ | _, s1⟩ <;> rw [hf] at h
    · cases h
    · cases h
    · rcases hvisit v s s1 t hR hf with ⟨t1, ht, hR'⟩ | ⟨t1, ht, hs⟩ <;> rw [ht]
      · exact ih hR' h
      · exact .inr ⟨t1, rfl, hs⟩
  | ask q next ih =>
    obtain ⟨n, hn, h'⟩ := bind_eq_some_iff.mp h
    unfold exec
    rw [hanswer q s t hR, hn]
    exact ih n hR h'

end Script

end Mh40.Lib
