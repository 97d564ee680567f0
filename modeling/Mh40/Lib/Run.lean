/-!
# Runs of a partial labelled machine

A machine is one partial step function `step : σ → ι → Option σ`: `step s l = none` is an input
the machine does not survive (a failed assertion) or cannot take. `run` folds it over a list of
inputs. `Meets step P` says that every input of the list is taken in a state where `P` allows it,
so a result about the runs that keep to a discipline is stated with `Meets` and proved with
`invariant_of_meets`, from what one step preserves. `Throughout step P` says that `P` holds in
every state of a run; `throughout_iff_meets_of_good` and `throughout_iff_meets` prove which
discipline is the exact one for it.
-/

namespace Mh40.Lib

open List

universe u v

variable {σ : Type u} {ι : Type v} {step : σ → ι → Option σ} {P : σ → ι → Prop}

/-- The state after the inputs `ls`, in order. -/
def run (step : σ → ι → Option σ) : σ → List ι → Option σ
  | s, [] => some s
  | s, l :: ls => (step s l).bind fun s' => run step s' ls

/-- Every input of the list finds the machine in a state where `P` allows it. -/
def Meets (step : σ → ι → Option σ) (P : σ → ι → Prop) : σ → List ι → Prop
  | _, [] => True
  | s, l :: ls => P s l ∧ match step s l with
    | none => True
    | some s' => Meets step P s' ls

instance Meets.decidable [∀ s l, Decidable (P s l)] :
    ∀ (s : σ) (ls : List ι), Decidable (Meets step P s ls)
  | _, [] => .isTrue trivial
  | s, l :: ls =>
    match h : step s l with
    | none => decidable_of_iff (P s l) (by simp [Meets, h])
    | some s' =>
      have := Meets.decidable s' ls
      decidable_of_iff (P s l ∧ Meets step P s' ls) (by simp [Meets, h])

theorem run_cons {s s' : σ} {l : ι} {ls : List ι} :
    run step s (l :: ls) = some s' ↔ ∃ t, step s l = some t ∧ run step t ls = some s' := by
  simp only [run, Option.bind_eq_some_iff]

theorem run_append_eq {s : σ} {ls ms : List ι} :
    run step s (ls ++ ms) = (run step s ls).bind fun t => run step t ms := by
  induction ls generalizing s with
  | nil => rfl
  | cons l ls ih =>
    rw [cons_append, run, run, Option.bind_assoc]
    exact congrArg _ (funext fun _ => ih)

theorem run_append {s s' : σ} {ls ms : List ι} :
    run step s (ls ++ ms) = some s' ↔ ∃ t, run step s ls = some t ∧ run step t ms = some s' := by
  rw [run_append_eq, Option.bind_eq_some_iff]

theorem meets_cons {s : σ} {l : ι} {ls : List ι} :
    Meets step P s (l :: ls) ↔ P s l ∧ ∀ s', step s l = some s' → Meets step P s' ls := by
  rw [Meets]
  cases step s l <;> simp

theorem Meets.tail {ls : List ι} {l : ι} {s s' : σ} (h : Meets step P s (l :: ls))
    (hs : step s l = some s') : Meets step P s' ls := by
  have := h.2
  rwa [hs] at this

/-- The prefix of a disciplined run is disciplined, and its last input is allowed. -/
theorem Meets.snoc {ls : List ι} {l : ι} {s s' : σ} (h : Meets step P s (ls ++ [l]))
    (hr : run step s ls = some s') : Meets step P s ls ∧ P s' l := by
  induction ls generalizing s with
  | nil =>
    cases hr
    exact ⟨trivial, h.1⟩
  | cons m ls ih =>
    obtain ⟨t, ht, hr'⟩ := run_cons.mp hr
    obtain ⟨hm, hP⟩ := ih (h.tail ht) hr'
    refine ⟨⟨h.1, ?_⟩, hP⟩
    rwa [ht]

/-- A prefix of a disciplined run is disciplined. -/
theorem Meets.of_prefix {ks ls : List ι} {s : σ} (h : Meets step P s ls) (hks : ks <+: ls) :
    Meets step P s ks := by
  induction ks generalizing s ls with
  | nil => trivial
  | cons k ks ih =>
    obtain ⟨ms, rfl⟩ := hks
    refine ⟨h.1, ?_⟩
    cases hs : step s k with
    | none => trivial
    | some t => exact ih (h.tail hs) ⟨ms, rfl⟩

/-- A run that keeps to two disciplines keeps to both at every step. -/
theorem Meets.and {Q : σ → ι → Prop} {ls : List ι} {s : σ} (hP : Meets step P s ls)
    (hQ : Meets step Q s ls) : Meets step (fun s l => P s l ∧ Q s l) s ls := by
  induction ls generalizing s with
  | nil => trivial
  | cons l ls ih =>
    refine ⟨⟨hP.1, hQ.1⟩, ?_⟩
    cases hs : step s l with
    | none => trivial
    | some t => exact ih (hP.tail hs) (hQ.tail hs)

/-- **The run rule.** What one allowed step preserves holds at the end of a disciplined run. -/
theorem invariant_of_meets {Inv : σ → Prop}
    (hstep : ∀ s l s', Inv s → P s l → step s l = some s' → Inv s') :
    ∀ {ls : List ι} {s s' : σ}, Inv s → Meets step P s ls → run step s ls = some s' → Inv s'
  | [], _, _, hs, _, hr => by cases hr; exact hs
  | l :: _, s, _, hs, hm, hr => by
    obtain ⟨t, ht, hr'⟩ := run_cons.mp hr
    exact invariant_of_meets hstep (hstep s l t hs hm.1 ht) (hm.tail ht) hr'

/-- What an allowed step does rightly, a disciplined run does rightly at every step. -/
theorem meets_of_meets {Inv : σ → Prop} {Q : σ → ι → Prop}
    (hstep : ∀ s l, Inv s → P s l → Q s l ∧ ∀ s', step s l = some s' → Inv s') :
    ∀ {ls : List ι} {s : σ}, Inv s → Meets step P s ls → Meets step Q s ls
  | [], _, _, _ => trivial
  | l :: _, s, hs, hm => by
    obtain ⟨hQ, hnext⟩ := hstep s l hs hm.1
    refine ⟨hQ, ?_⟩
    cases ht : step s l with
    | none => trivial
    | some t => exact meets_of_meets hstep (hnext t ht) (hm.tail ht)

/-- Two disciplines that agree on the states which one of them keeps to agree on whole runs. -/
theorem meets_iff_meets {Inv : σ → Prop} {C : σ → ι → Prop}
    (hiff : ∀ s l, Inv s → (P s l ↔ C s l))
    (hstep : ∀ s l s', Inv s → C s l → step s l = some s' → Inv s') {ls : List ι} {s : σ}
    (hs : Inv s) : Meets step P s ls ↔ Meets step C s ls := by
  constructor
  · refine meets_of_meets (fun s l hi hp => ?_) hs
    have hc := (hiff s l hi).mp hp
    exact ⟨hc, fun s' ht => hstep s l s' hi hc ht⟩
  · refine meets_of_meets (fun s l hi hc => ?_) hs
    exact ⟨(hiff s l hi).mpr hc, fun s' ht => hstep s l s' hi hc ht⟩

/-- The same in the runs of a third discipline, which keeps to these states. -/
theorem meets_iff_meets_of_meets {Inv : σ → Prop} {C D : σ → ι → Prop}
    (hiff : ∀ s l, Inv s → D s l → (P s l ↔ C s l))
    (hstep : ∀ s l s', Inv s → D s l → step s l = some s' → Inv s') {ls : List ι} {s : σ}
    (hs : Inv s) (hD : Meets step D s ls) : Meets step P s ls ↔ Meets step C s ls := by
  constructor
  · refine fun h => meets_of_meets (fun s l hi hp => ?_) hs (h.and hD)
    exact ⟨(hiff s l hi hp.2).mp hp.1, fun s' ht => hstep s l s' hi hp.2 ht⟩
  · refine fun h => meets_of_meets (fun s l hi hc => ?_) hs (h.and hD)
    exact ⟨(hiff s l hi hc.2).mpr hc.1, fun s' ht => hstep s l s' hi hc.2 ht⟩

/-- The run rule without a discipline. -/
theorem invariant_of_run {Inv : σ → Prop}
    (hstep : ∀ s l s', Inv s → step s l = some s' → Inv s') :
    ∀ {ls : List ι} {s s' : σ}, Inv s → run step s ls = some s' → Inv s'
  | [], _, _, hs, hr => by cases hr; exact hs
  | l :: _, s, _, hs, hr => by
    obtain ⟨t, ht, hr'⟩ := run_cons.mp hr
    exact invariant_of_run hstep (hstep s l t hs ht) hr'

/-- What every step does rightly from the states that it keeps, every run does rightly. -/
theorem meets_of_run {Inv : σ → Prop}
    (hstep : ∀ s l, Inv s → P s l ∧ ∀ s', step s l = some s' → Inv s') :
    ∀ {ls : List ι} {s : σ}, Inv s → Meets step P s ls
  | [], _, _ => trivial
  | l :: _, s, hs => by
    obtain ⟨hP, hnext⟩ := hstep s l hs
    exact meets_cons.mpr ⟨hP, fun s' ht => meets_of_run hstep (hnext s' ht)⟩

/-- `P` holds in every state that the inputs lead through. -/
def Throughout (step : σ → ι → Option σ) (P : σ → Prop) (s : σ) (ls : List ι) : Prop :=
  ∀ ks t, ks <+: ls → run step s ks = some t → P t

theorem throughout_cons {P : σ → Prop} {s t : σ} {l : ι} {ls : List ι} (hs : step s l = some t) :
    Throughout step P s (l :: ls) ↔ P s ∧ Throughout step P t ls := by
  constructor
  · refine fun h => ⟨h [] s nil_prefix rfl, fun ks u hks hu => ?_⟩
    exact h (l :: ks) u ((prefix_cons_inj l).mpr hks) (run_cons.mpr ⟨t, hs, hu⟩)
  · rintro ⟨hP, h⟩ (_ | ⟨k, ks⟩) u hks hu
    · cases hu
      exact hP
    · obtain ⟨rfl, hpre⟩ := cons_prefix_cons.mp hks
      obtain ⟨t', ht', hu⟩ := run_cons.mp hu
      rw [hs] at ht'
      cases ht'
      exact h ks u hpre hu

/-- **The exact run rule.** `Good` is what the runs that have the property throughout keep. When a
step from a good state is allowed by `C`, and only then, it leads to a state with the property, and
that state is good, then the states that a run leads through have the property iff `C` allows every
step of it. -/
theorem throughout_iff_meets_of_good {Good P : σ → Prop} {C : σ → ι → Prop}
    (hP : ∀ s, Good s → P s)
    (hgood : ∀ s l s', Good s → C s l → step s l = some s' → Good s')
    (hstep : ∀ s l s', Good s → step s l = some s' → P s' → C s l) :
    ∀ {ls : List ι} {s s' : σ}, Good s → run step s ls = some s' →
      (Throughout step P s ls ↔ Meets step C s ls)
  | [], s, _, hs, _ => by
    refine ⟨fun _ => trivial, fun _ ks t hks ht => ?_⟩
    obtain rfl := prefix_nil.mp hks
    cases ht
    exact hP s hs
  | l :: ls, s, _, hs, hr => by
    obtain ⟨t, ht, hr⟩ := run_cons.mp hr
    rw [throughout_cons ht]
    constructor
    · rintro ⟨-, h⟩
      have hC := hstep s l t hs ht (h [] t nil_prefix rfl)
      refine ⟨hC, ?_⟩
      rw [ht]
      exact (throughout_iff_meets_of_good hP hgood hstep (hgood s l t hs hC ht) hr).mp h
    · intro h
      have hgt := hgood s l t hs h.1 ht
      exact ⟨hP s hs, (throughout_iff_meets_of_good hP hgood hstep hgt hr).mpr (h.tail ht)⟩

/-- The exact run rule where every step keeps an invariant, and a step keeps the property iff `C`
allows it. -/
theorem throughout_iff_meets {Inv P : σ → Prop} {C : σ → ι → Prop}
    (hinv : ∀ s l s', Inv s → step s l = some s' → Inv s')
    (hstep : ∀ s l s', Inv s → P s → step s l = some s' → (C s l ↔ P s'))
    {ls : List ι} {s s' : σ} (hs : Inv s) (hP : P s) (hr : run step s ls = some s') :
    Throughout step P s ls ↔ Meets step C s ls :=
  throughout_iff_meets_of_good (fun _ (h : Inv _ ∧ P _) => h.2)
    (fun s l s' h hC ht => ⟨hinv s l s' h.1 ht, (hstep s l s' h.1 h.2 ht).mp hC⟩)
    (fun s l s' h ht hP' => (hstep s l s' h.1 h.2 ht).mpr hP') ⟨hs, hP⟩ hr

end Mh40.Lib
