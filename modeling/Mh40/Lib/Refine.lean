import Mh40.Lib.Run

/-!
# Refinement of machines with outputs

A machine is one partial step function `step : σ → ι → Option (σ × ω)`: `none` is an input that it
does not survive. `outputs` folds it over a list of inputs and collects what it gives out.

* `Answers R`: one outcome answers another. Both fail, or both give out the same, in related states.
* `outputs_answers`: the run rule. When every step that the abstract machine may take is answered,
  so is every run.
-/

namespace Mh40.Lib

universe u v w x

variable {σ : Type u} {τ : Type v} {ι : Type w} {ω : Type x}

/-- The state after the inputs, in order, and the outputs. -/
def outputs (step : σ → ι → Option (σ × ω)) : σ → List ι → Option (σ × List ω)
  | s, [] => some (s, [])
  | s, l :: ls => (step s l).bind fun r => (outputs step r.1 ls).map fun q => (q.1, r.2 :: q.2)

/-- The concrete outcome `r` answers the abstract outcome `q`. -/
def Answers {α : Type x} (R : σ → τ → Prop) (r : Option (σ × α)) : Option (τ × α) → Prop
  | none => r = none
  | some (t, a) => ∃ s, r = some (s, a) ∧ R s t

theorem Answers.mono {α : Type x} {R R' : σ → τ → Prop} {r : Option (σ × α)}
    {q : Option (τ × α)} (h : Answers R r q) (hR : ∀ s t, R s t → R' s t) : Answers R' r q := by
  rcases q with _ | ⟨t, a⟩
  · exact h
  · obtain ⟨s, hs, ht⟩ := h
    exact ⟨s, hs, hR s t ht⟩

/-- The steps of a machine without their outputs. -/
def silent (step : τ → ι → Option (τ × ω)) (t : τ) (l : ι) : Option τ := (step t l).map Prod.fst

variable {stepS : σ → ι → Option (σ × ω)} {stepT : τ → ι → Option (τ × ω)} {R : σ → τ → Prop}
  {P : τ → ι → Prop}

/-- **The run rule.** Answered steps give answered runs. -/
theorem outputs_answers (hstep : ∀ s t l, R s t → P t l → Answers R (stepS s l) (stepT t l)) :
    ∀ {ls : List ι} {s : σ} {t : τ}, R s t → Meets (silent stepT) P t ls →
      Answers R (outputs stepS s ls) (outputs stepT t ls)
  | [], s, _, hR, _ => ⟨s, rfl, hR⟩
  | l :: ls, s, t, hR, hm => by
    have hs := hstep s t l hR hm.1
    unfold outputs
    rcases ht : stepT t l with _ | ⟨t', a⟩ <;> rw [ht] at hs
    · rw [show stepS s l = none from hs]
      rfl
    · obtain ⟨s', hs', hR'⟩ := hs
      have hrest := outputs_answers hstep hR' (hm.tail (by rw [silent, ht]; rfl))
      rw [hs', Option.bind_some, Option.bind_some]
      rcases hr : outputs stepT t' ls with _ | ⟨t'', as⟩ <;> rw [hr] at hrest
      · rw [show outputs stepS s' ls = none from hrest]
        rfl
      · obtain ⟨s'', hs'', hR''⟩ := hrest
        exact ⟨s'', by rw [hs'']; rfl, hR''⟩

end Mh40.Lib
