import Mh40.Lib.Run
import Mh40.RulesEngine.Update

/-!
# The engine as a machine

`RulesEngine_RunRules` calls the rule functions one after the other, and what matters is where the
rule set stands at each of these calls. So the machine takes the engine apart into the calls and,
inside a pass, the visits of the rules: `Engine` adds the loop index `next` to the state of the
loop (`next = n` between the calls), and a `visit` carries what the rule function does.

* `visitRule_cases`: everything one visit can do.
* **`calls_eq_run`**: the calls of `Engine.lean`, one after the other, are a run of the machine, so a
  result about the machine's runs is about them.
-/

namespace Mh40.RulesEngine

open Lib Option List

variable {n : ℕ} {rules : Fin n → RuleEntry}

/-- The engine between two visits of a pass, or between two calls when `next = n`. -/
structure Engine (n : ℕ) where
  pass : Pass n
  next : ℕ

/-- The rule set of the engine. -/
abbrev Engine.ruleSet (e : Engine n) : RuleSet n := e.pass.ruleSet

inductive Label where
  | setEvent (eventMask : RuleEvents)
  | resetEvent (event : RuleEvents)
  | setRuleWithEventComplete (message : MessageId) (event : RuleEvents)
  | visit (o : RuleOutcome)
  deriving Repr, DecidableEq

/-- The start of `RulesEngine_RunRules`. -/
def check (rs : RuleSet n) (sent : List Output) : Engine n :=
  { pass := { ruleSet := rs, events := rs.events, sent }, next := 0 }

/-- The engine with a new rule set. -/
def create : Engine n := { check createRuleSet [] with next := n }

/-- One step: a call of the engine when no pass is running, or the next visit of the pass. -/
def step (rules : Fin n → RuleEntry) (e : Engine n) : Label → Option (Engine n)
  | .setEvent eventMask =>
    if e.next = n then
      some (check { e.ruleSet with events := e.ruleSet.events ||| eventMask } [])
    else none
  | .resetEvent event =>
    if e.next = n then
      some { e with pass := { e.pass with ruleSet := resetEvent rules e.ruleSet event } }
    else none
  | .setRuleWithEventComplete message event =>
    if e.next = n then
      (completeInProgress rules e.ruleSet message event).map fun r => check r.1 r.2
    else none
  | .visit o =>
    if h : e.next < n then
      (visitRule rules ⟨e.next, h⟩ o e.pass).map fun pass => { pass, next := e.next + 1 }
    else none

/-- Two rules of the event 0. -/
def twoRules : Fin 2 → RuleEntry
  | 0 => ⟨0x1, .noFlags, 1⟩
  | 1 => ⟨0x1, .noFlags, 2⟩

/-! ## One visit -/

/-- The visit calls the rule function. -/
def Evaluated (rules : Fin n → RuleEntry) (i : Fin n) (p : Pass n) : Prop :=
  Matches rules p.events i ∧ p.ruleSet.rulesState i ≠ .complete ∧
    p.ruleSet.rulesState i ≠ .inProgress

instance (i : Fin n) (p : Pass n) : Decidable (Evaluated rules i p) := by
  unfold Evaluated
  infer_instance

/-- The next visit calls the function of the rule `i`. -/
def Evaluates (rules : Fin n → RuleEntry) (e : Engine n) (i : Fin n) : Prop :=
  i.val = e.next ∧ Evaluated rules i e.pass

instance (e : Engine n) (i : Fin n) : Decidable (Evaluates rules e i) := by
  unfold Evaluates
  infer_instance

/-- The visit completes the rule `i`. -/
def Finishes (rules : Fin n → RuleEntry) (e : Engine n) (o : RuleOutcome) (i : Fin n) : Prop :=
  Evaluates rules e i ∧ Ordinary rules i ∧ (o.action = .complete ∨ o.action = .ignore)

instance (e : Engine n) (o : RuleOutcome) (i : Fin n) : Decidable (Finishes rules e o i) := by
  unfold Finishes
  infer_instance

/-- The selector with which a visited rule is completed. -/
def ownSelector (rules : Fin n → RuleEntry) (st : Fin n → RuleStatus) (i : Fin n) : Selector :=
  ⟨(rules i).message, st i, (rules i).events⟩

/-- What one visit of the rule `i` does. -/
inductive Visited (rules : Fin n → RuleEntry) (i : Fin n) (o : RuleOutcome) (p p' : Pass n) : Prop
  | skipped (he : ¬ Evaluated rules i p)
      (hw : Matches rules p.events i → p.ruleSet.rulesState i ≠ .inProgress) (h : p' = p)
  | waiting (hm : Matches rules p.events i) (hs : p.ruleSet.rulesState i = .inProgress)
      (h : p' = { p with events := p.events &&& ~~~(rules i).events })
  | always (he : Evaluated rules i p) (ho : ¬ Ordinary rules i)
      (hev : p'.ruleSet.events = p.ruleSet.events)
      (hst : p'.ruleSet.rulesState = p.ruleSet.rulesState) (hl : p'.events = p.events)
  | ran (he : Evaluated rules i p) (ho : Ordinary rules i)
      (ha : o.action = .run ∨ o.action = .runWithParam)
      (hev : p'.ruleSet.events = p.ruleSet.events)
      (hst : p'.ruleSet.rulesState = Function.update p.ruleSet.rulesState i .inProgress)
      (hl : p'.events = p.events &&& ~~~(rules i).events)
  | finished (he : Evaluated rules i p) (ho : Ordinary rules i)
      (ha : o.action = .complete ∨ o.action = .ignore) (rs rs' : RuleSet n) (did : Bool)
      (hrs : rs.events = p.ruleSet.events ∧ rs.rulesState = p.ruleSet.rulesState)
      (hu : updateRuleStatus rules (ownSelector rules rs.rulesState i) .complete rs =
        some (rs', did)) (h : p'.ruleSet = rs') (hl : p'.events = p.events)
  | deferred (he : Evaluated rules i p) (ho : Ordinary rules i) (ha : o.action = .defer)
      (hev : p'.ruleSet.events = p.ruleSet.events)
      (hst : p'.ruleSet.rulesState = Function.update p.ruleSet.rulesState i .deferred)
      (hl : p'.events = p.events)

theorem copyRunParams_frame {rs rs' : RuleSet n} {param : Option (List UInt8)}
    (h : copyRunParams rs param = some rs') :
    rs'.events = rs.events ∧ rs'.rulesState = rs.rulesState := by
  cases param with
  | none =>
    cases h
    exact ⟨rfl, rfl⟩
  | some data =>
    simp only [copyRunParams] at h
    split at h
    · cases h
      exact ⟨rfl, rfl⟩
    · cases h

theorem sendMessage_frame {i : Fin n} {action : RuleAction} {rs rs' : RuleSet n} {out : Output}
    (h : sendMessage rules i action rs = some (rs', out)) :
    rs'.events = rs.events ∧ rs'.rulesState = rs.rulesState := by
  unfold sendMessage at h
  split at h <;> cases h <;> exact ⟨rfl, rfl⟩

theorem startRule_visited {i : Fin n} {o : RuleOutcome} {p p1 p' : Pass n}
    (h : startRule rules i o.action p1 = some p') (he : Evaluated rules i p)
    (hev : p1.ruleSet.events = p.ruleSet.events)
    (hst : p1.ruleSet.rulesState = p.ruleSet.rulesState) (hl : p1.events = p.events)
    (ha : o.action = .run ∨ o.action = .runWithParam) : Visited rules i o p p' := by
  unfold startRule at h
  split at h
  · rename_i hflag
    obtain ⟨⟨rs, out⟩, hs, rfl⟩ := map_eq_some_iff.mp h
    obtain ⟨hev', hst'⟩ := sendMessage_frame hs
    exact .always he (fun ho => ho hflag) (hev'.trans hev) (hst'.trans hst) hl
  · obtain ⟨st, hset, h⟩ := bind_eq_some_iff.mp h
    obtain ⟨ho, rfl⟩ := setRuleStatus_eq_some.mp hset
    obtain ⟨⟨rs, out⟩, hs, rfl⟩ := map_eq_some_iff.mp h
    obtain ⟨hev', hst'⟩ := sendMessage_frame hs
    exact .ran he ho ha (hev'.trans hev) (hst'.trans (hst ▸ rfl)) (hl ▸ rfl)

theorem finishRule_visited {i : Fin n} {o : RuleOutcome} {p p1 p' : Pass n}
    (h : finishRule rules i p1 = some p') (he : Evaluated rules i p)
    (hev : p1.ruleSet.events = p.ruleSet.events)
    (hst : p1.ruleSet.rulesState = p.ruleSet.rulesState) (hl : p1.events = p.events)
    (ha : o.action = .complete ∨ o.action = .ignore) : Visited rules i o p p' := by
  unfold finishRule at h
  split at h
  · rename_i hflag
    cases h
    exact .always he (fun ho => ho hflag) hev hst hl
  · rename_i ho
    obtain ⟨⟨rs, did⟩, hu, rfl⟩ := map_eq_some_iff.mp h
    exact .finished he ho ha p1.ruleSet rs did ⟨hev, hst⟩ hu rfl hl

/-- **Everything one visit can do.** -/
theorem visitRule_cases {i : Fin n} {o : RuleOutcome} {p p' : Pass n}
    (h : visitRule rules i o p = some p') : Visited rules i o p p' := by
  unfold visitRule at h
  split at h
  · rename_i hm
    split at h
    · rename_i hs
      cases h
      exact .skipped (fun he => he.2.1 hs) (fun _ hp => by rw [hs] at hp; cases hp) rfl
    · rename_i hs
      cases h
      exact .waiting hm hs rfl
    · rename_i hc hp
      have he : Evaluated rules i p := ⟨hm, hc, hp⟩
      unfold evaluateRule at h
      obtain ⟨rs, hrs, h⟩ := bind_eq_some_iff.mp h
      obtain ⟨hev, hst⟩ := copyRunParams_frame hrs
      obtain ⟨action, param⟩ := o
      cases action with
      | run => exact startRule_visited h he hev hst rfl (.inl rfl)
      | runWithParam => exact startRule_visited h he hev hst rfl (.inr rfl)
      | complete => exact finishRule_visited h he hev hst rfl (.inl rfl)
      | ignore => exact finishRule_visited h he hev hst rfl (.inr rfl)
      | defer =>
        obtain ⟨st, hset, rfl⟩ := map_eq_some_iff.mp h
        obtain ⟨ho, rfl⟩ := setRuleStatus_eq_some.mp hset
        exact .deferred he ho rfl hev (hst ▸ rfl) rfl
  · rename_i hm
    cases h
    exact .skipped (fun he => hm he.1) (fun h => absurd h hm) rfl

/-! ## One step -/

theorem step_visit {e e' : Engine n} {o : RuleOutcome} (h : step rules e (.visit o) = some e') :
    ∃ hn : e.next < n, Visited rules ⟨e.next, hn⟩ o e.pass e'.pass ∧ e'.next = e.next + 1 := by
  simp only [step] at h
  split at h
  · rename_i hn
    obtain ⟨p, hp, rfl⟩ := map_eq_some_iff.mp h
    exact ⟨hn, visitRule_cases hp, rfl⟩
  · cases h

theorem step_setEvent {e e' : Engine n} {eventMask : RuleEvents}
    (h : step rules e (.setEvent eventMask) = some e') :
    e.next = n ∧
      e' = check { e.ruleSet with events := e.ruleSet.events ||| eventMask } [] := by
  simp only [step] at h
  split at h
  · rename_i hn
    cases h
    exact ⟨hn, rfl⟩
  · cases h

theorem step_resetEvent {e e' : Engine n} {event : RuleEvents}
    (h : step rules e (.resetEvent event) = some e') :
    e.next = n ∧
      e' = { e with pass := { e.pass with ruleSet := resetEvent rules e.ruleSet event } } := by
  simp only [step] at h
  split at h
  · rename_i hn
    cases h
    exact ⟨hn, rfl⟩
  · cases h

theorem step_setRuleWithEventComplete {e e' : Engine n} {message : MessageId} {event : RuleEvents}
    (h : step rules e (.setRuleWithEventComplete message event) = some e') :
    e.next = n ∧ ∃ rs did sent,
      updateRuleStatus rules ⟨message, .inProgress, event⟩ .complete e.ruleSet = some (rs, did) ∧
        e' = check rs sent := by
  simp only [step] at h
  split at h
  · rename_i hn
    obtain ⟨⟨rs, sent⟩, hc, rfl⟩ := map_eq_some_iff.mp h
    obtain ⟨⟨rs₁, did⟩, hu, h⟩ := map_eq_some_iff.mp hc
    cases h
    exact ⟨hn, _, did, _, hu, rfl⟩
  · cases h

/-! ## The calls are runs -/

/-- The visits of one pass. -/
def visits (outcome : Fin n → RuleOutcome) : List Label :=
  (List.finRange n).map fun i => .visit (outcome i)

theorem run_visits_from {outcome : Fin n → RuleOutcome} :
    ∀ (l : List (Fin n)) (k : ℕ) (p : Pass n), l.map Fin.val = List.range' k l.length →
      run (step rules) ⟨p, k⟩ (l.map fun i => .visit (outcome i)) =
        (l.foldlM (fun p i => visitRule rules i (outcome i) p) p).map (⟨·, k + l.length⟩)
  | [], k, p, _ => rfl
  | i :: l, k, p, h => by
    rw [map_cons, length_cons, range'_succ, cons.injEq] at h
    obtain ⟨rfl, h⟩ := h
    rw [map_cons, run, foldlM_cons, step]
    simp only [i.isLt, dite_true]
    cases hp : visitRule rules i (outcome i) p with
    | none => rfl
    | some p1 =>
      rw [length_cons, ← Nat.add_assoc, Nat.add_right_comm]
      exact run_visits_from l (i + 1) p1 h

theorem run_visits (outcome : Fin n → RuleOutcome) (p : Pass n) :
    run (step rules) ⟨p, 0⟩ (visits outcome) =
      ((finRange n).foldlM (fun p i => visitRule rules i (outcome i) p) p).map (⟨·, n⟩) := by
  unfold visits
  rw [run_visits_from _ _ _ (by simp [range_eq_range']), length_finRange, Nat.zero_add]

/-- A call of the engine, with what the rule functions do in its pass. -/
inductive Call (n : ℕ)
  | setEvent (eventMask : RuleEvents) (outcome : Fin n → RuleOutcome)
  | resetEvent (event : RuleEvents)
  | setRuleWithEventComplete (message : MessageId) (event : RuleEvents)
      (outcome : Fin n → RuleOutcome)

/-- The call, and what its pass sends. -/
def call (rules : Fin n → RuleEntry) (s : RuleSet n × List Output) :
    Call n → Option (RuleSet n × List Output)
  | .setEvent eventMask outcome => setEvent rules outcome s.1 eventMask
  | .resetEvent event => some (resetEvent rules s.1 event, s.2)
  | .setRuleWithEventComplete message event outcome =>
    setRuleWithEventComplete rules outcome s.1 message event

def Call.labels : Call n → List Label
  | .setEvent eventMask outcome => .setEvent eventMask :: visits outcome
  | .resetEvent event => [.resetEvent event]
  | .setRuleWithEventComplete message event outcome =>
    .setRuleWithEventComplete message event :: visits outcome

variable (rules) in
/-- A pass ends behind its last rule. -/
theorem call_eq_run (c : Call n) (p : Pass n) :
    ∃ r : Option (Pass n), run (step rules) ⟨p, n⟩ c.labels = r.map (⟨·, n⟩) ∧
      call rules (p.ruleSet, p.sent) c = r.map fun p => (p.ruleSet, p.sent) := by
  cases c with
  | setEvent eventMask outcome =>
    refine ⟨_, ?_, rfl⟩
    rw [Call.labels, run, step, if_pos rfl]
    exact run_visits outcome _
  | resetEvent event => exact ⟨some _, by rw [Call.labels, run, step, if_pos rfl]; rfl, rfl⟩
  | setRuleWithEventComplete message event outcome =>
    rw [Call.labels, run, step, if_pos rfl, call, setRuleWithEventComplete]
    cases completeInProgress rules p.ruleSet message event with
    | none => exact ⟨none, rfl, rfl⟩
    | some r => exact ⟨_, run_visits outcome _, rfl⟩

/-- **Every history of calls is a run of the machine**, that visits every rule once in each pass. -/
theorem calls_eq_run (calls : List (Call n)) (p : Pass n) :
    run (call rules) (p.ruleSet, p.sent) calls =
      (run (step rules) ⟨p, n⟩ (calls.flatMap Call.labels)).map
        fun e => (e.ruleSet, e.pass.sent) := by
  induction calls generalizing p with
  | nil => rfl
  | cons c calls ih =>
    obtain ⟨r, hrun, hcall⟩ := call_eq_run rules c p
    rw [run, hcall, flatMap_cons, run_append_eq, hrun]
    cases r with
    | none => rfl
    | some p => exact ih p

end Mh40.RulesEngine
