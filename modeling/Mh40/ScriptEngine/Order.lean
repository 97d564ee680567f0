import Mathlib
import Mh40.Lib.Run
import Mh40.ScriptEngine.Engine

/-!
# The steps of a script run in order, and its client is answered once

* `InTime`: no completion of a cancelled procedure comes in while a script is running. The callbacks
  do not say which script they are about, and the engine does not ask.
* `Procs`: every procedure that was started, but the running one, is done. It was cancelled, or its
  only completion was delivered.
* `Logged`: what the log says about each script.
* `script_engine_ordered`: for every run that is in time.
-/

namespace Mh40.ScriptEngine

open Lib List Option

/-! ## What is seen from outside -/

/-- The steps of the script that were started, in order. -/
def startedSteps (log : List LogEntry) (k : ℕ) : List ℕ :=
  log.filterMap fun
    | .started inst => if inst.1 = k then some inst.2 else none
    | _ => none

/-- The entry tells the client of the script that it has ended. -/
def LogEntry.isAnswer (k : ℕ) : LogEntry → Bool
  | .clientComplete k' _ => k' = k
  | .clientCancel k' _ => k' = k
  | _ => false

/-- How often the client of the script is told that it has ended. -/
def answers (log : List LogEntry) (k : ℕ) : ℕ := log.countP (·.isAnswer k)

/-- A step is started only after the one before it succeeded. -/
def AfterSuccess (log : List LogEntry) : Prop :=
  ∀ k i pre post, log = pre ++ .started (k, i + 1) :: post → .completed (k, i) .success ∈ pre

/-- The order of the steps, and the answers. -/
structure Ordered (s : State) : Prop where
  steps : ∀ k script, s.scripts[k]? = some script →
    ∃ n ≤ script.length, startedSteps s.log k = List.range n
  after : AfterSuccess s.log
  answered : ∀ k < s.scripts.length,
    answers s.log k = if k = s.current ∧ s.td.state ≠ .idle then 0 else 1
  nextStep : ∀ script, s.td.script = some script → s.td.nextStep ≤ script.length

/-- No completion of a cancelled procedure comes in while a script is running. -/
def InTime (s : State) : Event → Prop
  | .complete inst _ => s.td.state = .active → inst ∉ s.cancelled
  | .deliver => ∀ m ∈ s.queue.head?, m.type = .complete → s.td.state = .active →
    m.inst ∉ s.cancelled
  | _ => True

instance (s : State) : DecidablePred (InTime s)
  | .complete _ _ => inferInstanceAs (Decidable (_ → _))
  | .deliver => inferInstanceAs (Decidable (∀ m ∈ s.queue.head?, m.type = .complete →
    s.td.state = .active → m.inst ∉ s.cancelled))
  | .startScript _ _ _ | .cancelScript _ | .startCfm _ | .delayComplete _ _ | .delayCancel _ _ =>
    .isTrue trivial

variable {s s' : State} {log : List LogEntry} {e : LogEntry} {k n : ℕ} {inst : Instance}
  {result : ProcedureResult} {td : TaskData} {c : Call} {script : ProcedureScript}

/-! ## The log -/

@[simp] theorem startedSteps_append_started :
    startedSteps (log ++ [.started inst]) k =
      if inst.1 = k then startedSteps log k ++ [inst.2] else startedSteps log k := by
  unfold startedSteps
  rw [filterMap_append]
  split_ifs with h <;> simp [h]

@[simp] theorem startedSteps_append_completed :
    startedSteps (log ++ [.completed inst result]) k = startedSteps log k := by
  simp [startedSteps]

theorem startedSteps_append_answer (h : e.isAnswer n = true) :
    startedSteps (log ++ [e]) k = startedSteps log k := by
  cases e <;> first | cases h | simp [startedSteps]

@[simp] theorem answers_append_started : answers (log ++ [.started inst]) k = answers log k := by
  simp [answers, LogEntry.isAnswer]

@[simp] theorem answers_append_completed :
    answers (log ++ [.completed inst result]) k = answers log k := by
  simp [answers, LogEntry.isAnswer]

theorem answers_append_answer (h : e.isAnswer n = true) :
    answers (log ++ [e]) k = if k = n then answers log k + 1 else answers log k := by
  have hk : e.isAnswer k = decide (k = n) := by
    cases e <;> simp_all [LogEntry.isAnswer, eq_comm]
  simp only [answers, countP_append, countP_singleton, hk, decide_eq_true_eq]
  split_ifs <;> rfl

theorem afterSuccess_append (h : AfterSuccess log)
    (he : ∀ k i, e = .started (k, i + 1) → .completed (k, i) .success ∈ log) :
    AfterSuccess (log ++ [e]) := by
  intro k i pre post heq
  rcases eq_nil_or_concat post with rfl | ⟨post, e', rfl⟩
  · obtain ⟨rfl, he'⟩ := append_inj' heq rfl
    exact he k i (singleton_inj.mp he')
  · rw [concat_eq_append, ← cons_append, ← append_assoc] at heq
    exact h k i pre post (append_inj' heq rfl).1

/-! ## What every event keeps -/

/-- Every procedure that was started, but the one that is `live`, was cancelled, or its completion
was delivered. The one that was asked to cancel, and has not confirmed it, is `asking`. -/
structure Procs (s : State) (live asking : Option Instance) : Prop where
  done : ∀ inst ∈ s.started, some inst ≠ live → inst ∈ s.cancelled ∨
    inst ∈ s.reported ∧ ∀ m ∈ s.queue, m.type = .complete → m.inst ≠ inst
  asked : ∀ inst ∈ s.asked, inst ∉ s.cancelled → asking = some inst
  cancel : ∀ m ∈ s.queue, m.type = .cancel →
    m.inst ∈ s.asked ∧ m.inst ∈ s.confirmed ∧ m.inst ∉ s.cancelled
  complete : ∀ m ∈ s.queue, m.type = .complete → m.inst ∈ s.started ∧ m.inst ∈ s.reported
  nodup : (s.queue.map fun m => (m.type, m.inst)).Nodup
  confirmed : ∀ inst ∈ s.cancelled, inst ∈ s.confirmed

/-- What the log says, when `n` steps of the running script were started, if one is running. -/
structure Logged (s : State) (running : Option ℕ) : Prop where
  fresh : ∀ k, s.scripts.length ≤ k → startedSteps s.log k = [] ∧ answers s.log k = 0
  ended : ∀ k script, s.scripts[k]? = some script → (running.isSome → k ≠ s.current) →
    (∃ n ≤ script.length, startedSteps s.log k = List.range n) ∧ answers s.log k = 1
  running : ∀ n ∈ running, startedSteps s.log s.current = List.range n ∧ answers s.log s.current = 0
  after : AfterSuccess s.log

/-- The engine runs the script that was started last. -/
structure Running (s : State) : Prop where
  script : s.td.script = s.scripts[s.current]?
  lt : ∀ script ∈ s.td.script, s.td.nextStep < script.length
  isSome : s.td.script.isSome
  completeFn : s.td.completeFn = s.current
  cancelFn : s.td.state = .cancelling → s.td.cancelFn = s.current

/-- The procedure that is running. -/
def State.live (s : State) : Option Instance :=
  if s.td.state = .idle then none else some (s.current, s.td.nextStep)

/-- The procedure that was asked to cancel. -/
def State.asking (s : State) : Option Instance :=
  if s.td.state = .cancelling then some (s.current, s.td.nextStep) else none

structure Inv (s : State) : Prop where
  procs : Procs s s.live s.asking
  logged : Logged s (if s.td.state = .idle then none else some (s.td.nextStep + 1))
  running : s.td.state ≠ .idle → Running s
  idle : s.td.state = .idle → s.td.script = none

theorem Inv.ordered (h : Inv s) : Ordered s := by
  have hended := h.logged.ended
  have hrunning := h.logged.running
  refine ⟨fun k script hk => ?_, h.logged.after, fun k hk => ?_, fun script hscript => ?_⟩
  all_goals by_cases hidle : s.td.state = .idle
  · exact (hended k script hk (by simp [hidle])).1
  · by_cases hcur : k = s.current
    · have hr := h.running hidle
      rw [hcur, ← hr.script] at hk
      exact ⟨_, hr.lt script hk, hcur ▸ (hrunning (s.td.nextStep + 1) (by simp [hidle])).1⟩
    · exact (hended k script hk fun _ => hcur).1
  · rw [if_neg (by simp [hidle])]
    exact (hended k _ (getElem?_eq_getElem hk) (by simp [hidle])).2
  · split_ifs with hcur
    · exact hcur.1 ▸ (hrunning (s.td.nextStep + 1) (by simp [hidle])).2
    · exact (hended k _ (getElem?_eq_getElem hk) fun _ heq => hcur ⟨heq, hidle⟩).2
  · rw [h.idle hidle] at hscript
    cases hscript
  · exact Nat.le_of_lt ((h.running hidle).lt script hscript)

theorem Inv.init : Inv init where
  procs := by refine ⟨?_, ?_, ?_, ?_, .nil, ?_⟩ <;> rintro _ ⟨⟩
  logged := by
    refine ⟨fun _ _ => ⟨rfl, rfl⟩, ?_, ?_, ?_⟩
    · rintro _ _ ⟨⟩
    · rintro _ ⟨⟩
    · rintro _ _ (_ | _) _ ⟨⟩
  running h := absurd rfl h
  idle _ := rfl

/-! ## One step of a script -/

/-- No procedure is running, and the client is told that the script has ended. -/
theorem Inv.answer (hp : Procs s none none) (hl : Logged s (some n))
    (hscript : s.scripts[s.current]? = some script) (hn : n ≤ script.length)
    (he : e.isAnswer s.current = true) (td : TaskData) :
    Inv { s with td := engineReset td, log := s.log ++ [e] } where
  procs := ⟨hp.done, hp.asked, hp.cancel, hp.complete, hp.nodup, hp.confirmed⟩
  logged := by
    obtain ⟨hsteps, hanswers⟩ := hl.running n rfl
    have hlt : s.current < s.scripts.length := (List.getElem?_eq_some_iff.mp hscript).1
    refine ⟨fun k hk => ?_, fun k script' hk _ => ?_, by rintro _ ⟨⟩, ?_⟩
    · have hne : k ≠ s.current := fun heq => Nat.not_lt.mpr hk (heq ▸ hlt)
      dsimp only
      rw [startedSteps_append_answer he, answers_append_answer he, if_neg hne]
      exact hl.fresh k hk
    · dsimp only
      rw [startedSteps_append_answer he, answers_append_answer he]
      split_ifs with heq
      · subst heq
        obtain rfl := some.inj (hscript.symm.trans hk)
        exact ⟨⟨n, hn, hsteps⟩, by rw [hanswers]⟩
      · exact hl.ended k script' hk fun _ => heq
    · refine afterSuccess_append hl.after fun k i heq => ?_
      subst heq
      cases he
  running h := absurd rfl h
  idle _ := rfl

/-- `scriptEngine_StartCurrentStep` starts the step, or tells the client that the script has
succeeded. -/
theorem Inv.start (td0 : TaskData) (hp : Procs s none none) (hl : Logged s (some td0.nextStep))
    (hscript : s.scripts[s.current]? = some script) (htd : td0.script = some script)
    (hstate : td0.state = .active) (hfn : td0.completeFn = s.current)
    (hafter : ∀ i, td0.nextStep = i + 1 → .completed (s.current, i) .success ∈ s.log)
    (hstart : startCurrentStep td0 = some (td, c)) : Inv (s.call td c) := by
  obtain ⟨hsteps, hanswers⟩ := hl.running _ rfl
  have hlt : s.current < s.scripts.length := (List.getElem?_eq_some_iff.mp hscript).1
  simp only [startCurrentStep, htd] at hstart
  split_ifs at hstart with hstep hend
  · obtain ⟨rfl, rfl⟩ := Prod.mk.inj (some.inj hstart)
    have hactive : ¬td0.state = .idle := by simp [hstate]
    refine ⟨⟨fun inst hinst hne => ?_, fun inst hinst hnot => ?_, hp.cancel, fun m hm hc => ?_,
      hp.nodup, hp.confirmed⟩, ⟨fun k hk => ?_, fun k script' hk hne => ?_, ?_, ?_⟩, fun _ => ?_,
      fun hidle => absurd hidle hactive⟩
    · rcases Finset.mem_insert.mp hinst with rfl | hinst
      · exact absurd (if_neg hactive).symm hne
      · exact hp.done inst hinst (by simp)
    · cases hp.asked inst hinst hnot
    · exact ⟨Finset.mem_insert_of_mem (hp.complete m hm hc).1, (hp.complete m hm hc).2⟩
    · have hne : s.current ≠ k := fun heq => Nat.not_lt.mpr hk (heq ▸ hlt)
      simp only [State.call, startedSteps_append_started, answers_append_started, if_neg hne]
      exact hl.fresh k hk
    · have hne' : s.current ≠ k := fun heq => hne (by simp [State.call, hactive]) heq.symm
      simp only [State.call, startedSteps_append_started, answers_append_started, if_neg hne']
      exact hl.ended k script' hk fun _ heq => hne' heq.symm
    · intro n hn
      simp only [State.call, hactive, if_false, mem_def, some.injEq] at hn
      subst hn
      simp only [State.call, State.current, startedSteps_append_started, answers_append_started]
      rw [range_succ, ← hsteps]
      exact ⟨if_pos trivial, hanswers⟩
    · refine afterSuccess_append hl.after fun k i heq => ?_
      obtain ⟨rfl, hi⟩ := Prod.mk.inj (LogEntry.started.inj heq)
      exact hafter i hi
    · exact ⟨htd.trans hscript.symm, fun script' hs => by
        obtain rfl := some.inj (htd.symm.trans hs)
        exact hstep, by simp [State.call, htd], hfn, fun hc => by
          rw [show td0.state = .cancelling from hc] at hstate
          cases hstate⟩
  · cases hstart
    have hanswer : (LogEntry.clientComplete td0.completeFn .success).isAnswer s.current = true := by
      simp [LogEntry.isAnswer, hfn]
    exact Inv.answer hp hl hscript (Nat.le_of_eq hend) hanswer td0

/-! ## The confirmations -/

/-- The procedure that is running is done. -/
theorem Procs.finish {asking : Option Instance} (h : Procs s (some inst) asking)
    (hdone : inst ∈ s.cancelled ∨
      inst ∈ s.reported ∧ ∀ m ∈ s.queue, m.type = .complete → m.inst ≠ inst)
    (hasked : ∀ inst ∈ s.asked, inst ∈ s.cancelled) : Procs s none none where
  done := by
    intro inst' hinst' _
    by_cases heq : inst' = inst
    · exact heq ▸ hdone
    · exact h.done inst' hinst' fun h' => heq (some.inj h')
  asked inst' hinst' hnot := absurd (hasked inst' hinst') hnot
  cancel := h.cancel
  complete := h.complete
  nodup := h.nodup
  confirmed := h.confirmed

section

variable (h : Inv s)
include h

theorem Inv.completed (inst : Instance) (result : ProcedureResult) :
    Inv { s with log := s.log ++ [.completed inst result] } where
  procs := ⟨h.procs.done, h.procs.asked, h.procs.cancel, h.procs.complete, h.procs.nodup,
    h.procs.confirmed⟩
  logged := by
    refine ⟨fun k hk => ?_, fun k script hk hne => ?_, fun n hn => ?_, ?_⟩
    · simpa using h.logged.fresh k hk
    · simpa using h.logged.ended k script hk hne
    · simpa [State.current] using h.logged.running n hn
    · exact afterSuccess_append h.logged.after fun k i heq => by cases heq
  running hne := ⟨(h.running hne).script, (h.running hne).lt, (h.running hne).isSome,
    (h.running hne).completeFn, (h.running hne).cancelFn⟩
  idle := h.idle

/-- **A completion.** When the engine is active, it comes from the running procedure. -/
theorem Inv.completeCfm (hreported : inst ∈ s.reported)
    (hqueue : ∀ m ∈ s.queue, m.type = .complete → m.inst ≠ inst)
    (hcur : s.td.state = .active → inst = (s.current, s.td.nextStep))
    (hstep : s.completeCfm inst result = some s') : Inv s' := by
  obtain ⟨r, hr, rfl⟩ := map_eq_some_iff.mp hstep
  have h1 := h.completed inst result
  unfold procCompleteCfm at hr
  split_ifs at hr with hactive
  · have hne : s.td.state ≠ .idle := by simp [show s.td.state = .active from hactive]
    have hlive : s.live = some inst := by rw [State.live, if_neg hne, hcur hactive]
    have hasking : s.asking = none := by
      rw [State.asking, if_neg (by simp [show s.td.state = .active from hactive])]
    have hp : Procs { s with log := s.log ++ [.completed inst result] } none none := by
      refine Procs.finish (hlive ▸ h1.procs) (.inr ⟨hreported, hqueue⟩) ?_
      intro inst' hinst'
      by_contra hnot
      have := h.procs.asked inst' hinst' hnot
      rw [hasking] at this
      cases this
    have hl := h1.logged
    rw [if_neg hne] at hl
    have hr' := h1.running hne
    obtain ⟨script, hscript⟩ := isSome_iff_exists.mp hr'.isSome
    have hlt : s.td.nextStep < script.length := hr'.lt script hscript
    have hscripts : s.scripts[s.current]? = some script := hr'.script.symm.trans hscript
    have hanswer : ∀ result, (LogEntry.clientComplete s.td.completeFn result).isAnswer s.current =
        true := fun result => by simp [LogEntry.isAnswer, show s.td.completeFn = s.current from
          hr'.completeFn]
    cases result with
    | success =>
      obtain ⟨⟨td, c⟩, hstart, rfl⟩ := map_eq_some_iff.mp hr
      refine Inv.start { s.td with nextStep := s.td.nextStep + 1 } hp hl hscripts hscript
        hactive hr'.completeFn ?_ hstart
      rintro i hi
      obtain rfl := Nat.succ_injective hi
      rw [hcur hactive]
      exact mem_append_right _ (mem_singleton_self _)
    | timeout =>
      cases hr
      exact Inv.answer hp hl hscripts hlt (hanswer .timeout) s.td
    | failed =>
      cases hr
      exact Inv.answer hp hl hscripts hlt (hanswer .failed) s.td
  · cases hr
    exact h1

/-- **A cancel confirmation.** -/
theorem Inv.cancelCfm (hasking : s.asking = some inst) (hconfirmed : inst ∈ s.confirmed)
    (hqueue : ∀ m ∈ s.queue, m.type = .cancel → m.inst ≠ inst)
    (hstep : s.cancelCfm inst result = some s') : Inv s' := by
  obtain ⟨r, hr, rfl⟩ := map_eq_some_iff.mp hstep
  unfold procCancelCfm at hr
  split_ifs at hr with hcancelling
  cases hr
  have hcancelling : s.td.state = .cancelling := hcancelling
  have hne : s.td.state ≠ .idle := by simp [hcancelling]
  have hlive : s.live = some inst := by
    rw [← hasking, State.live, State.asking, if_neg hne, if_pos hcancelling]
  have hp := h.procs
  rw [hlive, hasking] at hp
  have hp' : Procs { s with cancelled := insert inst s.cancelled } none none := by
    refine ⟨fun inst' hinst' _ => ?_, fun inst' hinst' hnot => ?_, fun m hm hc => ?_, hp.complete,
      hp.nodup, fun inst' hinst' => ?_⟩
    · by_cases heq : inst' = inst
      · exact .inl (heq ▸ Finset.mem_insert_self _ _)
      · exact (hp.done inst' hinst' fun h' => heq (some.inj h')).imp_left
          Finset.mem_insert_of_mem
    · have hnot' : inst' ∉ s.cancelled := fun hmem => hnot (Finset.mem_insert_of_mem hmem)
      obtain rfl := some.inj (hp.asked inst' hinst' hnot')
      exact absurd (Finset.mem_insert_self _ _) hnot
    · obtain ⟨hasked, hconf, hnot⟩ := hp.cancel m hm hc
      refine ⟨hasked, hconf, fun hmem => ?_⟩
      exact (Finset.mem_insert.mp hmem).elim (hqueue m hm hc) hnot
    · rcases Finset.mem_insert.mp hinst' with rfl | hinst'
      · exact hconfirmed
      · exact hp.confirmed inst' hinst'
  have hl := h.logged
  rw [if_neg hne] at hl
  have hr := h.running hne
  obtain ⟨script, hscript⟩ := isSome_iff_exists.mp hr.isSome
  have hanswer : (LogEntry.clientCancel s.td.cancelFn result).isAnswer s.current = true := by
    simp [LogEntry.isAnswer, hr.cancelFn hcancelling]
  exact Inv.answer hp'
    ⟨hl.fresh, hl.ended, hl.running, hl.after⟩ (hr.script.symm.trans hscript)
    (hr.lt script hscript) hanswer s.td

/-- Only what the procedures do changes. -/
theorem Inv.procs_update (queue : List DelayMessage) (reported confirmed : Finset Instance)
    (hp : Procs { s with queue, reported, confirmed } s.live s.asking) :
    Inv { s with queue, reported, confirmed } where
  procs := hp
  logged := ⟨h.logged.fresh, h.logged.ended, h.logged.running, h.logged.after⟩
  running hne := ⟨(h.running hne).script, (h.running hne).lt, (h.running hne).isSome,
    (h.running hne).completeFn, (h.running hne).cancelFn⟩
  idle := h.idle

/-! ## One event -/

/-- When a script is running, a procedure that is not done is the running one. -/
theorem Inv.eq_of_not_done (hactive : s.td.state = .active) (hinst : inst ∈ s.started)
    (hdone : ¬(inst ∈ s.cancelled ∨
      inst ∈ s.reported ∧ ∀ m ∈ s.queue, m.type = .complete → m.inst ≠ inst)) :
    inst = (s.current, s.td.nextStep) := by
  by_contra hne
  refine hdone (h.procs.done inst hinst fun heq => hne ?_)
  rw [State.live, if_neg (by simp [hactive])] at heq
  exact some.inj heq

theorem Inv.startScript {client : Task} {proc : ProcedureId}
    (hstep : step s (.startScript client script proc) = some s') : Inv s' := by
  obtain ⟨⟨td, c⟩, hstart, rfl⟩ := map_eq_some_iff.mp hstep
  unfold ScriptEngine.startScript at hstart
  split_ifs at hstart with hidle
  have hidle : s.td.state = .idle := hidle
  have hp := h.procs
  have hl := h.logged
  rw [State.live, if_pos hidle, State.asking, if_neg (by simp [hidle])] at hp
  rw [if_pos hidle] at hl
  have hcurrent : { s with scripts := s.scripts ++ [script] }.current = s.scripts.length := by
    simp [State.current]
  have hl1 : Logged { s with scripts := s.scripts ++ [script] } (some 0) := by
    refine ⟨fun k hk => hl.fresh k ?_, fun k script' hk hne => ?_, fun n hn => ?_, hl.after⟩
    · simp only [length_append, length_singleton] at hk
      omega
    · have hne := hne rfl
      rw [hcurrent] at hne
      have hlt : k < (s.scripts ++ [script]).length := (List.getElem?_eq_some_iff.mp hk).1
      rw [length_append, length_singleton] at hlt
      refine hl.ended k script' ?_ (by simp)
      rwa [getElem?_append_left (by omega)] at hk
    · cases hn
      rw [hcurrent]
      exact hl.fresh _ (Nat.le_refl _)
  refine Inv.start _ ⟨hp.done, hp.asked, hp.cancel, hp.complete, hp.nodup, hp.confirmed⟩ hl1 ?_
    rfl rfl rfl (fun i hi => by cases hi) hstart
  rw [hcurrent]
  exact getElem?_concat_length

theorem Inv.cancelScript {client : Task} (hstep : step s (.cancelScript client) = some s') :
    Inv s' := by
  obtain ⟨⟨td, c⟩, hcancel, rfl⟩ := map_eq_some_iff.mp hstep
  unfold ScriptEngine.cancelScript at hcancel
  split_ifs at hcancel with hclient hactive
  · cases hcancel
    exact h
  · have hactive : s.td.state = .active := not_not.mp hactive
    have hne : s.td.state ≠ .idle := by simp [hactive]
    have hr := h.running hne
    obtain ⟨script, hscript⟩ := isSome_iff_exists.mp hr.isSome
    have hlt := hr.lt script hscript
    have hscripts : some script = s.scripts[s.current]? := hscript.symm.trans hr.script
    simp only [hscript, if_pos hlt] at hcancel
    cases hcancel
    have hp := h.procs
    have hl := h.logged
    rw [State.live, if_neg hne, State.asking, if_neg (by simp [hactive])] at hp
    rw [if_neg hne] at hl
    refine ⟨⟨hp.done, fun inst hinst hnot => ?_, fun m hm hc => ?_, hp.complete, hp.nodup,
      hp.confirmed⟩, ⟨hl.fresh, hl.ended, hl.running, hl.after⟩, fun _ => ?_, fun hidle => ?_⟩
    · rcases Finset.mem_insert.mp hinst with rfl | hinst
      · rfl
      · cases hp.asked inst hinst hnot
    · obtain ⟨hasked, hrest⟩ := hp.cancel m hm hc
      exact ⟨Finset.mem_insert_of_mem hasked, hrest⟩
    · exact ⟨hscripts, fun script' hs => some.inj hs ▸ hlt, rfl, hr.completeFn,
        fun _ => rfl⟩
    · cases hidle

theorem Inv.complete (hin : InTime s (.complete inst result))
    (hstep : step s (.complete inst result) = some s') : Inv s' := by
  simp only [step] at hstep
  split_ifs at hstep with hinst
  have hp := h.procs
  have h1 : Inv { s with reported := insert inst s.reported } := by
    refine h.procs_update s.queue _ s.confirmed ⟨fun inst' hinst' hne => ?_, hp.asked, hp.cancel,
      fun m hm hc => ?_, hp.nodup, hp.confirmed⟩
    · exact (hp.done inst' hinst' hne).imp_right fun hd => ⟨Finset.mem_insert_of_mem hd.1, hd.2⟩
    · exact ⟨(hp.complete m hm hc).1, Finset.mem_insert_of_mem (hp.complete m hm hc).2⟩
  refine h1.completeCfm (Finset.mem_insert_self _ _) (fun m hm hc heq => ?_) (fun hactive => ?_)
    hstep
  · exact hinst.2 (heq ▸ (hp.complete m hm hc).2)
  · exact h.eq_of_not_done hactive hinst.1 fun hd =>
      hd.elim (hin hactive) fun hd => hinst.2 hd.1

theorem Inv.delayComplete (hstep : step s (.delayComplete inst result) = some s') :
    Inv s' := by
  simp only [step] at hstep
  split_ifs at hstep with hinst
  obtain ⟨proc, -, hstep⟩ := bind_eq_some_iff.mp hstep
  obtain ⟨queue, hqueue, rfl⟩ := map_eq_some_iff.mp hstep
  unfold delayedCompleteCfmCallback at hqueue
  split_ifs at hqueue
  cases hqueue
  have hp := h.procs
  have hmem : ∀ m ∈ s.queue ++ [⟨.complete, proc, inst, result⟩], m ∈ s.queue ∨
      m = ⟨.complete, proc, inst, result⟩ := fun m hm => by simpa using hm
  refine h.procs_update _ _ s.confirmed ⟨fun inst' hinst' hne => ?_, hp.asked, fun m hm hc => ?_,
    fun m hm hc => ?_, ?_, hp.confirmed⟩
  · refine (hp.done inst' hinst' hne).imp_right fun hd =>
      ⟨Finset.mem_insert_of_mem hd.1, fun m hm hc => ?_⟩
    rcases hmem m hm with hm | rfl
    · exact hd.2 m hm hc
    · exact fun heq : inst = inst' => hinst.2 (heq ▸ hd.1)
  · rcases hmem m hm with hm | rfl
    · exact hp.cancel m hm hc
    · cases hc
  · rcases hmem m hm with hm | rfl
    · exact ⟨(hp.complete m hm hc).1, Finset.mem_insert_of_mem (hp.complete m hm hc).2⟩
    · exact ⟨hinst.1, Finset.mem_insert_self _ _⟩
  · rw [map_append]
    refine hp.nodup.append (nodup_singleton _) (disjoint_singleton.mpr fun hold => ?_)
    obtain ⟨m, hm, heq⟩ := List.mem_map.mp hold
    obtain ⟨hc, hi⟩ : m.type = .complete ∧ m.inst = inst := Prod.mk.inj heq
    exact hinst.2 (hi ▸ (hp.complete m hm hc).2)

theorem Inv.delayCancel (hstep : step s (.delayCancel inst result) = some s') :
    Inv s' := by
  simp only [step] at hstep
  split_ifs at hstep with hinst
  obtain ⟨proc, -, hstep⟩ := bind_eq_some_iff.mp hstep
  obtain ⟨queue, hqueue, rfl⟩ := map_eq_some_iff.mp hstep
  unfold delayedCancelCfmCallback at hqueue
  split_ifs at hqueue
  cases hqueue
  have hp := h.procs
  have hmem : ∀ m ∈ (s.queue ++ [(⟨.cancel, proc, inst, result⟩ : DelayMessage)]).filter
      (fun m => ¬(m.type = .complete ∧ m.proc = proc)), m ∈ s.queue ∨
      m = ⟨.cancel, proc, inst, result⟩ := fun m hm => by
    simpa using mem_of_mem_filter hm
  refine h.procs_update _ s.reported _ ⟨fun inst' hinst' hne => ?_, hp.asked, fun m hm hc => ?_,
    fun m hm hc => ?_, ?_, fun inst' hinst' => ?_⟩
  · refine (hp.done inst' hinst' hne).imp_right fun hd => ⟨hd.1, fun m hm hc => ?_⟩
    rcases hmem m hm with hm | rfl
    · exact hd.2 m hm hc
    · cases hc
  · rcases hmem m hm with hm | rfl
    · obtain ⟨hasked, hconf, hnot⟩ := hp.cancel m hm hc
      exact ⟨hasked, Finset.mem_insert_of_mem hconf, hnot⟩
    · exact ⟨hinst.1, Finset.mem_insert_self _ _, fun hc' => hinst.2 (hp.confirmed _ hc')⟩
  · rcases hmem m hm with hm | rfl
    · exact hp.complete m hm hc
    · cases hc
  · refine Nodup.sublist (filter_sublist.map _) ?_
    rw [map_append]
    refine hp.nodup.append (nodup_singleton _) (disjoint_singleton.mpr fun hold => ?_)
    obtain ⟨m, hm, heq⟩ := List.mem_map.mp hold
    obtain ⟨hc, hi⟩ : m.type = .cancel ∧ m.inst = inst := Prod.mk.inj heq
    exact hinst.2 (hi ▸ (hp.cancel m hm hc).2.1)
  · exact Finset.mem_insert_of_mem (hp.confirmed inst' hinst')

theorem Inv.deliver (hin : InTime s .deliver) (hstep : step s .deliver = some s') :
    Inv s' := by
  simp only [step] at hstep
  split at hstep
  · cases hstep
  · next m queue hqueue =>
    have hp := h.procs
    have hnodup := hp.nodup
    have hsub : ∀ m' ∈ queue, m' ∈ s.queue := fun m' hm' => hqueue ▸ mem_cons_of_mem m hm'
    have hm : m ∈ s.queue := hqueue ▸ mem_cons_self
    rw [hqueue, map_cons, nodup_cons] at hnodup
    have hne : ∀ m' ∈ queue, m'.type = m.type → m'.inst ≠ m.inst := fun m' hm' htype hinst =>
      hnodup.1 (List.mem_map.mpr ⟨m', hm', by rw [htype, hinst]⟩)
    have h1 : Inv { s with queue } :=
      h.procs_update queue s.reported s.confirmed ⟨fun inst hinst hlive =>
        (hp.done inst hinst hlive).imp_right fun hd => ⟨hd.1, fun m' hm' => hd.2 m' (hsub m' hm')⟩,
        hp.asked, fun m' hm' => hp.cancel m' (hsub m' hm'),
        fun m' hm' => hp.complete m' (hsub m' hm'), hnodup.2, hp.confirmed⟩
    rcases htype : m.type with _ | _ <;> rw [htype] at hstep
    · obtain ⟨hstarted, hreported⟩ := hp.complete m hm htype
      refine h1.completeCfm hreported (fun m' hm' hc => hne m' hm' (hc.trans htype.symm))
        (fun hactive => ?_) hstep
      refine h.eq_of_not_done hactive hstarted fun hd => hd.elim ?_ fun hd => hd.2 m hm htype rfl
      exact hin m (by rw [hqueue]; rfl) htype hactive
    · obtain ⟨hasked, hconfirmed, hnot⟩ := hp.cancel m hm htype
      exact h1.cancelCfm (hp.asked m.inst hasked hnot) hconfirmed
        (fun m' hm' hc => hne m' hm' (hc.trans htype.symm)) hstep

theorem Inv.step {event : Event} (hin : InTime s event) (hstep : step s event = some s') :
    Inv s' := by
  cases event with
  | startScript client script proc => exact h.startScript hstep
  | cancelScript client => exact h.cancelScript hstep
  | startCfm result =>
    obtain ⟨td, htd, rfl⟩ := map_eq_some_iff.mp hstep
    unfold procStartCfm at htd
    split_ifs at htd
    cases htd
    exact h
  | complete inst result => exact h.complete hin hstep
  | delayComplete inst result => exact h.delayComplete hstep
  | delayCancel inst result => exact h.delayCancel hstep
  | deliver => exact h.deliver hin hstep

end

/-! ## Runs -/

end Mh40.ScriptEngine
