import Mathlib.Data.List.Dedup
import Mh40.GattManager.Server
import Mh40.Lib.Run

/-!
# Reliable writes over several servers

A ledger beside the manager keeps what the remote device asked for: the handles of the prepared
writes since the last execute, and the messages of the last execute that are not answered.

* `Right`: what an execute and an answer to it must do.
* `Allowed`: when they do. An execute needs prepared writes before it, none of them while the last
  execute is not answered; the flags must stand for the tasks, so no two of the ranges with a
  written handle may share a task, and the first range of each task must be the one; and after an
  execute that failed no execute may succeed, since the result is never set back.
* `Inv`: the flags and the result against the ledger.
* `reliable_writes`: every run of allowed steps is right, with one response for each execute.
-/

namespace Mh40.GattManager

open Lib List Option

/-- The task that a handle belongs to. -/
def owner (d : GattManagerData) (handle : BitVec 16) : Task :=
  ((resolveServerHandle d handle).map Prod.fst).getD d.applicationTask

/-- What became of the prepared writes and the executes. -/
structure Ledger where
  /-- The handles of the prepared writes since the last execute. -/
  handles : List (BitVec 16)
  /-- The tasks that were sent the last execute, without the answers: one entry for a message. -/
  waiting : List Task
  /-- A task reported a failure for the last execute. -/
  failed : Bool
  /-- A task reported a failure for an earlier one. -/
  failedBefore : Bool
  executes : ℕ
  /-- The responses with handle 0 that reached the GATT library. -/
  responses : ℕ
deriving DecidableEq

/-- The manager and the ledger. -/
structure System where
  data : GattManagerData
  ledger : Ledger

/-- The tasks that received a prepared write since the last execute. -/
def System.written (s : System) : List Task := s.ledger.handles.map (owner s.data)

/-- An input of the manager. -/
inductive Event where
  | accessInd (ind : AccessInd)
  | accessResponse (task : Task) (cid handle result : BitVec 16) (value : List (BitVec 8))
deriving DecidableEq, Repr

/-- The ledger after an indication that was sent to these tasks. -/
def Ledger.indicate (l : Ledger) (sent : List Task) (ind : AccessInd) : Ledger :=
  if ind.handle ≠ 0 then
    if ind.isPendingWrite then { l with handles := ind.handle :: l.handles } else l
  else { l with
    handles := []
    waiting := sent
    failed := false
    failedBefore := l.failed || l.failedBefore
    executes := l.executes + 1 }

/-- The ledger after a task answered one execute with handle 0. -/
def Ledger.answer (l : Ledger) (task : Task) (result : BitVec 16) : Ledger :=
  if task ∈ l.waiting then { l with
    waiting := l.waiting.erase task
    failed := l.failed || result != gattStatusSuccess }
  else l

/-- A response with handle 0 for the library. -/
def IsExecuteResponse (r : GattAccessResponse) : Prop := r.handle = 0

instance (r : GattAccessResponse) : Decidable (IsExecuteResponse r) :=
  inferInstanceAs (Decidable (_ = _))

/-- The ledger counts what reaches the library. -/
def Ledger.respond (l : Ledger) (response : Option GattAccessResponse) : Ledger :=
  { l with responses := l.responses + (response.toList.filter IsExecuteResponse).length }

/-- One input. -/
def step (s : System) : Event → Option System
  | .accessInd ind =>
    let (messages, data) := serverAccessInd s.data ind
    some ⟨data, s.ledger.indicate (messages.map Prod.fst) ind⟩
  | .accessResponse task cid handle result value =>
    let call := serverAccessResponse s.data task cid handle result value
    let ledger := if handle = 0 then s.ledger.answer task result else s.ledger
    some ⟨call.data, ledger.respond call.response⟩

/-- The manager before its first indication. -/
def start (d : GattManagerData) : System := ⟨d, ⟨[], [], false, false, 0, 0⟩⟩

/-- The one response to an execute. -/
def RightResponse (failed : Bool) : Option GattAccessResponse → Prop
  | none => False
  | some r => r.handle = 0 ∧ (r.result = gattStatusSuccess ↔ failed = false)

instance (failed : Bool) (r : Option GattAccessResponse) : Decidable (RightResponse failed r) := by
  cases r <;> unfold RightResponse <;> infer_instance

/-- An execute goes once to each task that was sent prepared writes and to no other. An answer to
each message is accepted, and the last one makes the response, a success when no task reported a
failure; nothing else makes one. -/
def Right (s : System) : Event → Prop
  | .accessInd ind => ind.handle = 0 →
    ((serverAccessInd s.data ind).1.map Prod.fst).Perm s.written.dedup ∧
      ∀ m ∈ (serverAccessInd s.data ind).1, m.2 = ind
  | .accessResponse task cid handle result value =>
    let call := serverAccessResponse s.data task cid handle result value
    let after := s.ledger.answer task result
    if handle = 0 ∧ task ∈ s.ledger.waiting then
      call.accepted = true ∧
        if after.waiting = [] then RightResponse after.failed call.response
        else call.response = none
    else ∀ r ∈ call.response, r.handle ≠ 0

instance (s : System) : ∀ e, Decidable (Right s e)
  | .accessInd _ => inferInstanceAs (Decidable (_ → _))
  | .accessResponse .. => inferInstanceAs (Decidable (ite _ _ _))

/-- A walk over the handles that were written, not over all of them. -/
instance decidableExistsHandle (handles : List (BitVec 16)) (p : BitVec 16 → Prop)
    [DecidablePred p] : Decidable (∃ h ∈ handles, p h) := List.decidableBEx p handles

/-- The answer of a task is found: there is a table, and if the task has servers, then the first of
them has one of the written handles. -/
def Answerable (d : GattManagerData) (handles : List (BitVec 16)) (task : Task) : Prop :=
  d.serverLookup ≠ [] ∧
    ∀ x ∈ d.serverLookup.find? fun x => task == x.task, ∃ h ∈ handles, x.Holds h

instance (d : GattManagerData) (handles : List (BitVec 16)) (task : Task) :
    Decidable (Answerable d handles task) := inferInstanceAs (Decidable (_ ∧ _))

/-- The tasks of the ranges that hold a written handle, and the application when none holds one:
an entry for each flag that these writes raise. -/
def raised (d : GattManagerData) (handles : List (BitVec 16)) : List Task :=
  (d.serverLookup.filter fun x => ∃ h ∈ handles, x.Holds h).map ServerLookupData.task ++
    if ∃ h ∈ handles, resolveServerHandle d h = none then [d.applicationTask] else []

/-- The inputs that the manager handles rightly. -/
def Allowed (s : System) : Event → Prop
  | .accessInd ind =>
    if ind.handle ≠ 0 then ind.isPendingWrite = true → s.ledger.waiting = []
    else s.ledger.waiting = [] ∧ s.ledger.handles ≠ [] ∧
      (∀ t ∈ raised s.data s.ledger.handles, t ∈ s.written) ∧
      (raised s.data s.ledger.handles).Nodup ∧
      ∀ t ∈ s.written, Answerable s.data s.ledger.handles t
  | .accessResponse task _ handle result _ => handle = 0 →
    task ∉ raised s.data s.ledger.handles ∧
      (task ∈ s.ledger.waiting → (s.ledger.answer task result).waiting = [] →
        s.ledger.failedBefore = true → (s.ledger.answer task result).failed = true)

instance (s : System) : ∀ e, Decidable (Allowed s e)
  | .accessInd _ => inferInstanceAs (Decidable (ite _ _ _))
  | .accessResponse .. => inferInstanceAs (Decidable (_ → _))

/-! ## The flags and the ledger -/

/-- The tasks of the table and of the application are not `NULL`, and without an execute on its way
the flags are those of the prepared writes. -/
structure Inv (s : System) : Prop where
  application_ne : s.data.applicationTask ≠ 0
  task_ne : ∀ x ∈ s.data.serverLookup, x.task ≠ 0
  server_flag : s.ledger.waiting = [] → ∀ x ∈ s.data.serverLookup,
    (x.pendingWrite = true ↔ ∃ h ∈ s.ledger.handles, x.Holds h)
  application_flag : s.ledger.waiting = [] → (s.data.applicationPendingWrite = true ↔
    ∃ h ∈ s.ledger.handles, resolveServerHandle s.data h = none)
  waiting_nodup : s.ledger.waiting.Nodup
  nothing_written : s.ledger.waiting ≠ [] → s.ledger.handles = []
  server_waiting : s.ledger.waiting ≠ [] → ∀ x ∈ s.data.serverLookup,
    x.pendingWrite = true → x.task ∈ s.ledger.waiting
  application_waiting : s.ledger.waiting ≠ [] → s.data.applicationPendingWrite = true →
    s.data.applicationTask ∈ s.ledger.waiting
  waiting_flag : ∀ t ∈ s.ledger.waiting, serverGetPrepareWriteFlag s.data t = true
  result : s.data.executeWriteResult = gattStatusSuccess ↔
    s.ledger.failed = false ∧ s.ledger.failedBefore = false
  count : s.ledger.executes = s.ledger.responses + if s.ledger.waiting = [] then 0 else 1

/-! ## What the functions do to the table -/

section Table

variable {d : GattManagerData} {task : Task} {t : Task}

theorem resolveServerHandle_eq_none {h : BitVec 16} :
    resolveServerHandle d h = none ↔ ∀ x ∈ d.serverLookup, ¬ x.Holds h := by
  simp [resolveServerHandle]

/-- A server that keeps its ranges and its task keeps the owners of the handles. -/
theorem resolveServerHandle_map (f : ServerLookupData → ServerLookupData) (d' : GattManagerData)
    (hf : ∀ x, (f x).task = x.task ∧ (f x).startHandle = x.startHandle ∧
      (f x).endHandle = x.endHandle)
    (hd : d'.serverLookup = d.serverLookup.map f) (h : BitVec 16) :
    resolveServerHandle d' h = resolveServerHandle d h := by
  have hp : ((fun s : ServerLookupData => decide (s.Holds h)) ∘ f) =
      fun s => decide (s.Holds h) := by
    funext x
    refine decide_eq_decide.mpr ?_
    simp only [ServerLookupData.Holds, (hf x).2]
  rw [resolveServerHandle, resolveServerHandle, hd, find?_map, hp, Option.map_map]
  congr 1
  funext x
  simp only [Function.comp, (hf x).1, (hf x).2.1]

/-- The first server of a task, when its flag is asked for. -/
theorem serverGetPrepareWriteFlag_eq_true :
    serverGetPrepareWriteFlag d task = true ↔ d.serverLookup ≠ [] ∧
      ((∃ x, d.serverLookup.find? (fun x => task == x.task) = some x ∧ x.pendingWrite = true) ∨
        d.serverLookup.find? (fun x => task == x.task) = none ∧ task = d.applicationTask ∧
          d.applicationPendingWrite = true) := by
  unfold serverGetPrepareWriteFlag
  by_cases hd : d.serverLookup = []
  · simp [hd]
  · rw [if_neg hd]
    cases hf : d.serverLookup.find? (fun x => task == x.task) with
    | none =>
      by_cases ht : task = d.applicationTask <;> simp [hd, ht]
    | some x => simp [hd]

theorem mem_prepareWriteFlags :
    t ∈ prepareWriteFlags d ↔ (∃ x ∈ d.serverLookup, x.pendingWrite = true ∧ x.task = t) ∨
      d.applicationPendingWrite = true ∧ t = d.applicationTask := by
  simp [prepareWriteFlags, and_assoc]

theorem find?_task {x : ServerLookupData}
    (h : d.serverLookup.find? (fun x => task == x.task) = some x) :
    x ∈ d.serverLookup ∧ x.task = task := by
  have ht := find?_some h
  exact ⟨mem_of_find?_eq_some h, (beq_iff_eq.mp ht).symm⟩

/-- Only a flagged task is heard. -/
theorem mem_prepareWriteFlags_of_get (h : serverGetPrepareWriteFlag d task = true) :
    task ∈ prepareWriteFlags d := by
  obtain ⟨-, ⟨x, hx, hp⟩ | ⟨-, ht, hp⟩⟩ := serverGetPrepareWriteFlag_eq_true.mp h
  · obtain ⟨hmem, ht⟩ := find?_task hx
    exact mem_prepareWriteFlags.mpr (.inl ⟨x, hmem, hp, ht⟩)
  · exact mem_prepareWriteFlags.mpr (.inr ⟨hp, ht⟩)

/-- The flag of a server, down. -/
def clearFlag (task : Task) (x : ServerLookupData) : ServerLookupData :=
  if task = x.task then { x with pendingWrite := false } else x

@[simp] theorem task_clearFlag (x : ServerLookupData) : (clearFlag task x).task = x.task := by
  unfold clearFlag
  split_ifs <;> rfl

theorem pendingWrite_clearFlag (x : ServerLookupData) :
    (clearFlag task x).pendingWrite = true ↔ x.task ≠ task ∧ x.pendingWrite = true := by
  unfold clearFlag
  split_ifs with h
  · simp [h]
  · simp [Ne.symm h]

/-- The manager with the flags of a task down. -/
def cleared (d : GattManagerData) (task : Task) : GattManagerData :=
  { d with
    serverLookup := d.serverLookup.map (clearFlag task)
    applicationPendingWrite := d.applicationPendingWrite && decide (task ≠ d.applicationTask) }

theorem mem_prepareWriteFlags_cleared :
    t ∈ prepareWriteFlags (cleared d task) ↔ t ∈ prepareWriteFlags d ∧ t ≠ task := by
  rw [mem_prepareWriteFlags, mem_prepareWriteFlags, or_and_right]
  refine or_congr ?_ ?_
  · simp only [cleared, List.mem_map]
    constructor
    · rintro ⟨_, ⟨x, hx, rfl⟩, hp, rfl⟩
      obtain ⟨hne, hp⟩ := (pendingWrite_clearFlag x).mp hp
      exact ⟨⟨x, hx, hp, (task_clearFlag x).symm⟩, (task_clearFlag x).symm ▸ hne⟩
    · rintro ⟨⟨x, hx, hp, rfl⟩, hne⟩
      exact ⟨_, ⟨x, hx, rfl⟩, (pendingWrite_clearFlag x).mpr ⟨hne, hp⟩, task_clearFlag x⟩
  · simp only [cleared, Bool.and_eq_true, decide_eq_true_eq]
    constructor
    · rintro ⟨⟨hp, hne⟩, rfl⟩
      exact ⟨⟨hp, rfl⟩, hne.symm⟩
    · rintro ⟨⟨hp, rfl⟩, hne⟩
      exact ⟨⟨hp, hne.symm⟩, rfl⟩

variable (task) in
/-- The table is clear when no flag is left. -/
theorem serverClearPrepareWriteFlag_eq (hd : d.serverLookup ≠ []) :
    ∃ clear, serverClearPrepareWriteFlag d task = (clear, cleared d task) ∧
      (clear = true ↔ ∀ t ∈ prepareWriteFlags d, t = task) := by
  have hservers : (d.serverLookup.map fun s =>
      if task = s.task then { s with pendingWrite := false } else s) =
      (cleared d task).serverLookup := rfl
  unfold serverClearPrepareWriteFlag
  rw [if_neg hd]
  dsimp only
  rw [hservers]
  by_cases ht : task = d.applicationTask
  · rw [if_pos ht]
    refine ⟨_, Prod.ext rfl ?_, ?_⟩
    · simp [cleared, ht]
    · simp only [List.all_eq_true, Bool.or_eq_true, beq_iff_eq, Bool.not_eq_true',
        mem_prepareWriteFlags]
      constructor
      · rintro h t (⟨x, hx, hp, rfl⟩ | ⟨-, rfl⟩)
        · exact ((h x hx).resolve_right (by simp [hp])).symm
        · exact ht.symm
      · intro h x hx
        by_cases hp : x.pendingWrite = true
        · exact .inl (h _ (.inl ⟨x, hx, hp, rfl⟩)).symm
        · exact .inr (by simpa using hp)
  · rw [if_neg ht]
    refine ⟨_, Prod.ext rfl ?_, ?_⟩
    · simp [cleared, ht]
    · simp only [List.all_eq_true, Bool.or_eq_true, beq_iff_eq, Bool.not_eq_true',
        mem_prepareWriteFlags, Bool.and_eq_true]
      constructor
      · rintro ⟨h, ha⟩ t (⟨x, hx, hp, rfl⟩ | ⟨hp, rfl⟩)
        · exact ((h x hx).resolve_right (by simp [hp])).symm
        · rw [hp] at ha
          cases ha
      · refine fun h => ⟨fun x hx => ?_, ?_⟩
        · by_cases hp : x.pendingWrite = true
          · exact .inl (h _ (.inl ⟨x, hx, hp, rfl⟩)).symm
          · exact .inr (by simpa using hp)
        · refine Bool.eq_false_iff.mpr fun hp => ht (h _ (.inr ⟨hp, rfl⟩)).symm

end Table

/-! ## Indications -/

section Steps

variable {s s' : System} {ind : AccessInd} {t : Task}

theorem holds_of_resolve {d : GattManagerData} {h : BitVec 16} {r : Task × BitVec 16}
    (hr : resolveServerHandle d h = some r) : ∃ x ∈ d.serverLookup, x.Holds h ∧ x.task = r.1 := by
  obtain ⟨x, hx, rfl⟩ := map_eq_some_iff.mp hr
  have hh := find?_some hx
  exact ⟨x, mem_of_find?_eq_some hx, of_decide_eq_true hh, rfl⟩

/-- The owner of a written handle has a flag. -/
theorem mem_raised_of_mem_written (ht : t ∈ s.written) : t ∈ raised s.data s.ledger.handles := by
  obtain ⟨h, hh, rfl⟩ := List.mem_map.mp ht
  rw [raised, mem_append]
  cases hr : resolveServerHandle s.data h with
  | none =>
    rw [if_pos ⟨h, hh, hr⟩]
    exact .inr (by simp [owner, hr])
  | some r =>
    obtain ⟨x, hx, hx', ht⟩ := holds_of_resolve hr
    have hmem : x ∈ s.data.serverLookup.filter fun x => ∃ h ∈ s.ledger.handles, x.Holds h :=
      mem_filter.mpr ⟨hx, decide_eq_true ⟨h, hh, hx'⟩⟩
    have howner : owner s.data h = x.task := by simp [owner, hr, ht]
    exact .inl (howner ▸ List.mem_map_of_mem hmem)

/-- Without an execute on its way the flags are the raised ones. -/
theorem Inv.flags_eq (h : Inv s) (hw : s.ledger.waiting = []) :
    prepareWriteFlags s.data = raised s.data s.ledger.handles := by
  have hservers : s.data.serverLookup.filter ServerLookupData.pendingWrite =
      s.data.serverLookup.filter fun x => ∃ h ∈ s.ledger.handles, x.Holds h :=
    filter_congr fun x hx => Bool.eq_iff_iff.mpr
      ((h.server_flag hw x hx).trans decide_eq_true_iff.symm)
  unfold prepareWriteFlags raised
  rw [hservers]
  simp only [h.application_flag hw]

/-- With an execute on its way they are those of the waiting tasks. -/
theorem Inv.waiting_iff (h : Inv s) (hw : s.ledger.waiting ≠ []) :
    t ∈ prepareWriteFlags s.data ↔ t ∈ s.ledger.waiting := by
  refine ⟨fun ht => ?_, fun ht => mem_prepareWriteFlags_of_get (h.waiting_flag t ht)⟩
  rcases mem_prepareWriteFlags.mp ht with ⟨x, hx, hp, rfl⟩ | ⟨hp, rfl⟩
  · exact h.server_waiting hw x hx hp
  · exact h.application_waiting hw hp

theorem Inv.prepared (h : Inv s) (hne : ind.handle ≠ 0) (hp : ind.isPendingWrite = true)
    (hw : s.ledger.waiting = []) (hs : step s (.accessInd ind) = some s') : Inv s' := by
  obtain ⟨d, l⟩ := s
  simp only [step, serverAccessInd, Ledger.indicate, if_pos hne, hp, if_true] at hs
  dsimp only at hw
  cases hr : resolveServerHandle d ind.handle with
  | some r =>
    rw [hr] at hs
    obtain rfl := some.inj hs
    have hres : ∀ k, resolveServerHandle (setServerPendingWriteFlag d ind.handle) k =
        resolveServerHandle d k :=
      resolveServerHandle_map _ _ (fun x => by split_ifs <;> simp) rfl
    refine ⟨h.application_ne, ?_, fun _ => ?_, fun _ => ?_, h.waiting_nodup,
      fun hne => absurd hw hne, fun hne => absurd hw hne, fun hne => absurd hw hne, ?_, h.result,
      h.count⟩
    · intro y hy
      obtain ⟨x, hx, rfl⟩ := List.mem_map.mp hy
      split_ifs <;> exact h.task_ne x hx
    · intro y hy
      obtain ⟨x, hx, rfl⟩ := List.mem_map.mp hy
      have := h.server_flag hw x hx
      by_cases hh : x.Holds ind.handle
      · simp only [if_pos hh, exists_mem_cons_iff, true_iff]
        exact .inl hh
      · rw [if_neg hh, this, exists_mem_cons_iff, or_iff_right hh]
    · dsimp only
      rw [exists_mem_cons_iff, hres, hr, or_iff_right (by simp)]
      simp only [hres]
      exact h.application_flag hw
    · dsimp only
      rw [hw]
      exact fun t ht => absurd ht not_mem_nil
  | none =>
    rw [hr] at hs
    obtain rfl := some.inj hs
    have hno := resolveServerHandle_eq_none.mp hr
    refine ⟨h.application_ne, h.task_ne, fun _ x hx => ?_, fun _ => ?_, h.waiting_nodup,
      fun hne => absurd hw hne, fun hne => absurd hw hne, fun hne => absurd hw hne, ?_, h.result,
      h.count⟩
    · rw [exists_mem_cons_iff, or_iff_right (hno x hx)]
      exact h.server_flag hw x hx
    · simp only [setApplicationPendingWriteFlag, exists_mem_cons_iff, true_iff]
      exact .inl hr
    · dsimp only
      rw [hw]
      exact fun t ht => absurd ht not_mem_nil

/-- An access that is no prepared write changes nothing. -/
theorem step_access (hne : ind.handle ≠ 0) (hp : ind.isPendingWrite = false) :
    step s (.accessInd ind) = some s := by
  simp only [step, serverAccessInd, Ledger.indicate, if_pos hne, hp, Bool.false_eq_true, if_false]
  split <;> rfl

theorem Inv.execute (h : Inv s) (hne : ind.handle = 0) (ha : Allowed s (.accessInd ind))
    (hs : step s (.accessInd ind) = some s') : Inv s' ∧ Right s (.accessInd ind) := by
  simp only [Allowed, hne, ne_eq, not_true_eq_false, if_false] at ha
  obtain ⟨hw, hhandles, hraised, hnodup, hanswer⟩ := ha
  have hflags : ∀ t, t ∈ prepareWriteFlags s.data ↔ t ∈ s.written := by
    rw [h.flags_eq hw]
    exact fun t => ⟨hraised t, mem_raised_of_mem_written⟩
  have hsent : prepareWriteFlags s.data ≠ [] := by
    obtain ⟨k, hk⟩ := exists_mem_of_ne_nil _ hhandles
    exact ne_nil_of_mem ((hflags _).mpr (List.mem_map_of_mem hk))
  have hcall : serverAccessInd s.data ind =
      ((prepareWriteFlags s.data).map fun task => (task, ind), s.data) := by
    rw [serverAccessInd, if_neg (not_not.mpr hne)]
  have htasks : ((prepareWriteFlags s.data).map fun task => (task, ind)).map Prod.fst =
      prepareWriteFlags s.data := by
    rw [List.map_map]
    exact List.map_id _
  simp only [step, hcall, htasks, Ledger.indicate, hne, ne_eq, not_true_eq_false, if_false] at hs
  obtain rfl := some.inj hs
  constructor
  · refine ⟨h.application_ne, h.task_ne, fun h => absurd h hsent, fun h => absurd h hsent,
      h.flags_eq hw ▸ hnodup, fun _ => rfl, fun _ x hx hx' => ?_, fun _ hx' => ?_, fun t ht => ?_,
      ?_, ?_⟩
    · exact mem_prepareWriteFlags.mpr (.inl ⟨x, hx, hx', rfl⟩)
    · exact mem_prepareWriteFlags.mpr (.inr ⟨hx', rfl⟩)
    · obtain ⟨hd, hfirst⟩ := hanswer t ((hflags t).mp ht)
      refine serverGetPrepareWriteFlag_eq_true.mpr ⟨hd, ?_⟩
      cases hf : s.data.serverLookup.find? (fun x => t == x.task) with
      | some x =>
        exact .inl ⟨x, rfl, (h.server_flag hw x (find?_task hf).1).mpr (hfirst x hf)⟩
      | none =>
        refine .inr ⟨rfl, ?_⟩
        rcases mem_prepareWriteFlags.mp ht with ⟨x, hx, -, rfl⟩ | ⟨hp, rfl⟩
        · exact absurd (beq_self_eq_true x.task) (find?_eq_none.mp hf x hx)
        · exact ⟨rfl, hp⟩
    · rw [h.result]
      simp
    · have := h.count
      rw [if_pos hw] at this
      dsimp only
      rw [if_neg hsent, this]
  · intro _
    rw [hcall, htasks]
    refine ⟨?_, fun m hm => ?_⟩
    · rw [perm_ext_iff_of_nodup (h.flags_eq hw ▸ hnodup) (nodup_dedup _)]
      exact fun t => (hflags t).trans mem_dedup.symm
    · obtain ⟨t, -, rfl⟩ := List.mem_map.mp hm
      rfl

/-! ## Answers -/

variable {task : Task} {cid handle result : BitVec 16} {value : List (BitVec 8)}

theorem getServerDatabaseHandle_ne (hne : handle ≠ 0) :
    (if getServerDatabaseHandle s.data task handle = 0 then handle
      else getServerDatabaseHandle s.data task handle) ≠ 0 := by
  split_ifs with h
  · exact hne
  · exact h

variable (s task cid result value) in
/-- An answer to another access. -/
theorem serverAccessResponse_access (hne : handle ≠ 0) :
    (serverAccessResponse s.data task cid handle result value).data = s.data ∧
      ∀ r, (serverAccessResponse s.data task cid handle result value).response = some r →
        r.handle ≠ 0 := by
  have hvalid : remoteClientValid task cid handle = true := by
    rw [remoteClientValid, bne_iff_ne.mpr hne, Bool.or_true]
  simp only [serverAccessResponse, hvalid, Bool.not_true, Bool.false_eq_true, if_false, hne]
  refine ⟨trivial, fun r hr => ?_⟩
  obtain rfl := some.inj hr
  exact getServerDatabaseHandle_ne hne

variable (cid result value) in
/-- A flag that no prepared write raised is not up, and its task is not heard. -/
theorem Inv.refused (h : Inv s) (hr : task ∉ raised s.data s.ledger.handles)
    (ht : task ∉ s.ledger.waiting) :
    serverAccessResponse s.data task cid 0 result value = ⟨false, none, s.data⟩ := by
  have hflag : serverGetPrepareWriteFlag s.data task = false := by
    refine Bool.eq_false_iff.mpr fun hp => ?_
    have hmem := mem_prepareWriteFlags_of_get hp
    by_cases hw : s.ledger.waiting = []
    · exact hr (h.flags_eq hw ▸ hmem)
    · exact ht ((h.waiting_iff hw).mp hmem)
  unfold serverAccessResponse
  rw [hflag]
  cases remoteClientValid task cid 0 <;> rfl

/-- The manager while a task answers: the result is kept when it is a failure. -/
def reported (d : GattManagerData) (result : BitVec 16) : GattManagerData :=
  if result ≠ gattStatusSuccess then serverSetExecuteWriteResult d result else d

theorem reported_eq (d : GattManagerData) (result : BitVec 16) :
    reported d result = { d with
      executeWriteResult := if result ≠ gattStatusSuccess then result else d.executeWriteResult } := by
  unfold reported serverSetExecuteWriteResult
  split_ifs <;> rfl

/-- The flag of a waiting task goes down, and those of the others stay. -/
theorem serverGetPrepareWriteFlag_cleared {d : GattManagerData} (hne : t ≠ task) :
    serverGetPrepareWriteFlag (cleared d task) t = serverGetPrepareWriteFlag d t := by
  have hfind : (cleared d task).serverLookup.find? (fun x => t == x.task) =
      (d.serverLookup.find? fun x => t == x.task).map (clearFlag task) := by
    rw [cleared, find?_map]
    congr 2
    funext x
    simp
  rw [Bool.eq_iff_iff, serverGetPrepareWriteFlag_eq_true, serverGetPrepareWriteFlag_eq_true, hfind]
  refine and_congr (by simp [cleared]) (or_congr ?_ ?_)
  · simp only [map_eq_some_iff]
    constructor
    · rintro ⟨_, ⟨x, hx, rfl⟩, hp⟩
      exact ⟨x, hx, ((pendingWrite_clearFlag x).mp hp).2⟩
    · rintro ⟨x, hx, hp⟩
      refine ⟨_, ⟨x, hx, rfl⟩, (pendingWrite_clearFlag x).mpr ⟨?_, hp⟩⟩
      rwa [(find?_task hx).2]
  · rw [map_eq_none_iff]
    refine and_congr_right fun _ => ⟨fun ⟨ht, hp⟩ => ⟨ht, ?_⟩, fun ⟨ht, hp⟩ => ⟨ht, ?_⟩⟩
    · exact (Bool.and_eq_true_iff.mp hp).1
    · subst ht
      simpa [cleared, hp] using Ne.symm hne

variable (cid result value) in
/-- The answer of a waiting task. -/
theorem Inv.answered (h : Inv s) (ht : task ∈ s.ledger.waiting) :
    ∃ clear, serverAccessResponse s.data task cid 0 result value =
        ⟨true, if clear = true then some ⟨cid, 0, (reported s.data result).executeWriteResult, value⟩
          else none, cleared (reported s.data result) task⟩ ∧
      (clear = true ↔ (s.ledger.answer task result).waiting = []) := by
  have hw : s.ledger.waiting ≠ [] := ne_nil_of_mem ht
  have hflag := h.waiting_flag task ht
  obtain ⟨hd, hfirst⟩ := serverGetPrepareWriteFlag_eq_true.mp hflag
  have hne : task ≠ 0 := by
    rcases hfirst with ⟨x, hx, -⟩ | ⟨-, rfl, -⟩
    · obtain ⟨hmem, rfl⟩ := find?_task hx
      exact h.task_ne x hmem
    · exact h.application_ne
  have hvalid : remoteClientValid task cid 0 = true := by simp [remoteClientValid, hne]
  have hd' : (reported s.data result).serverLookup ≠ [] := by rwa [reported_eq]
  obtain ⟨clear, hclear, hiff⟩ := serverClearPrepareWriteFlag_eq task hd'
  refine ⟨clear, ?_, hiff.trans ?_⟩
  · unfold serverAccessResponse
    rw [hvalid, hflag, if_neg (by decide), if_pos rfl, if_neg (by decide)]
    unfold reported at hclear
    simp only [hclear]
    cases clear <;> rfl
  · have hflags : prepareWriteFlags (reported s.data result) = prepareWriteFlags s.data := by
      rw [reported_eq]
      rfl
    rw [hflags, Ledger.answer, if_pos ht, eq_nil_iff_forall_not_mem]
    simp only [h.waiting_nodup.mem_erase_iff, h.waiting_iff hw]
    exact forall_congr' fun t => ⟨fun h ⟨hne, ht⟩ => hne (h ht), fun h ht => by_contra (h ⟨·, ht⟩)⟩

theorem Inv.answer (h : Inv s) (ht : task ∈ s.ledger.waiting)
    (ha : Allowed s (.accessResponse task cid 0 result value))
    (hs : step s (.accessResponse task cid 0 result value) = some s') :
    Inv s' ∧ Right s (.accessResponse task cid 0 result value) := by
  have hw : s.ledger.waiting ≠ [] := ne_nil_of_mem ht
  obtain ⟨clear, hcall, hclear⟩ := h.answered cid result value ht
  have hafter : (s.ledger.answer task result).waiting = s.ledger.waiting.erase task := by
    rw [Ledger.answer, if_pos ht]
  have hfailed : (s.ledger.answer task result).failed =
      (s.ledger.failed || result != gattStatusSuccess) := by
    rw [Ledger.answer, if_pos ht]
  have hresult : (reported s.data result).executeWriteResult = gattStatusSuccess ↔
      (s.ledger.answer task result).failed = false ∧ s.ledger.failedBefore = false := by
    rw [reported_eq, hfailed]
    by_cases hr : result = gattStatusSuccess
    · simp [hr, h.result]
    · simp [hr]
  have hmem : ∀ t, t ∈ prepareWriteFlags (cleared (reported s.data result) task) ↔
      t ∈ (s.ledger.answer task result).waiting := by
    intro t
    have hflags : prepareWriteFlags (reported s.data result) = prepareWriteFlags s.data := by
      rw [reported_eq]
      rfl
    rw [mem_prepareWriteFlags_cleared, hflags, h.waiting_iff hw, hafter,
      h.waiting_nodup.mem_erase_iff, and_comm]
  rw [step, hcall] at hs
  obtain rfl := some.inj hs
  have hnone : s.ledger.handles = [] := h.nothing_written hw
  have hkeep : (s.ledger.answer task result).handles = s.ledger.handles := by
    rw [Ledger.answer, if_pos ht]
  have hflagged : ∀ {t}, t ∈ prepareWriteFlags (cleared (reported s.data result) task) →
      (s.ledger.answer task result).waiting ≠ [] := fun ht => ne_nil_of_mem ((hmem _).mp ht)
  have hdata : (reported s.data result).serverLookup = s.data.serverLookup ∧
      (reported s.data result).applicationTask = s.data.applicationTask := by
    rw [reported_eq]
    exact ⟨rfl, rfl⟩
  constructor
  · -- the flags of the other tasks are as they were
    refine ⟨?_, ?_, fun hd => ?_, fun hd => ?_, ?_, fun _ => ?_, fun _ x hx hx' => ?_,
      fun _ hx' => ?_, fun t ht' => ?_, ?_, ?_⟩
    all_goals simp only [if_true, Ledger.respond] at *
    · exact hdata.2.symm ▸ h.application_ne
    · intro y hy
      obtain ⟨x, hx, rfl⟩ := List.mem_map.mp hy
      rw [task_clearFlag]
      exact h.task_ne x (hdata.1 ▸ hx)
    · intro x hx
      simp only [hkeep, hnone, not_mem_nil, false_and, exists_false, iff_false]
      exact fun hp => hflagged (mem_prepareWriteFlags.mpr (.inl ⟨x, hx, hp, rfl⟩)) hd
    · simp only [hkeep, hnone, not_mem_nil, false_and, exists_false, iff_false]
      exact fun hp => hflagged (mem_prepareWriteFlags.mpr (.inr ⟨hp, rfl⟩)) hd
    · rw [hafter]
      exact h.waiting_nodup.erase task
    · rw [hkeep, hnone]
    · exact (hmem _).mp (mem_prepareWriteFlags.mpr (.inl ⟨x, hx, hx', rfl⟩))
    · exact (hmem _).mp (mem_prepareWriteFlags.mpr (.inr ⟨hx', rfl⟩))
    · rw [hafter, h.waiting_nodup.mem_erase_iff] at ht'
      rw [serverGetPrepareWriteFlag_cleared ht'.1, reported_eq]
      exact h.waiting_flag t ht'.2
    · have hbefore : (s.ledger.answer task result).failedBefore = s.ledger.failedBefore := by
        rw [Ledger.answer, if_pos ht]
      rw [hbefore]
      exact hresult
    · have hcount := h.count
      have hexecutes : (s.ledger.answer task result).executes = s.ledger.executes ∧
          (s.ledger.answer task result).responses = s.ledger.responses := by
        rw [Ledger.answer, if_pos ht]
        exact ⟨rfl, rfl⟩
      rw [if_neg hw] at hcount
      rw [hexecutes.1, hexecutes.2, hcount]
      by_cases hlast : (s.ledger.answer task result).waiting = []
      · rw [if_pos (hclear.mpr hlast), if_pos hlast]
        rfl
      · rw [if_neg (hclear.not.mpr hlast), if_neg hlast]
        rfl
  · simp only [Right, true_and, if_pos ht, hcall]
    by_cases hlast : (s.ledger.answer task result).waiting = []
    · rw [if_pos hlast, if_pos (hclear.mpr hlast)]
      refine ⟨rfl, hresult.trans (and_iff_left_of_imp fun hok => ?_)⟩
      refine Bool.eq_false_iff.mpr fun hb => ?_
      have := (ha rfl).2 ht hlast hb
      rw [hok] at this
      exact Bool.false_ne_true this
    · rw [if_neg hlast, if_neg (hclear.not.mpr hlast)]

/-- **The step.** An allowed input keeps the invariant and is handled rightly. -/
theorem Inv.step {e : Event} (h : Inv s) (ha : Allowed s e) (hs : step s e = some s') :
    Inv s' ∧ Right s e := by
  cases e with
  | accessInd ind =>
    by_cases hne : ind.handle = 0
    · exact h.execute hne ha hs
    · refine ⟨?_, fun h => absurd h hne⟩
      rw [Allowed, if_pos hne] at ha
      by_cases hp : ind.isPendingWrite = true
      · exact h.prepared hne hp (ha hp) hs
      · rw [step_access hne (Bool.eq_false_iff.mpr hp)] at hs
        obtain rfl := some.inj hs
        exact h
  | accessResponse task cid handle result value =>
    by_cases hne : handle = 0
    · subst hne
      by_cases ht : task ∈ s.ledger.waiting
      · exact h.answer ht ha hs
      · have hcall := h.refused cid result value (ha rfl).1 ht
        rw [GattManager.step, hcall, if_pos rfl, Ledger.answer, if_neg ht] at hs
        obtain rfl := some.inj hs
        refine ⟨h, ?_⟩
        rw [Right, if_neg (fun h => ht h.2), hcall]
        exact fun r hr => absurd hr (by simp)
    · obtain ⟨hdata, hresponse⟩ := serverAccessResponse_access s task cid result value hne
      rw [GattManager.step, hdata, if_neg hne] at hs
      obtain rfl := some.inj hs
      refine ⟨?_, ?_⟩
      · have : (s.ledger.respond
            (serverAccessResponse s.data task cid handle result value).response) = s.ledger := by
          rw [Ledger.respond, filter_eq_nil_iff.mpr]
          · rfl
          · intro r hr
            exact fun h => hresponse r (mem_toList.mp hr) (of_decide_eq_true h)
        rw [this]
        exact h
      · rw [Right, if_neg (fun h => hne h.1)]
        exact hresponse

end Steps

/-! ## Runs -/

/-- What registrations leave or check. -/
structure Fresh (app : Task) (d : GattManagerData) : Prop where
  application : d.applicationTask = app
  result : d.executeWriteResult = gattStatusSuccess
  application_flag : d.applicationPendingWrite = false
  servers : ∀ x ∈ d.serverLookup, x.task ≠ 0 ∧ x.pendingWrite = false

theorem Fresh.registerServer {app : Task} {d : GattManagerData} (h : Fresh app d)
    (server : ServerRegistrationParams) : Fresh app (registerServer d server).2 := by
  unfold GattManager.registerServer addServer
  split_ifs with hvalid hhandles
  · refine ⟨h.application, h.result, h.application_flag, fun x hmem => ?_⟩
    rcases mem_append.mp hmem with hmem | hmem
    · exact h.servers x hmem
    · obtain rfl := mem_singleton.mp hmem
      refine ⟨fun h0 => ?_, rfl⟩
      simp [serverRegistrationParamsValid, show server.task = 0 from h0] at hvalid
  · exact h
  · exact h

theorem fresh_registered (app : Task) (servers : List ServerRegistrationParams) :
    Fresh app (registered app servers) := by
  have hfold : ∀ (d : GattManagerData), Fresh app d →
      Fresh app (servers.foldl (fun d server => (GattManager.registerServer d server).2) d) := by
    induction servers with
    | nil => exact fun d h => h
    | cons server servers ih => exact fun d h => ih _ (h.registerServer server)
  exact hfold _ ⟨rfl, rfl, rfl, fun x hx => absurd hx not_mem_nil⟩

/-- A manager with its servers registered. -/
theorem inv_start {app : Task} (happ : app ≠ 0) (servers : List ServerRegistrationParams) :
    Inv (start (registered app servers)) := by
  have h := fresh_registered app servers
  refine ⟨h.application.symm ▸ happ, fun x hx => (h.servers x hx).1, fun _ x hx => ?_, fun _ => ?_,
    nodup_nil, fun h => absurd rfl h, fun h => absurd rfl h, fun h => absurd rfl h,
    fun t ht => absurd ht not_mem_nil, ?_, rfl⟩
  · simp [start, (h.servers x hx).2]
  · simp [start, h.application_flag]
  · simp [start, h.result]

/-- **Reliable writes.** Whatever servers are registered, in a run of allowed inputs every execute
goes once to each task with prepared writes and to no other, their answers are accepted, and the
last answer makes the one response of the execute, a success when all of them were. -/
theorem reliable_writes (app : Task) (happ : app ≠ 0) (servers : List ServerRegistrationParams)
    (es : List Event) (h : Meets step Allowed (start (registered app servers)) es) :
    Meets step Right (start (registered app servers)) es ∧
      ∀ s, run step (start (registered app servers)) es = some s →
        s.ledger.executes = s.ledger.responses + if s.ledger.waiting = [] then 0 else 1 := by
  have hstep : ∀ s e, Inv s → Allowed s e → Right s e ∧ ∀ s', step s e = some s' → Inv s' := by
    intro s e hs ha
    have hnext : ∃ t, step s e = some t := by cases e <;> exact ⟨_, rfl⟩
    obtain ⟨t, ht⟩ := hnext
    exact ⟨(hs.step ha ht).2, fun s' hs' => (hs.step ha hs').1⟩
  have hinv := inv_start happ servers
  refine ⟨meets_of_meets hstep hinv h, fun s hs => ?_⟩
  exact (invariant_of_meets (fun s e s' hs ha => (hstep s e hs ha).2 s') hinv h hs).count

/-- Two servers of one task and a third one beside the application. -/
def sampleServers : List ServerRegistrationParams := [⟨2, 1, 5⟩, ⟨2, 6, 10⟩, ⟨3, 11, 20⟩]

/-- A write request for a handle, prepared. -/
def samplePrepare (handle : BitVec 16) : Event := .accessInd ⟨1, handle, attAccessWrite, 0, [7]⟩

def sampleExecute : Event := .accessInd ⟨1, 0, attAccessWrite, 0, []⟩

/-- The answer of a task to an execute. -/
def sampleAnswer (task : Task) (result : BitVec 16) : Event := .accessResponse task 1 0 result []

/-- Two writes to the first server of task 2, one to task 3 and one to the application, which fails. -/
def sampleRun : List Event :=
  [samplePrepare 4, samplePrepare 3, samplePrepare 12, samplePrepare 30, sampleExecute,
    sampleAnswer 3 gattStatusSuccess, sampleAnswer 2 gattStatusSuccess, sampleAnswer 9 5]

theorem reliable_writes_sampleRun :
    Meets step Right (start (registered 9 sampleServers)) sampleRun ∧
      ∀ s, run step (start (registered 9 sampleServers)) sampleRun = some s →
        s.ledger.executes = s.ledger.responses + if s.ledger.waiting = [] then 0 else 1 :=
  reliable_writes 9 (by decide) sampleServers sampleRun (by decide +kernel)

/-- After an execute that failed, the next one is answered with the old failure. -/
theorem not_right_staleResult : ¬ Meets step Right (start (registered 9 sampleServers))
    [samplePrepare 12, sampleExecute, sampleAnswer 3 5, samplePrepare 12, sampleExecute,
      sampleAnswer 3 gattStatusSuccess] := by
  decide +kernel

end Mh40.GattManager
