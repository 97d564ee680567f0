import Mathlib.Data.List.Pairwise
import Mh40.GattManager.Server
import Mh40.Lib.Run

/-!
# Handles of the registered servers

What the table of servers makes of the handles of the database, after any registrations.

* `HandleMap`: the ranges are not empty and do not meet, a handle goes to one server at most, and
  the two conversions are inverse to each other.
* `Fits`: a registration that the code accepts has its ends in order and no registered range
  between them. The code looks for the two ends in the registered ranges only.
* `handleMap_iff`: the table is right exactly when all registrations fit.
-/

namespace Mh40.GattManager

open Lib List

variable {d : GattManagerData} {s t : ServerLookupData} {server : ServerRegistrationParams}
  {task : Task} {handle h : BitVec 16}

/-! ## Ranges -/

/-- No handle is in both ranges. -/
def ServerLookupData.Apart (s t : ServerLookupData) : Prop := ∀ h, ¬ (s.Holds h ∧ t.Holds h)

instance : Std.Symm ServerLookupData.Apart := ⟨fun _ _ h u hu => h u hu.symm⟩

/-- The ranges have handles, and any two of them are apart. -/
structure Ranges (table : List ServerLookupData) : Prop where
  nonempty : ∀ s ∈ table, ∃ h, s.Holds h
  apart : table.Pairwise ServerLookupData.Apart

/-- The handle of a task is not in the service: it is 0, or behind the end of the range. -/
def ServerLookupData.Outside (s : ServerLookupData) (handle : BitVec 16) : Prop :=
  handle = 0 ∨ s.endHandle.toNat < s.startHandle.toNat - 1 + handle.toNat

/-- The task has one server. -/
def OneServer (d : GattManagerData) (task : Task) : Prop :=
  ∃ s, d.serverLookup.filter (fun s => s.task = task) = [s]

/-- What the table of servers should make of the handles. -/
structure HandleMap (d : GattManagerData) : Prop where
  ranges : Ranges d.serverLookup
  /-- A handle belongs to one server at most. -/
  unique : ∀ h, (d.serverLookup.filter fun s => s.Holds h).length ≤ 1
  /-- What a handle is resolved to converts back to it. -/
  back : ∀ h task adjusted, resolveServerHandle d h = some (task, adjusted) → OneServer d task →
    getServerDatabaseHandle d task adjusted = h
  /-- What a handle of a task converts to is resolved to it. -/
  resolved : ∀ task handle, getServerDatabaseHandle d task handle ≠ 0 →
    resolveServerHandle d (getServerDatabaseHandle d task handle) = some (task, handle)
  outside : ∀ task handle, (∀ s ∈ d.serverLookup, s.task = task → s.Outside handle) →
    getServerDatabaseHandle d task handle = 0

/-- A registration. -/
def register (d : GattManagerData) (server : ServerRegistrationParams) : Option GattManagerData :=
  some (registerServer d server).2

/-- The registration is refused, or its ends are in order with no registered range between them. -/
def Fits (d : GattManagerData) (server : ServerRegistrationParams) : Prop :=
  serverRegistrationParamsValid server = true → serverHandlesValid d server = true →
    server.startHandle ≤ server.endHandle ∧
      ∀ s ∈ d.serverLookup, ¬ (server.startHandle < s.startHandle ∧ s.endHandle < server.endHandle)

instance (d : GattManagerData) (server : ServerRegistrationParams) : Decidable (Fits d server) :=
  inferInstanceAs (Decidable (_ → _ → _ ∧ _))

theorem holds_nonempty_iff (s : ServerLookupData) :
    (∃ h, s.Holds h) ↔ s.startHandle ≤ s.endHandle :=
  ⟨fun ⟨_, h1, h2⟩ => BitVec.le_trans h1 h2, fun h => ⟨s.startHandle, BitVec.le_refl _, h⟩⟩

/-- A range with neither end in another one is apart from it unless it encloses it. -/
theorem apart_iff (hs : s.startHandle ≤ s.endHandle) (hstart : ¬ s.Holds t.startHandle)
    (hend : ¬ s.Holds t.endHandle) :
    s.Apart t ↔ ¬ (t.startHandle < s.startHandle ∧ s.endHandle < t.endHandle) := by
  unfold ServerLookupData.Apart ServerLookupData.Holds at *
  simp only [BitVec.le_def, BitVec.lt_def] at *
  constructor
  · rintro h ⟨h1, h2⟩
    exact h s.startHandle ⟨⟨Nat.le_refl _, hs⟩, Nat.le_of_lt h1, by omega⟩
  · rintro h u ⟨⟨h1, h2⟩, h3, h4⟩
    omega

/-! ## Conversions -/

theorem getServerDatabaseHandle_eq (h : getServerDatabaseHandle d task handle ≠ 0) :
    ∃ s ∈ d.serverLookup, s.task = task ∧ s.Holds (s.startHandle - 1 + handle) ∧
      getServerDatabaseHandle d task handle = s.startHandle - 1 + handle := by
  unfold getServerDatabaseHandle at h ⊢
  split_ifs at h ⊢ with htask
  · exact absurd rfl h
  · cases hfind : d.serverLookup.find? fun s =>
        s.task == task && decide (s.Holds (s.startHandle - 1 + handle)) with
    | none =>
      rw [hfind] at h
      exact absurd rfl h
    | some s =>
      have hs := find?_some hfind
      simp only [Bool.and_eq_true, beq_iff_eq, decide_eq_true_eq] at hs
      exact ⟨s, mem_of_find?_eq_some hfind, hs.1, hs.2, rfl⟩

/-- With ranges that are apart, a handle is resolved to the one server that it belongs to. -/
theorem resolveServerHandle_eq (hd : Ranges d.serverLookup) (hs : s ∈ d.serverLookup)
    (hh : s.Holds h) : resolveServerHandle d h = some (s.task, h - s.startHandle + 1) := by
  unfold resolveServerHandle
  cases hfind : d.serverLookup.find? fun s => decide (s.Holds h) with
  | none =>
    have := find?_eq_none.mp hfind s hs
    simp [hh] at this
  | some t =>
    have ht : t.Holds h := by simpa using find?_some hfind
    have hst : s = t := by
      by_contra hne
      exact hd.apart.forall hs (mem_of_find?_eq_some hfind) hne h ⟨hh, ht⟩
    rw [hst]
    rfl

theorem adjusted_back (s : ServerLookupData) (h : BitVec 16) :
    s.startHandle - 1 + (h - s.startHandle + 1) = h := by bv_omega

theorem adjusted_resolve (s : ServerLookupData) (handle : BitVec 16) :
    s.startHandle - 1 + handle - s.startHandle + 1 = handle := by bv_omega

/-- The servers of the code have a start handle and a task. -/
def Valid (table : List ServerLookupData) : Prop :=
  ∀ s ∈ table, s.startHandle ≠ 0 ∧ s.task ≠ 0

theorem not_holds_of_outside (hs : s.startHandle ≠ 0) (h : s.Outside handle) :
    ¬ s.Holds (s.startHandle - 1 + handle) := by
  rintro ⟨h1, h2⟩
  rcases h with rfl | h <;> bv_omega

/-- **With ranges that are not empty and apart, the table is right.** -/
theorem handleMap_of_ranges (hv : Valid d.serverLookup) (hd : Ranges d.serverLookup) :
    HandleMap d where
  ranges := hd
  unique h := by
    have hpair := hd.apart.filter fun s => s.Holds h
    cases hf : d.serverLookup.filter fun s => s.Holds h with
    | nil => exact Nat.zero_le _
    | cons s rest =>
      cases rest with
      | nil => exact Nat.le_refl 1
      | cons t rest =>
        have hmem : ∀ u ∈ s :: t :: rest, u.Holds h := fun u hu => by
          rw [← hf] at hu
          simpa using (mem_filter.mp hu).2
        rw [hf] at hpair
        exact absurd ⟨hmem s (by simp), hmem t (by simp)⟩
          (rel_of_pairwise_cons hpair (by simp) h)
  back h task adjusted hr := by
    rintro ⟨s, hone⟩
    obtain ⟨t, hfind, heq⟩ := Option.map_eq_some_iff.mp hr
    obtain ⟨rfl, rfl⟩ := Prod.mk.inj heq
    have ht := mem_of_find?_eq_some hfind
    have hholds : t.Holds h := by simpa using find?_some hfind
    have hmem : ∀ u ∈ d.serverLookup, u.task = t.task → u = s := fun u hu htask => by
      have : u ∈ d.serverLookup.filter (fun s => s.task = t.task) :=
        mem_filter.mpr ⟨hu, by simpa using htask⟩
      rw [hone] at this
      exact mem_singleton.mp this
    obtain rfl := hmem t ht rfl
    unfold getServerDatabaseHandle
    rw [if_neg (hv t ht).2]
    cases hf : d.serverLookup.find? fun s =>
      s.task == t.task && decide (s.Holds (s.startHandle - 1 + (h - t.startHandle + 1))) with
    | none =>
      have := find?_eq_none.mp hf t ht
      rw [adjusted_back] at this
      simp [hholds] at this
    | some u =>
      have hu := find?_some hf
      simp only [Bool.and_eq_true, beq_iff_eq] at hu
      rw [hmem u (mem_of_find?_eq_some hf) hu.1]
      exact adjusted_back t h
  resolved task handle h := by
    obtain ⟨s, hs, rfl, hholds, heq⟩ := getServerDatabaseHandle_eq h
    rw [heq, resolveServerHandle_eq hd hs hholds, adjusted_resolve]
  outside task handle hout := by
    by_contra h
    obtain ⟨s, hs, htask, hholds, -⟩ := getServerDatabaseHandle_eq h
    exact not_holds_of_outside (hv s hs).1 (hout s hs htask) hholds

/-! ## Registrations -/

theorem serverHandlesValid_iff :
    serverHandlesValid d server = true ↔
      ∀ s ∈ d.serverLookup, ¬ s.Holds server.startHandle ∧ ¬ s.Holds server.endHandle := by
  simp [serverHandlesValid]

/-- A registration is refused, or the server is the new last one. -/
theorem registerServer_cases (d : GattManagerData) (server : ServerRegistrationParams) :
    ((registerServer d server).2 = d ∧ Fits d server) ∨
      (serverRegistrationParamsValid server = true ∧ serverHandlesValid d server = true ∧
        (registerServer d server).2.serverLookup = d.serverLookup ++
          [⟨server.task, server.startHandle, server.endHandle, false⟩]) := by
  unfold registerServer addServer
  by_cases hp : serverRegistrationParamsValid server = true
  · by_cases hv : serverHandlesValid d server = true
    · exact .inr ⟨hp, hv, by simp [hp, hv]⟩
    · exact .inl ⟨by simp [hp, hv], fun _ h => absurd h hv⟩
  · exact .inl ⟨by simp [hp], fun h => absurd h hp⟩

theorem valid_registerServer (hv : Valid d.serverLookup) (server : ServerRegistrationParams) :
    Valid (registerServer d server).2.serverLookup := by
  rcases registerServer_cases d server with ⟨heq, -⟩ | ⟨hp, -, heq⟩
  · rwa [heq]
  · rw [heq]
    intro s hs
    rcases mem_append.mp hs with hs | hs
    · exact hv s hs
    · obtain rfl := mem_singleton.mp hs
      simp only [serverRegistrationParamsValid, Bool.not_eq_true', Bool.or_eq_false_iff,
        beq_eq_false_iff_ne] at hp
      exact ⟨hp.1.2, hp.2⟩

/-- **The step.** After a registration the ranges are right exactly when they were and it fits. -/
theorem ranges_registerServer_iff (d : GattManagerData) (server : ServerRegistrationParams) :
    Ranges (registerServer d server).2.serverLookup ↔ Ranges d.serverLookup ∧ Fits d server := by
  rcases registerServer_cases d server with ⟨heq, hfits⟩ | ⟨hp, hvalid, heq⟩
  · rw [heq]
    exact (and_iff_left hfits).symm
  · have hends := serverHandlesValid_iff.mp hvalid
    rw [heq]
    constructor
    · rintro ⟨hne, hap⟩
      obtain ⟨hap, -, hnew⟩ := pairwise_append.mp hap
      have hne' : ∀ s ∈ d.serverLookup, ∃ h, s.Holds h := fun s hs =>
        hne s (mem_append_left _ hs)
      refine ⟨⟨hne', hap⟩, fun _ _ => ⟨?_, fun s hs => ?_⟩⟩
      · exact (holds_nonempty_iff _).mp (hne _ (mem_append_right _ mem_cons_self))
      · exact (apart_iff ((holds_nonempty_iff s).mp (hne' s hs)) (hends s hs).1
          (hends s hs).2).mp (hnew s hs _ mem_cons_self)
    · rintro ⟨⟨hne, hap⟩, hfits⟩
      obtain ⟨hle, hencloses⟩ := hfits hp hvalid
      refine ⟨fun s hs => ?_, pairwise_append.mpr ⟨hap, pairwise_singleton _ _, ?_⟩⟩
      · rcases mem_append.mp hs with hs | hs
        · exact hne s hs
        · obtain rfl := mem_singleton.mp hs
          exact (holds_nonempty_iff _).mpr hle
      · rintro s hs t ht
        obtain rfl := mem_singleton.mp ht
        exact (apart_iff ((holds_nonempty_iff s).mp (hne s hs)) (hends s hs).1
          (hends s hs).2).mpr (hencloses s hs)

theorem ranges_foldl_iff (d : GattManagerData) (servers : List ServerRegistrationParams) :
    Ranges (servers.foldl (fun d server => (registerServer d server).2) d).serverLookup ↔
      Ranges d.serverLookup ∧ Meets register Fits d servers := by
  induction servers generalizing d with
  | nil => exact (and_iff_left trivial).symm
  | cons server servers ih =>
    rw [foldl_cons, ih, ranges_registerServer_iff, and_assoc]
    rfl

theorem valid_foldl (hv : Valid d.serverLookup) (servers : List ServerRegistrationParams) :
    Valid (servers.foldl (fun d server => (registerServer d server).2) d).serverLookup := by
  induction servers generalizing d with
  | nil => exact hv
  | cons server servers ih => exact ih (valid_registerServer hv server)

/-- **When the table of servers is right.** After a number of registrations it is exactly when each
of them has its ends in order and does not enclose a range that is registered, unless the code
refuses it. -/
theorem handleMap_iff (applicationTask : Task) (servers : List ServerRegistrationParams) :
    HandleMap (registered applicationTask servers) ↔
      Meets register Fits (dataInit applicationTask) servers := by
  have hiff := ranges_foldl_iff (dataInit applicationTask) servers
  have hempty : Ranges (dataInit applicationTask).serverLookup :=
    ⟨fun _ hs => absurd hs List.not_mem_nil, .nil⟩
  have hv : Valid (registered applicationTask servers).serverLookup := 
    valid_foldl (fun _ hs => absurd hs List.not_mem_nil) servers
  constructor
  · exact fun h => (hiff.mp h.ranges).2
  · exact fun h => handleMap_of_ranges hv (hiff.mpr ⟨hempty, h⟩)

/-- A server around a registered one is accepted: the handle 6 is in both ranges. -/
theorem not_handleMap_enclosing :
    ¬ HandleMap (registered 9 [⟨2, 5, 8⟩, ⟨3, 1, 20⟩]) := by
  intro h
  have := h.unique 6
  revert this
  decide

end Mh40.GattManager
