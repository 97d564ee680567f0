import Mh40.Gaia.TransportCommon
import Mh40.Lib.Run

/-!
# Sessions of data transfer

`domains/gaia/gaia_framework/gaia_framework_data_channel.c`: the linked list of sessions. A session
is found by its id.

* `deleteSessionInstance`: the first session of the list has a branch of its own, which drops the
  whole list.
* `live`: the sessions created and not deleted.
* `sessions_right_iff_tidy`: the list holds them, and all can be found, through a run exactly when
  no id comes round again while its session lives, and the first session is deleted as the last.
* Left out: `transport_type` and `data_channel_transform`, which nothing reads. The panics of
  `GAIA_FRAMEWORK_DATA_CH_PANIC` are not compiled in.
-/

namespace Mh40.Gaia

open Lib List Option

/-! ## Model -/

/-- `INVALID_DATA_TRANSFER_SESSION_ID`. -/
def invalidDataTransferSessionId : Uint16 := 0x0000

/-- `session_instance_t`. -/
structure SessionInstance (Functions Transport : Type) where
  sessionId : Uint16
  featureId : Byte
  functions : Functions
  transport : Transport
deriving DecidableEq, Repr

variable {Functions Transport : Type}

/-- `gaiaFrameworkDataChannel_FindSessionInstance`. -/
def findSessionInstance (sessionId : Uint16) :
    List (SessionInstance Functions Transport) → Option (SessionInstance Functions Transport)
  | [] => none
  | instance' :: next =>
    if instance'.sessionId = sessionId then some instance' else findSessionInstance sessionId next

/-- `gaiaFramework_GetDataTransferFunctionTable`. -/
def getDataTransferFunctionTable (sessionId : Uint16) :
    List (SessionInstance Functions Transport) → Option Functions
  | [] => none
  | instance' :: next =>
    if instance'.sessionId = sessionId then some instance'.functions
    else getDataTransferFunctionTable sessionId next

/-- `gaiaFrameworkDataChannel_AddSessionInstance`. -/
def addSessionInstance (t : Transport) (sessionId : Uint16) (featureId : Byte)
    (functions : Functions) (sessions : List (SessionInstance Functions Transport)) :
    List (SessionInstance Functions Transport) :=
  sessions ++ [⟨sessionId, featureId, functions, t⟩]

/-- The loop of `gaiaFrameworkDataChannel_DeleteSessionInstance` behind the first session: what
stands behind `prev`, and the result. -/
def deleteNextInstance (sessionId : Uint16) :
    List (SessionInstance Functions Transport) → List (SessionInstance Functions Transport) × Bool
  | [] => ([], false)
  | instance' :: next =>
    if instance'.sessionId = sessionId then (next, true)
    else
      let (next, result) := deleteNextInstance sessionId next
      (instance' :: next, result)

/-- `gaiaFrameworkDataChannel_DeleteSessionInstance`. -/
def deleteSessionInstance (sessionId : Uint16) :
    List (SessionInstance Functions Transport) → List (SessionInstance Functions Transport) × Bool
  | [] => ([], false)
  | instance' :: next =>
    if instance'.sessionId = sessionId then ([], true) -- `session_instance_linked_list = NULL`
    else
      let (next, result) := deleteNextInstance sessionId next
      (instance' :: next, result)

theorem deleteSessionInstance_self (first : SessionInstance Functions Transport)
    (rest : List (SessionInstance Functions Transport)) :
    deleteSessionInstance first.sessionId (first :: rest) = ([], true) :=
  if_pos rfl

/-- `GaiaFramework_ShutDownDataChannels`. -/
def shutDownDataChannels (sessions : List (SessionInstance Functions Transport)) :
    List (SessionInstance Functions Transport) :=
  match sessions with
  | [] => []
  | first :: rest => shutDownDataChannels (deleteSessionInstance first.sessionId (first :: rest)).1
termination_by sessions.length
decreasing_by
  rw [deleteSessionInstance_self]
  exact Nat.zero_lt_succ _

/-- `session_id_counter` after a session is created. -/
def nextSessionId (counter : Uint16) : Uint16 :=
  let counter := (counter + 1) &&& 0xFFFF
  if counter = invalidDataTransferSessionId then counter + 1 else counter

/-- The counter, the list, and the sessions created and not deleted. -/
structure DataChannel (Functions Transport : Type) where
  sessionIdCounter : Uint16
  sessions : List (SessionInstance Functions Transport)
  live : List (SessionInstance Functions Transport)

inductive DataChannelOp (Functions Transport : Type)
  | createDataTransferSession (t : Transport) (featureId : Byte) (functions : Functions)
  | deleteDataTransferSession (sessionId : Uint16)
  | shutDownDataChannels

namespace DataChannel

def init : DataChannel Functions Transport := ⟨0x0000, [], []⟩

def step (s : DataChannel Functions Transport) :
    DataChannelOp Functions Transport → Option (DataChannel Functions Transport)
  | .createDataTransferSession t featureId functions =>
    let sessionId := nextSessionId s.sessionIdCounter
    some ⟨sessionId, addSessionInstance t sessionId featureId functions s.sessions,
      s.live ++ [⟨sessionId, featureId, functions, t⟩]⟩
  | .deleteDataTransferSession sessionId =>
    some { s with
      sessions := (deleteSessionInstance sessionId s.sessions).1
      live := s.live.filter fun session => session.sessionId ≠ sessionId }
  | .shutDownDataChannels =>
    some { s with sessions := Gaia.shutDownDataChannels s.sessions, live := [] }

/-- The list holds the sessions created and not deleted, and each can be found. -/
structure Right (s : DataChannel Functions Transport) : Prop where
  holds : s.sessions.Perm s.live
  distinct : (s.live.map SessionInstance.sessionId).Nodup
  valid : ∀ session ∈ s.live, session.sessionId ≠ invalidDataTransferSessionId
  reachable : ∀ session ∈ s.live,
    findSessionInstance session.sessionId s.sessions = some session ∧
      getDataTransferFunctionTable session.sessionId s.sessions = some session.functions

/-- What the code does rightly: the id that follows the counter, where 1 follows 65535, is not that
of a session, and the first session is deleted only when it is the only one. -/
def Tidy (s : DataChannel Functions Transport) : DataChannelOp Functions Transport → Prop
  | .createDataTransferSession _ _ _ => ∀ session ∈ s.live,
      session.sessionId ≠ if s.sessionIdCounter = 0xFFFF then 1 else s.sessionIdCounter + 1
  | .deleteDataTransferSession sessionId => ∀ first rest, s.sessions = first :: rest →
      first.sessionId = sessionId → rest = []
  | .shutDownDataChannels => True

end DataChannel

/-! ## The list -/

section Sessions

variable {sessions : List (SessionInstance Functions Transport)}
  {session : SessionInstance Functions Transport} {sessionId : Uint16}

theorem shutDownDataChannels_eq_nil (sessions : List (SessionInstance Functions Transport)) :
    shutDownDataChannels sessions = [] := by
  cases sessions with
  | nil => rw [shutDownDataChannels]
  | cons first rest => rw [shutDownDataChannels, deleteSessionInstance_self, shutDownDataChannels]

/-- With distinct ids a session is found by its own. -/
theorem findSessionInstance_of_mem (hdistinct : (sessions.map SessionInstance.sessionId).Nodup)
    (hmem : session ∈ sessions) : findSessionInstance session.sessionId sessions = some session := by
  induction sessions with
  | nil => cases hmem
  | cons first rest ih =>
    rw [map_cons, nodup_cons] at hdistinct
    rw [findSessionInstance]
    rcases mem_cons.mp hmem with rfl | hrest
    · exact if_pos rfl
    · have hne : first.sessionId ≠ session.sessionId := fun heq =>
        hdistinct.1 (heq ▸ List.mem_map_of_mem hrest)
      rw [if_neg hne]
      exact ih hdistinct.2 hrest

theorem getDataTransferFunctionTable_eq (sessionId : Uint16)
    (sessions : List (SessionInstance Functions Transport)) :
    getDataTransferFunctionTable sessionId sessions =
      (findSessionInstance sessionId sessions).map SessionInstance.functions := by
  induction sessions with
  | nil => rfl
  | cons first rest ih =>
    rw [getDataTransferFunctionTable, findSessionInstance, ih]
    split_ifs <;> rfl

theorem filter_eq_self_of_forall_ne (h : ∀ session ∈ sessions, session.sessionId ≠ sessionId) :
    sessions.filter (fun session => session.sessionId ≠ sessionId) = sessions :=
  filter_eq_self.mpr fun session hmem => decide_eq_true (h session hmem)

/-- Behind the first session, the session with the id is deleted and the others stay. -/
theorem deleteNextInstance_eq (hdistinct : (sessions.map SessionInstance.sessionId).Nodup) :
    (deleteNextInstance sessionId sessions).1 =
      sessions.filter fun session => session.sessionId ≠ sessionId := by
  induction sessions with
  | nil => rfl
  | cons first rest ih =>
    rw [map_cons, nodup_cons] at hdistinct
    rw [deleteNextInstance]
    by_cases heq : first.sessionId = sessionId
    · have hrest : ∀ session ∈ rest, session.sessionId ≠ sessionId := fun session hmem heq' =>
        hdistinct.1 (heq.trans heq'.symm ▸ List.mem_map_of_mem hmem)
      rw [if_pos heq, filter_cons_of_neg (by simp [heq]), filter_eq_self_of_forall_ne hrest]
    · rw [if_neg heq, filter_cons_of_pos (by simp [heq]), ← ih hdistinct.2]

end Sessions

/-! ## Runs -/

namespace DataChannel

variable {s s' : DataChannel Functions Transport} {op : DataChannelOp Functions Transport}

/-- What a tidy run keeps. -/
structure Good (s : DataChannel Functions Transport) : Prop where
  same : s.sessions = s.live
  distinct : (s.live.map SessionInstance.sessionId).Nodup
  valid : ∀ session ∈ s.live, session.sessionId ≠ invalidDataTransferSessionId

theorem Good.right (h : s.Good) : s.Right where
  holds := h.same ▸ List.Perm.refl _
  distinct := h.distinct
  valid := h.valid
  reachable := fun session hmem => by
    have hfind := findSessionInstance_of_mem h.distinct hmem
    rw [h.same, getDataTransferFunctionTable_eq, hfind]
    exact ⟨rfl, rfl⟩

theorem nextSessionId_eq (counter : Uint16) :
    nextSessionId counter = if counter = 0xFFFF then 1 else counter + 1 := by
  unfold nextSessionId invalidDataTransferSessionId
  have hmask : (counter + 1) &&& 0xFFFF = counter + 1 := BitVec.and_allOnes
  have hiff : counter + 1 = 0x0000 ↔ counter = 0xFFFF := by
    constructor <;> intro h <;> bv_omega
  dsimp only
  rw [hmask]
  by_cases hlast : counter = 0xFFFF
  · rw [if_pos (hiff.mpr hlast), if_pos hlast, hlast]
    rfl
  · rw [if_neg (mt hiff.mp hlast), if_neg hlast]

theorem nextSessionId_ne (counter : Uint16) :
    nextSessionId counter ≠ invalidDataTransferSessionId := by
  rw [nextSessionId_eq, invalidDataTransferSessionId]
  split_ifs with hlast
  · decide
  · bv_omega

theorem good_step (h : s.Good) (htidy : s.Tidy op) (hstep : s.step op = some s') : s'.Good := by
  cases op with
  | createDataTransferSession t featureId functions =>
    obtain rfl := some.inj hstep
    refine ⟨congrArg (· ++ _) h.same, ?_, fun session hmem => ?_⟩
    · change ((s.live ++ [_]).map SessionInstance.sessionId).Nodup
      rw [map_append, nodup_append]
      refine ⟨h.distinct, pairwise_singleton _ _, fun i hi j hj => ?_⟩
      obtain ⟨session, hmem, rfl⟩ := List.mem_map.mp hi
      rw [mem_singleton.mp hj, nextSessionId_eq]
      exact htidy session hmem
    · rcases mem_append.mp hmem with hold | hnew
      · exact h.valid session hold
      · rw [mem_singleton.mp hnew]
        exact nextSessionId_ne _
  | deleteDataTransferSession sessionId =>
    obtain rfl := some.inj hstep
    have hsub : (s.live.filter fun session => session.sessionId ≠ sessionId).Sublist s.live :=
      filter_sublist
    refine ⟨?_, h.distinct.sublist (hsub.map _), fun session hmem =>
      h.valid session (hsub.subset hmem)⟩
    have hdistinct := h.distinct
    dsimp only
    rw [← h.same] at hdistinct ⊢
    unfold Tidy at htidy
    dsimp only at htidy
    cases hlist : s.sessions with
    | nil => rfl
    | cons first rest =>
      rw [hlist, map_cons, nodup_cons] at hdistinct
      rw [deleteSessionInstance]
      by_cases heq : first.sessionId = sessionId
      · rw [if_pos heq, htidy first rest hlist heq, filter_cons_of_neg (by simp [heq])]
        rfl
      · rw [if_neg heq, filter_cons_of_pos (by simp [heq]),
          ← deleteNextInstance_eq hdistinct.2]
  | shutDownDataChannels =>
    obtain rfl := some.inj hstep
    exact ⟨shutDownDataChannels_eq_nil _, nodup_nil, fun session hmem => by cases hmem⟩

theorem tidy_of_right (h : s.Good) (hstep : s.step op = some s') (hright : s'.Right) :
    s.Tidy op := by
  cases op with
  | createDataTransferSession t featureId functions =>
    obtain rfl := some.inj hstep
    have hdistinct := hright.distinct
    change ((s.live ++ [_]).map SessionInstance.sessionId).Nodup at hdistinct
    rw [map_append, nodup_append] at hdistinct
    intro session hmem
    rw [← nextSessionId_eq]
    exact hdistinct.2.2 _ (List.mem_map_of_mem hmem) _ mem_cons_self
  | deleteDataTransferSession sessionId =>
    obtain rfl := some.inj hstep
    rintro first rest hlist heq
    have hdistinct := h.distinct
    have hholds := hright.holds
    dsimp only at hholds
    rw [← h.same, hlist, map_cons, nodup_cons] at hdistinct
    have hrest : ∀ session ∈ rest, session.sessionId ≠ sessionId := fun session hmem heq' =>
      hdistinct.1 (heq.trans heq'.symm ▸ List.mem_map_of_mem hmem)
    rw [← h.same, hlist, ← heq, deleteSessionInstance_self, heq,
      filter_cons_of_neg (by simp [heq]), filter_eq_self_of_forall_ne hrest] at hholds
    exact hholds.symm.eq_nil
  | shutDownDataChannels => trivial

theorem good_init : (init : DataChannel Functions Transport).Good :=
  ⟨rfl, nodup_nil, fun session hmem => by cases hmem⟩

theorem exists_run (s : DataChannel Functions Transport)
    (ops : List (DataChannelOp Functions Transport)) : ∃ s', run step s ops = some s' := by
  induction ops generalizing s with
  | nil => exact ⟨s, rfl⟩
  | cons op ops ih => cases op <;> exact ih _

/-- **The sessions.** -/
theorem sessions_right_iff_tidy (ops : List (DataChannelOp Functions Transport)) :
    Throughout step Right init ops ↔ Meets step Tidy init ops := by
  obtain ⟨s', hrun⟩ := exists_run init ops
  exact throughout_iff_meets_of_good (fun _ h => h.right)
    (fun _ _ _ h htidy hstep => good_step h htidy hstep)
    (fun _ _ _ h hstep hright => tidy_of_right h hstep hright) good_init hrun

end DataChannel

end Mh40.Gaia
