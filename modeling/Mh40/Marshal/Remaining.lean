import Mh40.Marshal.Piecemeal
import Mh40.Marshal.Sets

/-!
# The bytes that remain

`marshal_remaining`: the count of the bytes that a suspended marshaller still has to produce, by a
second traversal of the objects whose values are not written yet.

* `marshal_progress`: what a call did, read off its result alone. It wrote whole chunks; when it
  returned `true` these were all the pending ones, else the others are pending behind them. No
  assumption on the buffer is needed, and none on what is still to come.
* `marshalRemaining_eq_pending`: the count is the length of the pending chunks.
* `remaining_eq_produced`: so the count after a call that returned `false` is what the following
  calls produce together, over buffers of any sizes, until one returns `true`.

The marshaller is `Reached`: any calls were made on it, also before a buffer was set, and the
client changed its memory as it liked between two hierarchies. The counts are natural numbers.
-/

namespace Mh40.Marshal

open Lib List Option

/-- `marshal_clear_store`. The state stays as it is. -/
def marshalClearStore (m : Marshaller) : Marshaller :=
  { m with base := baseMobsInit, nextValuesIndex := mobIndexNull + 1, nextPointersIndex := 0 }

/-! ## Counting -/

/-- `count_remaining_value`. -/
def countRemainingValue (_leafAddress : Addr) (typeDesc : TypeDescriptor) (remaining : ℕ) :
    Option (Bool × ℕ) :=
  some (true, remaining + typeDesc.size.toNat)

/-- `count_remaining_values`. -/
def countRemainingValues (T : TypeTable) (mem : Memory) (_index : ℕ) (object : Mob)
    (remaining : ℕ) : Option (Bool × ℕ) := do
  let typeDesc ← T.desc object.type
  let remaining := remaining + 1
  let remaining := if typeDesc.dynamicLength then remaining + 1 else remaining
  let (finished, remaining) ←
    objectTreeTraverse T (fun _ => mem) ⟨some countRemainingValue, none, none⟩ object remaining
  if finished then some (true, remaining) else none

/-- The pointer members whose index is not written yet. A difference below zero would wrap. -/
def remainingPointers (m : Marshaller) : Option ℕ :=
  if m.nextPointersIndex ≤ m.base.pointerMemberSet.length then
    some (m.base.pointerMemberSet.length - m.nextPointersIndex)
  else none

/-- `marshal_remaining`. -/
def marshalRemaining (T : TypeTable) (mem : Memory) (m : Marshaller) : Option ℕ :=
  match m.state with
  | .registerPointers => some 0
  | .marshalValues => do
    let (finished, remaining) ← mobsIterate (fun _ => m.base.objectSet) m.nextValuesIndex
      (countRemainingValues T mem) 0
    let pointers ← remainingPointers m
    if finished then some (remaining + 1 + pointers) else none
  | .marshalValuesEnd => (remainingPointers m).map (1 + ·)
  | .marshalPointerIndexes => remainingPointers m

/-- One call: `marshal`, on the buffer of the call before or after `marshal_set_buffer`. -/
structure MarshalCall where
  buffer : Option ℕ
  addr : Addr
  type : MarshalType

/-- The marshaller on the buffer of the call. -/
def MarshalCall.onBuffer (call : MarshalCall) (m : Marshaller) : Marshaller :=
  match call.buffer with
  | some space => marshalSetBuffer m space
  | none => m

/-- The calls until `marshal` returns `true`: whether it did, and how many bytes they produced. -/
def marshalUntil (T : TypeTable) (mem : Memory) :
    Marshaller → List MarshalCall → Option (Bool × ℕ × Marshaller)
  | m, [] => some (false, 0, m)
  | m, call :: calls => do
    let m := call.onBuffer m
    let (finished, m') ← marshal T mem m call.addr call.type
    let produced := marshalProduced m' - marshalProduced m
    if finished then some (true, produced, m')
    else
      let (finished, rest, m'') ← marshalUntil T mem m' calls
      some (finished, produced + rest, m'')

/-- The marshaller after any calls since `marshal_init`, each on the memory of its time. -/
inductive Reached (T : TypeTable) : Marshaller → Prop
  | init : Reached T marshalInit
  | setBuffer {m : Marshaller} (h : Reached T m) (space : ℕ) : Reached T (marshalSetBuffer m space)
  | clearStore {m : Marshaller} (h : Reached T m) : Reached T (marshalClearStore m)
  | marshal {m m' : Marshaller} (h : Reached T m) (mem : Memory) (addr : Addr)
      (type : MarshalType) (finished : Bool)
      (hcall : marshal T mem m addr type = some (finished, m')) : Reached T m'

variable {T : TypeTable} {mem : Memory} {m m' : Marshaller} {finished : Bool} {object : Mob}
  {cs : List (List UInt8)} {index : ℕ} {value : UInt8} {a : Addr} {b : Bool}

/-! ## What a call wrote -/

theorem chunks_append {chunk : Mob → Option (List UInt8)} {set set' : Mobs}
    {cs cs' : List (List UInt8)} (h : chunks chunk set = some cs)
    (h' : chunks chunk set' = some cs') : chunks chunk (set ++ set') = some (cs ++ cs') := by
  induction set generalizing cs with
  | nil =>
    cases h
    exact h'
  | cons o set ih =>
    simp only [chunks, bind_eq_bind, bind_eq_some_iff] at h
    obtain ⟨c, hc, rest, hrest, h⟩ := h
    cases h
    simp [chunks, hc, ih hrest]

/-- **What an iteration did.** `st i w` is the state in which the chunks before index `i` are
written and the buffer holds `w`. Each turn of the callback wrote a chunk, or nothing and ended
the iteration. -/
theorem mobsIterateFrom_wrote (chunk : Mob → Option (List UInt8)) (objects : Mobs)
    (st : ℕ → List UInt8 → Marshaller) {set : Marshaller → Mobs}
    {cb : ℕ → Mob → Marshaller → Option (Bool × Marshaller)} (hset : ∀ i w, set (st i w) = objects)
    (htrue : ∀ i o w s, cb i o (st i w) = some (true, s) →
      ∃ c, chunk o = some c ∧ s = st (i + 1) (w ++ c))
    (hfalse : ∀ i o w s, cb i o (st i w) = some (false, s) → s = st i w) {s : Marshaller} :
    ∀ {gas start : ℕ} {w : List UInt8},
      mobsIterateFrom set cb gas start (st start w) = some (finished, s) →
      ∃ k cs, chunks chunk ((objects.drop start).take k) = some cs ∧
        s = st (start + k) (w ++ cs.flatten) ∧
        (start ≤ objects.length → start + k ≤ objects.length) ∧
        (finished = true → objects.length ≤ start + k) := by
  intro gas
  induction gas with
  | zero =>
    intro start w h
    cases h
  | succ gas ih =>
    intro start w h
    unfold mobsIterateFrom at h
    rw [hset] at h
    rcases ho : objects[start]? with _ | o <;> rw [ho] at h
    · cases h
      exact ⟨0, [], by simp [chunks], by simp, fun h => h,
        fun _ => List.getElem?_eq_none_iff.mp ho⟩
    · obtain ⟨hi, rfl⟩ := List.getElem?_eq_some_iff.mp ho
      rcases hc : cb start objects[start] (st start w) with _ | ⟨_ | _, s'⟩ <;>
        simp only [hc] at h
      · cases h
      · cases h
        exact ⟨0, [], by simp [chunks], by simpa using hfalse _ _ _ _ hc, fun h => h, by simp⟩
      · obtain ⟨c, hchunk, rfl⟩ := htrue _ _ _ _ hc
        obtain ⟨k, cs, hcs, hs, hle, hend⟩ := ih h
        refine ⟨k + 1, c :: cs, ?_, ?_, fun _ => ?_, fun hf => ?_⟩
        · rw [drop_eq_getElem_cons hi, take_succ_cons]
          simp [chunks, hchunk, hcs]
        · rw [hs, flatten_cons, ← append_assoc, Nat.add_right_comm, Nat.add_assoc]
        · have := hle hi
          omega
        · have := hend hf
          omega

theorem hasBuffer_of_writeUint8 (h : writeUint8 value m = some (true, m')) :
    m.hasBuffer = true := by
  unfold writeUint8 at h
  split at h
  · split at h
    · assumption
    · cases h
  · cases h

/-- A write that failed wrote nothing. -/
theorem eq_of_writeUint8_false (h : writeUint8 value m = some (false, m')) :
    m' = m := by
  unfold writeUint8 at h
  split at h
  · split at h <;> cases h
  · cases h
    rfl

/-- `m'` is `m` with more in its buffer. -/
def Appends (m m' : Marshaller) : Prop := ∃ w, m' = { m with written := m.written ++ w }

theorem Appends.refl (m : Marshaller) : Appends m m := ⟨[], by simp⟩

theorem Appends.trans {m1 : Marshaller} (h : Appends m m1) (h' : Appends m1 m') :
    Appends m m' := by
  obtain ⟨w, rfl⟩ := h
  obtain ⟨w', rfl⟩ := h'
  exact ⟨w ++ w', by simp⟩

theorem appends_writeUint8 (h : writeUint8 value m = some (finished, m')) : Appends m m' := by
  cases finished with
  | false => exact eq_of_writeUint8_false h ▸ Appends.refl m
  | true => exact ⟨[value], eq_of_writeUint8 h⟩

theorem appends_valueCallback {v : Visit} (h : valueCallback mem a v m = some (finished, m')) :
    Appends m m' := by
  rw [valueCallback_eq] at h
  split at h
  · unfold writeValue at h
    split at h
    · simp only [bind_eq_bind, bind_eq_some_iff] at h
      obtain ⟨_, _, copy, _, h⟩ := h
      cases h
      exact ⟨copy, rfl⟩
    · cases h
      exact .refl m
  · cases h
    exact .refl m

theorem appends_writeHeader (h : writeHeader T object m = some (finished, m')) : Appends m m' := by
  simp only [writeHeader, bind_eq_bind, bind_eq_some_iff, Prod.exists] at h
  obtain ⟨typeDesc, _, written, m1, hw, h⟩ := h
  split at h
  · exact (appends_writeUint8 hw).trans (appends_writeUint8 h)
  · cases h
    exact appends_writeUint8 hw

theorem hasBuffer_of_writeHeader (h : writeHeader T object m = some (true, m')) :
    m.hasBuffer = true := by
  simp only [writeHeader, bind_eq_bind, bind_eq_some_iff, Prod.exists] at h
  obtain ⟨_, _, _ | _, _, hw, h⟩ := h
  · simp at h
  · exact hasBuffer_of_writeUint8 hw

theorem appends_writeObject (h : writeObject T mem object m = some (finished, m')) :
    Appends m m' := by
  simp only [writeObject, bind_eq_bind, bind_eq_some_iff, Prod.exists] at h
  obtain ⟨written, m1, hh, h⟩ := h
  have hm1 := appends_writeHeader hh
  split at h
  · unfold objectTreeTraverse at h
    split at h
    · cases h
    · rename_i a _
      exact Script.exec_keeps_result
        (fun _ _ _ _ hs hv => hs.trans (appends_valueCallback hv)) hm1 h
  · cases h
    exact hm1

/-- `marshal_values` wrote the chunk of its object. -/
theorem marshalValues_true (h : marshalValues T mem index object m = some (true, m')) :
    ∃ c, objectChunk T mem object = some c ∧
      m' = { m with written := m.written ++ c, nextValuesIndex := index + 1 } := by
  obtain ⟨c, hc⟩ := objectChunk_of_marshalValues h
  have hb : m.hasBuffer = true := by
    simp only [marshalValues, writeObject, bind_eq_bind, bind_eq_some_iff,
      Prod.exists] at h
    obtain ⟨_ | _, _, ⟨_ | _, _, hh, ho⟩, h⟩ := h
    · simp at h
    · simp at h
    · simp at ho
    · exact hasBuffer_of_writeHeader hh
  rw [marshalValues_spec hb hc] at h
  split at h
  · cases h
    exact ⟨c, hc, rfl⟩
  · cases h

/-- `marshal_values` restored the index. -/
theorem marshalValues_false (h : marshalValues T mem index object m = some (false, m')) :
    m' = m := by
  simp only [marshalValues, bind_eq_bind, bind_eq_some_iff, Prod.exists] at h
  obtain ⟨written, m1, hw, h⟩ := h
  obtain ⟨w, rfl⟩ := appends_writeObject hw
  split at h
  · cases h
  · cases h
    simp

theorem marshalPointerIndexes_true {pointer : Mob}
    (h : marshalPointerIndexes mem index pointer m = some (true, m')) :
    ∃ c, indexChunk mem m.base pointer = some c ∧
      m' = { m with written := m.written ++ c, nextPointersIndex := index + 1 } := by
  obtain ⟨c, hc⟩ := indexChunk_of_marshalPointerIndexes h
  have hb : m.hasBuffer = true := by
    simp only [marshalPointerIndexes, writePointerIndex, bind_eq_bind,
      bind_eq_some_iff, Prod.exists] at h
    obtain ⟨_ | _, _, ⟨_, _, _, _, _, _, hw⟩, h⟩ := h
    · simp at h
    · exact hasBuffer_of_writeUint8 hw
  rw [marshalPointerIndexes_spec hb hc] at h
  split at h
  · cases h
    exact ⟨c, hc, rfl⟩
  · cases h

theorem marshalPointerIndexes_false {pointer : Mob}
    (h : marshalPointerIndexes mem index pointer m = some (false, m')) : m' = m := by
  simp only [marshalPointerIndexes, writePointerIndex, bind_eq_bind,
    bind_eq_some_iff, Prod.exists] at h
  obtain ⟨_ | _, m1, ⟨_, _, _, _, _, _, hw⟩, h⟩ := h
  · obtain rfl := eq_of_writeUint8_false hw
    simpa using h.symm
  · simp at h

/-! ## A whole call -/

/-- What a call on registered objects did: it wrote the chunks `done`. When it returned `true`
these were all the pending ones, else the others are pending behind them. -/
structure Progress (T : TypeTable) (mem : Memory) (m : Marshaller) (finished : Bool)
    (m' : Marshaller) (done : List (List UInt8)) : Prop where
  written : m'.written = m.written ++ done.flatten
  state : m'.state = .registerPointers ↔ finished = true
  pending_true : finished = true → pending T mem m = some done
  pending_false : finished = false → ∀ rest, pending T mem m' = some rest →
    pending T mem m = some (done ++ rest)

/-- The chunks `done` were written before, in another state. -/
theorem Progress.after {m1 : Marshaller} {before done : List (List UInt8)}
    (h : Progress T mem m1 finished m' done) (hw : m1.written = m.written ++ before.flatten)
    (hp : ∀ rest, pending T mem m1 = some rest → pending T mem m = some (before ++ rest)) :
    Progress T mem m finished m' (before ++ done) where
  written := by rw [h.written, hw, flatten_append, append_assoc]
  state := h.state
  pending_true hf := hp done (h.pending_true hf)
  pending_false hf rest hr := by
    rw [append_assoc]
    exact hp _ (h.pending_false hf rest hr)

/-- The sets are in reach of `mobs_iterate`, and the next pointer member is in its set. -/
structure Marshaller.InReach (m : Marshaller) : Prop where
  objects : m.base.objectSet.length ≤ mobsMaxObjects
  pointers : m.base.pointerMemberSet.length ≤ mobsMaxObjects
  next : m.nextPointersIndex ≤ m.base.pointerMemberSet.length

theorem marshalPointerIndexesState_progress (hs : m.state = .marshalPointerIndexes)
    (h : marshalPointerIndexesState mem m = some (finished, m')) :
    (∃ done, Progress T mem m finished m' done) ∧ (m.InReach → m'.InReach) := by
  simp only [marshalPointerIndexesState, bind_eq_bind, bind_eq_some_iff,
    Prod.exists] at h
  obtain ⟨all, m1, hiter, h⟩ := h
  obtain ⟨k, cs, hcs, rfl, hle, hend⟩ := mobsIterateFrom_wrote
    (indexChunk mem m.base) m.base.pointerMemberSet
    (fun i w => { m with nextPointersIndex := i, written := w }) (w := m.written)
    (fun _ _ => rfl) (fun i o w s hs => marshalPointerIndexes_true hs)
    (fun i o w s hs => marshalPointerIndexes_false hs) hiter
  cases all with
  | true =>
    simp only [if_true, some.injEq, Prod.mk.injEq] at h
    obtain ⟨rfl, rfl⟩ := h
    refine ⟨⟨cs, rfl, by simp, fun _ => ?_, by simp⟩,
      fun hm => ⟨hm.objects, by simp, by simp⟩⟩
    rw [take_of_length_le (by rw [length_drop]; have := hend rfl; omega)] at hcs
    simpa only [pending, hs, pendingIndexes] using hcs
  | false =>
    simp only [Bool.false_eq_true, if_false, some.injEq, Prod.mk.injEq] at h
    obtain ⟨rfl, rfl⟩ := h
    refine ⟨⟨cs, rfl, by simp [hs], by simp, fun _ rest hrest => ?_⟩,
      fun hm => ⟨hm.objects, hm.pointers, hle hm.next⟩⟩
    simp only [pending, hs, pendingIndexes] at hrest ⊢
    rw [← take_append_drop k (m.base.pointerMemberSet.drop m.nextPointersIndex),
      drop_drop]
    exact chunks_append hcs hrest

theorem marshalValuesEndState_progress (hs : m.state = .marshalValuesEnd)
    (h : marshalValuesEndState mem m = some (finished, m')) :
    (∃ done, Progress T mem m finished m' done) ∧ (m.InReach → m'.InReach) := by
  simp only [marshalValuesEndState, bind_eq_bind, bind_eq_some_iff,
    Prod.exists] at h
  obtain ⟨_ | _, m1, hw, h⟩ := h
  · obtain rfl := eq_of_writeUint8_false hw
    simp only [Bool.false_eq_true, if_false, some.injEq, Prod.mk.injEq] at h
    obtain ⟨rfl, rfl⟩ := h
    exact ⟨⟨[], by simp, by simp [hs], by simp, fun _ rest hrest => hrest⟩, id⟩
  · obtain rfl := eq_of_writeUint8 hw
    obtain ⟨⟨done, hp⟩, hreach⟩ := marshalPointerIndexesState_progress (T := T) (by rfl) h
    refine ⟨⟨[[marshalTypesMax]] ++ done, hp.after (by simp) fun rest hrest => ?_⟩,
      fun hm => hreach ⟨hm.objects, hm.pointers, hm.next⟩⟩
    simp only [pending, pendingIndexes] at hrest
    simp [pending, hs, pendingIndexes, hrest]

theorem marshalValuesState_progress (hs : m.state = .marshalValues)
    (h : marshalValuesState T mem m = some (finished, m')) :
    (∃ done, Progress T mem m finished m' done) ∧ (m.InReach → m'.InReach) := by
  simp only [marshalValuesState, bind_eq_bind, bind_eq_some_iff, Prod.exists] at h
  obtain ⟨all, m1, hiter, h⟩ := h
  obtain ⟨k, cs, hcs, rfl, _, hend⟩ := mobsIterateFrom_wrote
    (objectChunk T mem) m.base.objectSet
    (fun i w => { m with nextValuesIndex := i, written := w }) (w := m.written)
    (fun _ _ => rfl) (fun i o w s hs => marshalValues_true hs)
    (fun i o w s hs => marshalValues_false hs) hiter
  cases all with
  | true =>
    simp only [if_true] at h
    rw [take_of_length_le (by rw [length_drop]; have := hend rfl; omega)] at hcs
    obtain ⟨⟨done, hp⟩, hreach⟩ := marshalValuesEndState_progress (T := T) (by rfl) h
    refine ⟨⟨cs ++ done, hp.after rfl fun rest hrest => ?_⟩,
      fun hm => hreach ⟨hm.objects, hm.pointers, hm.next⟩⟩
    simp only [pending, map_eq_some_iff] at hrest
    obtain ⟨indexes, hi, rfl⟩ := hrest
    have hi' : pendingIndexes mem m = some indexes := hi
    simp [pending, hs, hcs, hi']
  | false =>
    simp only [Bool.false_eq_true, if_false, some.injEq, Prod.mk.injEq] at h
    obtain ⟨rfl, rfl⟩ := h
    refine ⟨⟨cs, rfl, by simp [hs], by simp, fun _ rest hrest => ?_⟩,
      fun hm => ⟨hm.objects, hm.pointers, hm.next⟩⟩
    simp only [pending, hs, bind_eq_bind, bind_eq_some_iff] at hrest
    obtain ⟨values, hv, indexes, hi, hrest⟩ := hrest
    cases hrest
    have hi' : pendingIndexes mem m = some indexes := hi
    have hall := chunks_append hcs hv
    rw [← drop_drop, take_append_drop] at hall
    simp [pending, hs, hall, hi']

/-! ## The registration of a hierarchy -/

/-- What each turn keeps, an iteration keeps. -/
theorem mobsIterateFrom_keeps {σ : Type} {set : σ → Mobs} {cb : ℕ → Mob → σ → Option (Bool × σ)}
    {Inv : σ → Prop} (hcb : ∀ i o s b s', Inv s → cb i o s = some (b, s') → Inv s') {gas start : ℕ}
    {s s' : σ} (hs : Inv s) (h : mobsIterateFrom set cb gas start s = some (finished, s')) :
    Inv s' := by
  induction gas generalizing start s with
  | zero => cases h
  | succ gas ih =>
    unfold mobsIterateFrom at h
    split at h
    · cases h
      exact hs
    · split at h
      · cases h
      · cases h
        exact hcb _ _ _ _ _ hs ‹_›
      · exact ih (hcb _ _ _ _ _ hs ‹_›) h

/-- The sets are not too long, and the pointer members of before are in theirs. -/
structure MarshalBase.Extends (base base' : MarshalBase) : Prop where
  objects : base'.objectSet.length ≤ mobsMaxObjects
  pointers : base'.pointerMemberSet.length ≤ mobsMaxObjects
  le : base.pointerMemberSet.length ≤ base'.pointerMemberSet.length

theorem length_of_mobsPush {set set' : Mobs} {pushed : Bool} (hset : set.length ≤ mobsMaxObjects)
    (h : mobsPush set object = some (pushed, set')) :
    set'.length ≤ mobsMaxObjects := by
  rcases mobsPush_cases set object with ⟨_, _, hp⟩ | ⟨_, ⟨hlt, hp⟩ | ⟨_, hp⟩⟩ <;> rw [hp] at h <;>
    cases h
  · exact hset
  · rw [length_append]
    exact hlt

variable {base base0 base' : MarshalBase}

theorem registerPointer_extends {desc : MemberDescriptor} {parent : Mob} (hb : base0.Extends base)
    (h : registerPointer T mem a desc parent base = some (b, base')) :
    base0.Extends base' := by
  simp only [registerPointer, bind_eq_bind, bind_eq_some_iff, Prod.exists] at h
  obtain ⟨_, _, _, _, _, _, hpush, set, hunique, h⟩ := h
  obtain ⟨hlt, rfl⟩ := mobsPushUnique_eq_some_iff.mp hunique
  cases h
  have hlen : (base.pointerMemberSet ++ [(⟨some a, desc.type, 0⟩ : Mob)]).length =
      base.pointerMemberSet.length + 1 := length_append
  exact ⟨length_of_mobsPush hb.objects hpush, hlen ▸ hlt, hlen ▸ Nat.le_succ_of_le hb.le⟩

theorem registerPointerMembers_extends (hb : base0.Extends base)
    (h : registerPointerMembers T mem index object base = some (b, base')) :
    base0.Extends base' := by
  unfold registerPointerMembers objectTreeTraverse at h
  split at h
  · cases h
  · refine Script.exec_keeps_result (fun v s b s' hs hv => ?_) hb h
    unfold traverseCallback at hv
    split at hv
    · cases hv
      exact hs
    · exact registerPointer_extends hs hv

/-- The registration of shared members leaves the two other sets as they are. -/
theorem registerSharedMembers_extends (hb : base0.Extends base)
    (h : registerSharedMembers T mem index object base = some (b, base')) :
    base0.Extends base' := by
  unfold registerSharedMembers objectTreeTraverse at h
  split at h
  · cases h
  · refine Script.exec_keeps_result (fun v s b s' hs hv => ?_) hb h
    unfold traverseCallback at hv
    split at hv
    · simp only [registerSharedMember, bind_eq_bind] at hv
      split at hv
      · obtain ⟨⟨pushed, set⟩, _, hv⟩ := bind_eq_some_iff.mp hv
        cases pushed <;> cases hv
        exact ⟨hs.objects, hs.pointers, hs.le⟩
      · cases hv
        exact hs
    · cases hv
      exact hs

theorem length_mobsDifferenceUpdate_le (set remove : Mobs) :
    (mobsDifferenceUpdate set remove).length ≤ set.length := by
  unfold mobsDifferenceUpdate
  induction remove generalizing set with
  | nil => exact Nat.le_refl _
  | cons o remove ih => exact Nat.le_trans (ih _) eraseP_sublist.length_le

theorem registerObjects_extends {start : ℕ} (hb : base0.Extends base)
    (h : registerObjects T mem start base = some base') : base0.Extends base' := by
  simp only [registerObjects, bind_eq_bind, bind_eq_some_iff, Prod.exists] at h
  obtain ⟨_ | _, base1, hiter, h⟩ := h
  · simp at h
  have hb1 : base0.Extends base1 := mobsIterateFrom_keeps
    (fun i o s b s' hs hcb => registerPointerMembers_extends hs hcb) hb hiter
  simp only [if_true, registerShared] at h
  split at h
  · simp only [bind_eq_bind, bind_eq_some_iff, Prod.exists] at h
    obtain ⟨all, base2, hiter, h⟩ := h
    have hb2 : base0.Extends base2 := mobsIterateFrom_keeps
      (fun i o s b s' hs hcb => registerSharedMembers_extends hs hcb) hb1 hiter
    split at h
    · cases h
      exact ⟨Nat.le_trans (length_mobsDifferenceUpdate_le _ _) hb2.objects, hb2.pointers, hb2.le⟩
    · cases h
  · cases h
    exact hb1

/-! ## Any call -/

/-- **What a call did.** A call on registered objects wrote whole chunks of the pending ones. -/
theorem marshal_progress {addr : Addr} {type : MarshalType} (hs : m.state ≠ .registerPointers)
    (h : marshal T mem m addr type = some (finished, m')) :
    (∃ done, Progress T mem m finished m' done) ∧ (m.InReach → m'.InReach) := by
  unfold marshal at h
  split at h
  · cases hstate : m.state with
    | registerPointers => exact absurd hstate hs
    | marshalValues =>
      simp only [hstate] at h
      exact marshalValuesState_progress hstate h
    | marshalValuesEnd =>
      simp only [hstate] at h
      exact marshalValuesEndState_progress hstate h
    | marshalPointerIndexes =>
      simp only [hstate] at h
      exact marshalPointerIndexesState_progress hstate h
  · cases h

theorem inReach_baseMobsInit (hbase : m.base = baseMobsInit) (hnext : m.nextPointersIndex = 0) :
    m.InReach := by
  refine ⟨?_, ?_, hnext ▸ Nat.zero_le _⟩ <;> rw [hbase] <;> decide

/-- A call stays in reach, and is back at the registration exactly when it returned `true`. -/
theorem marshal_inReach {addr : Addr} {type : MarshalType} (hm : m.InReach)
    (h : marshal T mem m addr type = some (finished, m')) :
    m'.InReach ∧ (m'.state = .registerPointers ↔ finished = true) := by
  by_cases hs : m.state = .registerPointers
  · unfold marshal at h
    split at h
    · simp only [hs, registerPointersState, bind_eq_bind, bind_eq_some_iff,
        Prod.exists] at h
      obtain ⟨_, _, pushed, set, hpush, h⟩ := h
      have hset := length_of_mobsPush hm.objects hpush
      cases pushed with
      | false =>
        cases h
        exact ⟨hm, by simp [hs]⟩
      | true =>
        simp only [if_true, bind_eq_some_iff] at h
        obtain ⟨base, hbase, h⟩ := h
        have hpushed : m.base.Extends { m.base with objectSet := set } :=
          ⟨hset, hm.pointers, Nat.le_refl _⟩
        have hext := registerObjects_extends hpushed hbase
        obtain ⟨⟨done, hp⟩, hreach⟩ := marshalValuesState_progress (by rfl) h
        exact ⟨hreach ⟨hext.objects, hext.pointers, Nat.le_trans hm.next hext.le⟩, hp.state⟩
    · cases h
  · obtain ⟨⟨done, hp⟩, hreach⟩ := marshal_progress hs h
    exact ⟨hreach hm, hp.state⟩

theorem Reached.inReach (h : Reached T m) : m.InReach := by
  induction h with
  | init => exact inReach_baseMobsInit rfl rfl
  | setBuffer _ space ih => exact ⟨ih.objects, ih.pointers, ih.next⟩
  | clearStore _ ih => exact inReach_baseMobsInit rfl rfl
  | marshal _ mem addr type finished hcall ih => exact (marshal_inReach ih hcall).1

/-! ## The count -/

/-- The leaf values that are counted are those that are written. -/
theorem forEach_countRemainingValue {vs : List Visit} {bs : List UInt8}
    (h : valuesBytes mem a vs = some bs) (remaining : ℕ) :
    forEach (traverseCallback a ⟨some countRemainingValue, none, none⟩) vs remaining =
      some (true, remaining + bs.length) := by
  induction vs generalizing bs remaining with
  | nil =>
    cases h
    rfl
  | cons v vs ih =>
    simp only [valuesBytes, bind_eq_bind, bind_eq_some_iff] at h
    obtain ⟨b, hv, rest, hrest, h⟩ := h
    cases h
    have hcount : traverseCallback a ⟨some countRemainingValue, none, none⟩ v remaining =
        some (true, remaining + b.length) := by
      unfold leafBytes Visit.isLeaf at hv
      unfold traverseCallback countRemainingValue
      split at hv
      · rename_i hleaf
        obtain ⟨raw, hr, hc⟩ := bind_eq_some_iff.mp hv
        rw [Bool.and_eq_true] at hleaf
        rw [length_of_customCopy hc, Memory.length_of_readBytes hr]
        simp [hleaf.1, hleaf.2]
      · rename_i hleaf
        cases hv
        cases hp : v.descriptor.isPointer <;> simp_all
    unfold forEach
    rw [hcount]
    simp only [ih hrest, length_append, Nat.add_assoc]

/-- An object counts as many bytes as its chunk has. -/
theorem countRemainingValues_eq {c : List UInt8} (h : objectChunk T mem object = some c)
    (remaining : ℕ) :
    countRemainingValues T mem index object remaining = some (true, remaining + c.length) := by
  simp only [objectChunk, bind_eq_bind, bind_eq_some_iff] at h
  obtain ⟨typeDesc, hd, a, ha, vs, hvs, values, hval, h⟩ := h
  cases h
  simp only [countRemainingValues, hd, bind_eq_bind, bind_some,
    objectTreeTraverse_eq ha hvs, forEach_countRemainingValue hval, if_true]
  cases hdyn : typeDesc.dynamicLength <;> simp [headerBytes, hdyn] <;> omega

theorem mobsIterateFrom_countRemainingValues {objects : Mobs} {gas start : ℕ}
    (h : chunks (objectChunk T mem) (objects.drop start) = some cs) (hpos : 0 < gas)
    (hgas : objects.length < start + gas) (remaining : ℕ) :
    mobsIterateFrom (fun _ => objects) (countRemainingValues T mem) gas start remaining =
      some (true, remaining + cs.flatten.length) := by
  induction gas generalizing start cs remaining with
  | zero => cases hpos
  | succ gas ih =>
    unfold mobsIterateFrom
    rcases ho : objects[start]? with _ | o
    · rw [drop_eq_nil_of_le (List.getElem?_eq_none_iff.mp ho)] at h
      cases h
      rfl
    · obtain ⟨hi, rfl⟩ := List.getElem?_eq_some_iff.mp ho
      rw [drop_eq_getElem_cons hi] at h
      simp only [chunks, bind_eq_bind, bind_eq_some_iff] at h
      obtain ⟨c, hc, rest, hrest, h⟩ := h
      cases h
      simp only [countRemainingValues_eq hc, ih hrest (by omega) (by omega), flatten_cons,
        length_append, Nat.add_assoc]

/-- An index is one byte. -/
theorem length_flatten_indexes {pointers : Mobs}
    (h : chunks (indexChunk mem base) pointers = some cs) :
    cs.flatten.length = pointers.length := by
  induction pointers generalizing cs with
  | nil =>
    cases h
    rfl
  | cons p pointers ih =>
    simp only [chunks, bind_eq_bind, bind_eq_some_iff] at h
    obtain ⟨c, hc, rest, hrest, h⟩ := h
    cases h
    simp only [indexChunk, bind_eq_bind, bind_eq_some_iff] at hc
    obtain ⟨_, _, _, _, _, _, hc⟩ := hc
    cases hc
    simp [ih hrest]

theorem remainingPointers_eq_pending (hm : m.InReach) (h : pendingIndexes mem m = some cs) :
    remainingPointers m = some cs.flatten.length := by
  rw [length_flatten_indexes h, length_drop]
  exact if_pos hm.next

/-- **The count is the length of what is pending.** -/
theorem marshalRemaining_eq_pending (hm : m.InReach) (h : pending T mem m = some cs) :
    marshalRemaining T mem m = some cs.flatten.length := by
  unfold marshalRemaining
  unfold pending at h
  cases hs : m.state with
  | registerPointers =>
    simp only [hs, some.injEq] at h
    subst h
    rfl
  | marshalValues =>
    simp only [hs, bind_eq_bind, bind_eq_some_iff] at h
    obtain ⟨values, hv, indexes, hi, h⟩ := h
    cases h
    have hobjects := hm.objects
    have hcount := mobsIterateFrom_countRemainingValues hv (Nat.succ_pos mobsMaxObjects)
      (by omega) 0
    simp only [mobsIterate, hcount, remainingPointers_eq_pending hm hi, bind_eq_bind,
      bind_some, if_true, flatten_append, flatten_cons, length_append,
      length_singleton, Nat.zero_add, Nat.add_assoc]
  | marshalValuesEnd =>
    simp only [hs] at h
    obtain ⟨indexes, hi, rfl⟩ := map_eq_some_iff.mp h
    simp [remainingPointers_eq_pending hm hi, Nat.add_comm]
  | marshalPointerIndexes =>
    simp only [hs] at h
    exact remainingPointers_eq_pending hm h

/-- The calls up to the first that returns `true` write what is pending. -/
theorem pending_of_marshalUntil {calls : List MarshalCall} {n : ℕ}
    (hs : m.state ≠ .registerPointers)
    (h : marshalUntil T mem m calls = some (true, n, m')) :
    ∃ cs, pending T mem m = some cs ∧ n = cs.flatten.length := by
  induction calls generalizing m n with
  | nil => cases h
  | cons call calls ih =>
    simp only [marshalUntil, bind_eq_bind, bind_eq_some_iff, Prod.exists] at h
    obtain ⟨finished, m1, hcall, h⟩ := h
    have hbuffer : (call.onBuffer m).state = m.state ∧
        pending T mem (call.onBuffer m) = pending T mem m := by
      unfold MarshalCall.onBuffer
      split <;> exact ⟨rfl, rfl⟩
    obtain ⟨⟨done, hp⟩, _⟩ := marshal_progress (hbuffer.1 ▸ hs) hcall
    have hproduced : marshalProduced m1 - marshalProduced (call.onBuffer m) =
        done.flatten.length := by
      rw [marshalProduced, marshalProduced, hp.written, length_append, Nat.add_sub_cancel_left]
    rw [hproduced] at h
    rw [← hbuffer.2]
    cases finished with
    | true =>
      simp only [if_true, some.injEq, Prod.mk.injEq] at h
      exact ⟨done, hp.pending_true rfl, h.2.1.symm⟩
    | false =>
      simp only [Bool.false_eq_true, if_false, bind_eq_some_iff, Prod.exists] at h
      obtain ⟨_, rest, m2, hrest, h⟩ := h
      cases h
      have hs1 : m1.state ≠ .registerPointers := fun h => by simpa using hp.state.mp h
      obtain ⟨cs, hcs, rfl⟩ := ih hs1 hrest
      exact ⟨done ++ cs, hp.pending_false rfl cs hcs, by simp⟩

/-- **`marshal_remaining` is what the following calls produce.** -/
theorem remaining_eq_produced (T : TypeTable) (m m' : Marshaller) (mem : Memory) (addr : Addr)
    (type : MarshalType) (finished : Bool) (hm : Reached T m)
    (hcall : marshal T mem m addr type = some (finished, m')) :
    (finished = false → ∀ calls n m'', marshalUntil T mem m' calls = some (true, n, m'') →
      marshalRemaining T mem m' = some n) ∧
    (finished = true → marshalRemaining T mem m' = some 0) := by
  obtain ⟨hreach, hstate⟩ := marshal_inReach hm.inReach hcall
  refine ⟨fun hf calls n m'' h => ?_, fun hf => ?_⟩
  · have hs : m'.state ≠ .registerPointers := fun hs => by
      rw [hstate.mp hs] at hf
      cases hf
    obtain ⟨cs, hcs, rfl⟩ := pending_of_marshalUntil hs h
    exact marshalRemaining_eq_pending hreach hcs
  · simp [marshalRemaining, hstate.mpr hf]

/-- Two structures that point at each other, in buffers of 3, 4 and 1 bytes: 5 of 7 bytes remain
after the first. -/
theorem remaining_eq_produced_cycle :
    ∃ m', marshal nodeTable nodeCycle (marshalSetBuffer marshalInit 3) ⟨0, 0⟩ 1 =
        some (false, m') ∧
      marshalRemaining nodeTable nodeCycle m' = some 5 := by
  let calls : List MarshalCall := [⟨some 4, ⟨0, 0⟩, 1⟩, ⟨none, ⟨0, 0⟩, 1⟩, ⟨some 1, ⟨0, 0⟩, 1⟩]
  have hrun : ((marshal nodeTable nodeCycle (marshalSetBuffer marshalInit 3) ⟨0, 0⟩ 1).bind
      fun r => (marshalUntil nodeTable nodeCycle r.2 calls).map fun t => (r.1, t.1, t.2.1)) =
      some (false, true, 5) := by decide
  obtain ⟨⟨finished, m'⟩, hcall, hrun⟩ := Option.bind_eq_some_iff.mp hrun
  obtain ⟨⟨finished', n, m''⟩, huntil, hr⟩ := Option.map_eq_some_iff.mp hrun
  simp only [Prod.mk.injEq] at hr
  obtain ⟨rfl, rfl, rfl⟩ := hr
  exact ⟨m', hcall, (remaining_eq_produced nodeTable _ m' nodeCycle ⟨0, 0⟩ 1 false
    (.setBuffer .init 3) hcall).1 rfl calls 5 m'' huntil⟩

end Mh40.Marshal
