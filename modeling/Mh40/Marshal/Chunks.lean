import Mh40.Marshal.Marshaller

/-!
# The byte stream of the marshaller

What `marshal` writes, without the buffer. The stream is a list of chunks: one for each object (its
header and its leaf values), the end marker, one index for each pointer member. `pending` is the
list of the chunks that a marshaller still has to write.

* `marshalValues_spec`: `marshal_values` writes the chunk of its object, or nothing.
* `marshal_spec`: a call of `marshal` writes the chunks that are pending up to the first that does
  not fit. When all fit it returns `true`, else the others are pending in the state that it leaves.
-/

namespace Mh40.Marshal

open Lib Option
open List hiding set

theorem length_of_customCopy {copyCb : Option CustomCopy} {bs copy : List UInt8}
    (h : customCopy copyCb bs = some copy) : copy.length = bs.length := by
  unfold customCopy at h
  split at h
  · cases h
    rfl
  · simpa using filter_eq_some_iff.mp h |>.2

/-! ## Chunks -/

/-- The bytes of one member in the stream. -/
def leafBytes (mem : Memory) (object : Addr) (v : Visit) : Option (List UInt8) :=
  if v.isLeaf then
    (mem.readBytes (object.shift v.offset) v.type.size.toNat).bind (customCopy v.type.marshalCopy)
  else some []

/-- The bytes of the leaf values in the stream. -/
def valuesBytes (mem : Memory) (object : Addr) : List Visit → Option (List UInt8)
  | [] => some []
  | v :: vs => do
    let bs ← leafBytes mem object v
    let rest ← valuesBytes mem object vs
    some (bs ++ rest)

/-- The type, and the disambiguator of a dynamic length type. -/
def headerBytes (typeDesc : TypeDescriptor) (object : Mob) : List UInt8 :=
  if typeDesc.dynamicLength then [object.type, object.disambiguator] else [object.type]

/-- The chunk of an object. -/
def objectChunk (T : TypeTable) (mem : Memory) (object : Mob) : Option (List UInt8) := do
  let typeDesc ← T.desc object.type
  let a ← object.address
  let vs ← objectVisits T mem object
  let values ← valuesBytes mem a vs
  some (headerBytes typeDesc object ++ values)

/-- The chunk of a pointer member: the index of the object it refers to. -/
def indexChunk (mem : Memory) (base : MarshalBase) (pointer : Mob) : Option (List UInt8) := do
  let pointerAddr ← pointer.address
  let referred ← mem.readPointer pointerAddr
  let index ← referredIndex base { pointer with address := referred }
  some [UInt8.ofNat index]

/-- One chunk for each entry of a set. -/
def chunks (chunk : Mob → Option (List UInt8)) : Mobs → Option (List (List UInt8))
  | [] => some []
  | object :: set => do
    let c ← chunk object
    let cs ← chunks chunk set
    some (c :: cs)

variable {T : TypeTable} {mem : Memory}

/-! ## One object -/

section

variable {m : Marshaller}

theorem writeUint8_of_lt (hb : m.hasBuffer = true) (h : m.written.length < m.size) (value : UInt8) :
    writeUint8 value m = some (true, { m with written := m.written ++ [value] }) := by
  simp [writeUint8, h, hb]

theorem writeUint8_of_le (h : m.size ≤ m.written.length) (value : UInt8) :
    writeUint8 value m = some (false, m) := by
  simp [writeUint8, Nat.not_lt.mpr h]

theorem eq_of_writeUint8 {value : UInt8} {m' : Marshaller}
    (h : writeUint8 value m = some (true, m')) :
    m' = { m with written := m.written ++ [value] } := by
  unfold writeUint8 at h
  split at h
  · split at h
    · cases h
      rfl
    · cases h
  · cases h

/-- The callback of `marshal_values` on one member. -/
def valueCallback (mem : Memory) (a : Addr) : Visit → Marshaller → Option (Bool × Marshaller) :=
  traverseCallback a ⟨some (writeValue mem), none, none⟩

theorem valueCallback_eq (mem : Memory) (a : Addr) (v : Visit) (m : Marshaller) :
    valueCallback mem a v m =
      if v.isLeaf then writeValue mem (a.shift v.offset) v.type m else some (true, m) := by
  unfold valueCallback traverseCallback Visit.isLeaf
  cases v.descriptor.isPointer <;> simp

section

variable (hb : m.hasBuffer = true)
include hb

/-- The value of a member is written when it fits. -/
theorem valueCallback_spec {a : Addr} {v : Visit} {bs : List UInt8}
    (h : leafBytes mem a v = some bs) (hle : m.written.length ≤ m.size) :
    valueCallback mem a v m =
      if m.written.length + bs.length ≤ m.size then
        some (true, { m with written := m.written ++ bs })
      else some (false, m) := by
  rw [valueCallback_eq]
  unfold leafBytes at h
  split at h
  · obtain ⟨raw, hr, hc⟩ := bind_eq_some_iff.mp h
    have hlen := length_of_customCopy hc
    rw [Memory.length_of_readBytes hr] at hlen
    rw [if_pos ‹_›, hlen]
    by_cases hfit : m.written.length + v.type.size.toNat ≤ m.size
    · simp [writeValue, hb, hfit, hr, hc]
    · simp [writeValue, hfit]
  · cases h
    rw [if_neg ‹_›]
    simp [hle]

/-- The values of an object all fit, or the traversal stops in a buffer that holds some. -/
theorem forEach_valueCallback {a : Addr} {vs : List Visit} {bs : List UInt8}
    (h : valuesBytes mem a vs = some bs) (hle : m.written.length ≤ m.size) :
    if m.written.length + bs.length ≤ m.size then
      forEach (valueCallback mem a) vs m = some (true, { m with written := m.written ++ bs })
    else
      ∃ w, forEach (valueCallback mem a) vs m =
        some (false, { m with written := m.written ++ w }) := by
  induction vs generalizing m bs with
  | nil =>
    cases h
    simp [forEach, hle]
  | cons v vs ih =>
    simp only [valuesBytes, bind_eq_bind, bind_eq_some_iff] at h
    obtain ⟨b, hv, rest, hrest, h⟩ := h
    cases h
    unfold forEach
    rw [valueCallback_spec hb hv hle]
    by_cases hfit : m.written.length + b.length ≤ m.size
    · rw [if_pos hfit]
      have := ih (m := { m with written := m.written ++ b }) hb hrest (by simpa using hfit)
      simp only [length_append, append_assoc, Nat.add_assoc] at this ⊢
      split
      · rwa [if_pos ‹_›] at this
      · rw [if_neg ‹_›] at this
        obtain ⟨w, hw⟩ := this
        exact ⟨b ++ w, hw⟩
    · rw [if_neg hfit, if_neg (by simp only [length_append]; omega)]
      exact ⟨[], by simp⟩

theorem writeHeader_spec {object : Mob} {typeDesc : TypeDescriptor}
    (h : T.desc object.type = some typeDesc) :
    if m.written.length + (headerBytes typeDesc object).length ≤ m.size then
      writeHeader T object m =
        some (true, { m with written := m.written ++ headerBytes typeDesc object })
    else
      ∃ w, writeHeader T object m = some (false, { m with written := m.written ++ w }) := by
  unfold writeHeader headerBytes
  rw [h]
  by_cases h1 : m.written.length < m.size
  · rw [writeUint8_of_lt hb h1]
    cases hd : typeDesc.dynamicLength
    · simp [Nat.succ_le_of_lt h1, hd]
    · simp only [hd, bind_eq_bind, bind_some, Bool.and_self, if_true]
      by_cases h2 : m.written.length + 1 < m.size
      · rw [if_pos (by simp; omega), writeUint8_of_lt
          (m := { m with written := m.written ++ [object.type] }) hb (by simpa using h2)]
        simp
      · rw [if_neg (by simp; omega), writeUint8_of_le
          (m := { m with written := m.written ++ [object.type] }) (by simpa using Nat.not_lt.mp h2)]
        exact ⟨[object.type], rfl⟩
  · rw [writeUint8_of_le (Nat.not_lt.mp h1),
      if_neg (by cases typeDesc.dynamicLength <;> simp <;> omega)]
    exact ⟨[], by simp⟩

/-- **`marshal_values` writes the chunk of its object, or leaves the buffer as it was.** -/
theorem marshalValues_spec {object : Mob} {c : List UInt8} {index : ℕ}
    (h : objectChunk T mem object = some c) :
    marshalValues T mem index object m =
      if m.written.length + c.length ≤ m.size then
        some (true, { m with written := m.written ++ c, nextValuesIndex := index + 1 })
      else some (false, m) := by
  simp only [objectChunk, bind_eq_bind, bind_eq_some_iff] at h
  obtain ⟨typeDesc, hd, a, ha, vs, hvs, values, hval, h⟩ := h
  cases h
  have hh := writeHeader_spec hb hd
  unfold marshalValues writeObject
  split at hh
  · rw [hh]
    have hf := forEach_valueCallback (m := { m with
      written := m.written ++ headerBytes typeDesc object }) hb hval (by simpa using ‹_›)
    simp only [length_append, append_assoc, ← Nat.add_assoc] at hf ⊢
    simp only [bind_eq_bind, bind_some, if_true, objectTreeTraverse_eq ha hvs]
    split at hf
    · rw [if_pos ‹_›]
      unfold valueCallback at hf
      rw [hf]
      simp
    · rw [if_neg ‹_›]
      obtain ⟨w, hw⟩ := hf
      unfold valueCallback at hw
      rw [hw]
      simp
  · obtain ⟨w, hw⟩ := hh
    rw [hw, if_neg (by simp only [length_append]; omega)]
    simp

/-- `marshal_pointer_indexes` writes the index of its pointer member, or nothing. -/
theorem marshalPointerIndexes_spec {pointer : Mob} {c : List UInt8} {index : ℕ}
    (h : indexChunk mem m.base pointer = some c) :
    marshalPointerIndexes mem index pointer m =
      if m.written.length + c.length ≤ m.size then
        some (true, { m with written := m.written ++ c, nextPointersIndex := index + 1 })
      else some (false, m) := by
  simp only [indexChunk, bind_eq_bind, bind_eq_some_iff] at h
  obtain ⟨a, ha, referred, hr, i, hi, h⟩ := h
  cases h
  unfold marshalPointerIndexes writePointerIndex
  simp only [ha, hr, hi, bind_eq_bind, bind_some]
  by_cases hfit : m.written.length < m.size
  · rw [writeUint8_of_lt hb hfit, if_pos (by simp only [length_singleton]; omega)]
    simp
  · rw [writeUint8_of_le (Nat.not_lt.mp hfit), if_neg (by simp only [length_singleton]; omega)]
    simp

end

end

/-! ## Chunks in order -/

theorem length_of_chunks {chunk : Mob → Option (List UInt8)} {set : Mobs}
    {cs : List (List UInt8)} (h : chunks chunk set = some cs) : cs.length = set.length := by
  induction set generalizing cs with
  | nil =>
    cases h
    rfl
  | cons o set ih =>
    simp only [chunks, bind_eq_bind, bind_eq_some_iff] at h
    obtain ⟨c, _, rest, hrest, h⟩ := h
    cases h
    simp [ih hrest]

/-- How many chunks a buffer of `size` bytes takes behind the first `n`. -/
def taken (size : ℕ) : ℕ → List (List UInt8) → ℕ
  | _, [] => 0
  | n, c :: cs => if n + c.length ≤ size then taken size (n + c.length) cs + 1 else 0

theorem taken_le (size n : ℕ) (cs : List (List UInt8)) : taken size n cs ≤ cs.length := by
  induction cs generalizing n with
  | nil => simp [taken]
  | cons c cs ih =>
    have := ih (n + c.length)
    unfold taken
    split
    · simpa using this
    · simp

theorem taken_eq_length_iff {size n : ℕ} {cs : List (List UInt8)} (hn : n ≤ size) :
    taken size n cs = cs.length ↔ n + cs.flatten.length ≤ size := by
  induction cs generalizing n with
  | nil => simpa [taken] using hn
  | cons c cs ih =>
    unfold taken
    by_cases h : n + c.length ≤ size
    · rw [if_pos h, length_cons, Nat.add_right_cancel_iff, ih h]
      simp [Nat.add_assoc]
    · rw [if_neg h]
      simp
      omega

section

variable (objects : Mobs) {chunk : Mob → Option (List UInt8)} (set : Marshaller → Mobs)
  (cb : ℕ → Mob → Marshaller → Option (Bool × Marshaller)) (size : ℕ)
  (st : ℕ → List UInt8 → Marshaller)

/-- **The iteration rule.** `st i w` is the state in which the chunks before index `i` are written
and the buffer holds `w`. An iteration takes the chunks that fit. -/
theorem mobsIterateFrom_spec (hset : ∀ i w, set (st i w) = objects)
    (hcb : ∀ i o w c, chunk o = some c → cb i o (st i w) =
      if w.length + c.length ≤ size then some (true, st (i + 1) (w ++ c))
      else some (false, st i w)) :
    ∀ {gas start : ℕ} {w : List UInt8} {cs : List (List UInt8)},
      chunks chunk (objects.drop start) = some cs → 0 < gas → objects.length < start + gas →
      mobsIterateFrom set cb gas start (st start w) =
        some (decide (taken size w.length cs = cs.length),
          st (start + taken size w.length cs)
            (w ++ (cs.take (taken size w.length cs)).flatten)) ∧
      chunks chunk (objects.drop (start + taken size w.length cs)) =
        some (cs.drop (taken size w.length cs)) := by
  intro gas
  induction gas with
  | zero =>
    intro start w cs _ hgas
    omega
  | succ gas ih =>
    intro start w cs h _ hlen
    unfold mobsIterateFrom
    rw [hset]
    rcases ho : objects[start]? with _ | o
    · have hdrop : objects.drop start = [] :=
        drop_eq_nil_of_le (List.getElem?_eq_none_iff.mp ho)
      rw [hdrop] at h
      cases h
      simp [taken, hdrop, chunks]
    · obtain ⟨hi, rfl⟩ := List.getElem?_eq_some_iff.mp ho
      rw [drop_eq_getElem_cons hi] at h
      simp only [chunks, bind_eq_bind, bind_eq_some_iff] at h
      obtain ⟨c, hc, rest, hrest, h⟩ := h
      cases h
      simp only [hcb start _ w c hc, taken]
      by_cases hfit : w.length + c.length ≤ size
      · have := ih (w := w ++ c) hrest (by omega) (by omega)
        rw [length_append] at this
        simp only [if_pos hfit, this.1, length_cons, Nat.add_right_cancel_iff,
          take_succ_cons, flatten_cons, append_assoc, drop_succ_cons]
        rw [show start + (taken size (w.length + c.length) rest + 1) =
          start + 1 + taken size (w.length + c.length) rest by omega]
        exact ⟨rfl, this.2⟩
      · simp only [if_neg hfit, Nat.add_zero, take_zero, drop_zero]
        refine ⟨by simp, ?_⟩
        rw [drop_eq_getElem_cons hi]
        simp [chunks, hc, hrest]

/-- An iteration to the end has found a chunk for every object. -/
theorem chunks_of_mobsIterateFrom (hset : ∀ i w, set (st i w) = objects)
    (hcb : ∀ i o w s, cb i o (st i w) = some (true, s) →
      ∃ c, chunk o = some c ∧ s = st (i + 1) (w ++ c)) :
    ∀ {gas start : ℕ} {w : List UInt8} {s : Marshaller},
      mobsIterateFrom set cb gas start (st start w) = some (true, s) →
      (∃ cs, chunks chunk (objects.drop start) = some cs) ∧ objects.length < start + gas := by
  intro gas
  induction gas with
  | zero =>
    intro start w s h
    cases h
  | succ gas ih =>
    intro start w s h
    unfold mobsIterateFrom at h
    rw [hset] at h
    rcases ho : objects[start]? with _ | o <;> rw [ho] at h
    · have hle := List.getElem?_eq_none_iff.mp ho
      refine ⟨⟨[], ?_⟩, by omega⟩
      rw [drop_eq_nil_of_le hle]
      rfl
    · obtain ⟨hi, rfl⟩ := List.getElem?_eq_some_iff.mp ho
      rcases hc : cb start objects[start] (st start w) with _ | ⟨_ | _, s'⟩ <;>
        simp only [hc] at h
      · cases h
      · cases h
      · obtain ⟨c, hchunk, rfl⟩ := hcb start _ w s' hc
        obtain ⟨⟨cs, hcs⟩, hlt⟩ := ih h
        refine ⟨⟨c :: cs, ?_⟩, by omega⟩
        rw [drop_eq_getElem_cons hi]
        simp [chunks, hchunk, hcs]

end

/-! ## A whole call -/

/-- The chunks of the pointer members that are not written yet. -/
def pendingIndexes (mem : Memory) (m : Marshaller) : Option (List (List UInt8)) :=
  chunks (indexChunk mem m.base) (m.base.pointerMemberSet.drop m.nextPointersIndex)

/-- The chunks that a marshaller has to write before it returns `true`. -/
def pending (T : TypeTable) (mem : Memory) (m : Marshaller) : Option (List (List UInt8)) :=
  match m.state with
  | .registerPointers => some []
  | .marshalValues => do
    let values ← chunks (objectChunk T mem) (m.base.objectSet.drop m.nextValuesIndex)
    let indexes ← pendingIndexes mem m
    some (values ++ [marshalTypesMax] :: indexes)
  | .marshalValuesEnd => (pendingIndexes mem m).map ([marshalTypesMax] :: ·)
  | .marshalPointerIndexes => pendingIndexes mem m

/-- The index of the next object when all values are written. -/
def Marshaller.endIndex (m : Marshaller) : ℕ :=
  match m.state with
  | .marshalValues => max m.nextValuesIndex m.base.objectSet.length
  | _ => m.nextValuesIndex

/-- The marshaller when `marshal` returns `true`, with `written` in its buffer. -/
def Marshaller.finish (m : Marshaller) (written : List UInt8) : Marshaller :=
  { m with
    base.pointerMemberSet := []
    written
    state := .registerPointers
    nextValuesIndex := m.endIndex
    nextPointersIndex := 0 }

/-- The sets are in reach of `mobs_iterate`. -/
structure Marshaller.Bounded (m : Marshaller) : Prop where
  objects : m.state = .marshalValues →
    m.base.objectSet.length < m.nextValuesIndex + (mobsMaxObjects + 1)
  pointers : m.base.pointerMemberSet.length < m.nextPointersIndex + (mobsMaxObjects + 1)

/-- `m'` is `m` with some of its pending chunks `cs` written, and not all of them. -/
structure Suspended (T : TypeTable) (mem : Memory) (m : Marshaller) (cs : List (List UInt8))
    (m' : Marshaller) : Prop where
  progress : ∃ done rest, cs = done ++ rest ∧ m'.written = m.written ++ done.flatten ∧
    pending T mem m' = some rest
  state : m'.state ≠ .registerPointers
  base : m'.base = m.base
  finish : ∀ written, m'.finish written = m.finish written
  bounded : m'.Bounded

section

variable {m : Marshaller} {cs : List (List UInt8)} {m' : Marshaller}

theorem marshalPointerIndexesState_spec (hb : m.hasBuffer = true) (hm : m.Bounded)
    (hle : m.written.length ≤ m.size) (hs : m.state = .marshalPointerIndexes)
    (h : pendingIndexes mem m = some cs) :
    if m.written.length + cs.flatten.length ≤ m.size then
      marshalPointerIndexesState mem m = some (true, m.finish (m.written ++ cs.flatten))
    else ∃ m', marshalPointerIndexesState mem m = some (false, m') ∧ Suspended T mem m cs m' := by
  have hiter := mobsIterateFrom_spec m.base.pointerMemberSet (·.base.pointerMemberSet)
    (marshalPointerIndexes mem) m.size
    (fun i w => { m with nextPointersIndex := i, written := w }) (fun _ _ => rfl)
    (fun i o w c hc => marshalPointerIndexes_spec (m := { m with
      nextPointersIndex := i, written := w }) hb hc)
    (w := m.written) h (Nat.succ_pos _) hm.pointers
  unfold marshalPointerIndexesState mobsIterate
  have hk : taken m.size m.written.length cs = cs.length ↔ _ := taken_eq_length_iff hle
  simp only [hiter.1, bind_eq_bind, bind_some]
  split
  · rw [decide_eq_true (hk.mpr ‹_›), hk.mpr ‹_›]
    simp [Marshaller.finish, Marshaller.endIndex, hs]
  · rw [decide_eq_false (fun h => ‹¬_› (hk.mp h))]
    refine ⟨_, rfl, ⟨_, _, (take_append_drop _ cs).symm, rfl, ?_⟩, by simp [hs], rfl, ?_, ?_⟩
    · simpa [pending, hs, pendingIndexes] using hiter.2
    · intro written
      simp [Marshaller.finish, Marshaller.endIndex, hs]
    · exact ⟨by simp [hs], by have := hm.pointers; simp only; omega⟩

/-- What is suspended after some chunks are written is suspended with these in front. -/
theorem Suspended.of_written {m1 m' : Marshaller} {done : List (List UInt8)}
    (h : Suspended T mem m1 cs m') (hw : m1.written = m.written ++ done.flatten)
    (hbase : m1.base = m.base) (hfinish : ∀ written, m1.finish written = m.finish written) :
    Suspended T mem m (done ++ cs) m' := by
  obtain ⟨d, rest, hcs, hwritten, hpending⟩ := h.progress
  refine ⟨⟨done ++ d, rest, ?_, ?_, hpending⟩, h.state, h.base.trans hbase, ?_, h.bounded⟩
  · rw [hcs, append_assoc]
  · rw [hwritten, hw, flatten_append, append_assoc]
  · intro written
    rw [h.finish, hfinish]

theorem marshalValuesEndState_spec (hb : m.hasBuffer = true) (hm : m.Bounded)
    (hle : m.written.length ≤ m.size) (hs : m.state = .marshalValuesEnd)
    (h : pendingIndexes mem m = some cs) :
    if m.written.length + ([marshalTypesMax] :: cs).flatten.length ≤ m.size then
      marshalValuesEndState mem m =
        some (true, m.finish (m.written ++ ([marshalTypesMax] :: cs).flatten))
    else ∃ m', marshalValuesEndState mem m = some (false, m') ∧
      Suspended T mem m ([marshalTypesMax] :: cs) m' := by
  unfold marshalValuesEndState
  by_cases h1 : m.written.length < m.size
  · rw [writeUint8_of_lt hb h1]
    let m1 : Marshaller := { m with
      written := m.written ++ [marshalTypesMax], state := .marshalPointerIndexes }
    have hfinish : ∀ written, m1.finish written = m.finish written := fun written => by
      simp [m1, Marshaller.finish, Marshaller.endIndex, hs]
    have hspec := marshalPointerIndexesState_spec (T := T) (m := m1) hb
      ⟨by simp [m1], hm.pointers⟩ (by simp [m1]; omega) rfl h
    have hlen : m1.written.length + cs.flatten.length =
        m.written.length + ([marshalTypesMax] :: cs).flatten.length := by
      simp [m1, Nat.add_assoc, Nat.add_comm 1]
    rw [hlen] at hspec
    simp only [bind_eq_bind, bind_some, if_true]
    split
    · rw [if_pos (by assumption)] at hspec
      rw [hspec, hfinish]
      simp [m1]
    · rw [if_neg (by assumption)] at hspec
      obtain ⟨m', hm', hsus⟩ := hspec
      have hwritten : m1.written = m.written ++ [[marshalTypesMax]].flatten := by simp [m1]
      exact ⟨m', hm', hsus.of_written hwritten rfl hfinish⟩
  · rw [writeUint8_of_le (Nat.not_lt.mp h1), if_neg (by simp; omega)]
    refine ⟨m, rfl, ⟨[], _, rfl, by simp, ?_⟩, by simp [hs], rfl, fun _ => rfl, hm⟩
    simp [pending, hs, h]

theorem marshalValuesState_spec {values indexes : List (List UInt8)} (hb : m.hasBuffer = true)
    (hm : m.Bounded) (hle : m.written.length ≤ m.size) (hs : m.state = .marshalValues)
    (hv : chunks (objectChunk T mem) (m.base.objectSet.drop m.nextValuesIndex) = some values)
    (h : pendingIndexes mem m = some indexes)
    (hcs : cs = values ++ [marshalTypesMax] :: indexes) :
    if m.written.length + cs.flatten.length ≤ m.size then
      marshalValuesState T mem m = some (true, m.finish (m.written ++ cs.flatten))
    else ∃ m', marshalValuesState T mem m = some (false, m') ∧ Suspended T mem m cs m' := by
  subst hcs
  have hiter := mobsIterateFrom_spec m.base.objectSet (·.base.objectSet)
    (marshalValues T mem) m.size
    (fun i w => { m with nextValuesIndex := i, written := w }) (fun _ _ => rfl)
    (fun i o w c hc => marshalValues_spec (m := { m with
      nextValuesIndex := i, written := w }) hb hc)
    (w := m.written) hv (Nat.succ_pos _) (hm.objects hs)
  have hk : taken m.size m.written.length values = values.length ↔ _ := taken_eq_length_iff hle
  have hend : max m.nextValuesIndex m.base.objectSet.length = m.nextValuesIndex + values.length := by
    have := length_of_chunks hv
    rw [length_drop] at this
    omega
  unfold marshalValuesState mobsIterate
  simp only [hiter.1, bind_eq_bind, bind_some]
  by_cases hfit : m.written.length + values.flatten.length ≤ m.size
  · rw [hk.mpr hfit]
    let m1 : Marshaller := { m with
      nextValuesIndex := m.nextValuesIndex + values.length
      written := m.written ++ values.flatten
      state := .marshalValuesEnd }
    have hfinish : ∀ written, m1.finish written = m.finish written := fun written => by
      simp [m1, Marshaller.finish, Marshaller.endIndex, hs, hend]
    have hspec := marshalValuesEndState_spec (T := T) (m := m1) hb
      ⟨by simp [m1], hm.pointers⟩ (by simpa [m1] using hfit) rfl h
    have hlen : m1.written.length + ([marshalTypesMax] :: indexes).flatten.length =
        m.written.length + (values ++ [marshalTypesMax] :: indexes).flatten.length := by
      simp [m1, Nat.add_assoc]
    rw [hlen] at hspec
    simp only [decide_true, if_true, take_length]
    split
    · rw [if_pos (by assumption)] at hspec
      rw [hspec, hfinish]
      simp [m1]
    · rw [if_neg (by assumption)] at hspec
      obtain ⟨m', hm', hsus⟩ := hspec
      exact ⟨m', hm', hsus.of_written (by simp [m1]) rfl hfinish⟩
  · rw [decide_eq_false (fun h => hfit (hk.mp h)),
      if_neg (by rw [flatten_append, length_append]; omega)]
    refine ⟨_, rfl, ⟨values.take (taken m.size m.written.length values),
      values.drop (taken m.size m.written.length values) ++ [marshalTypesMax] :: indexes,
      ?_, rfl, ?_⟩, by simp [hs], rfl, ?_, ?_⟩
    · rw [← append_assoc, take_append_drop]
    · have h' : pendingIndexes mem { m with
          nextValuesIndex := m.nextValuesIndex + taken m.size m.written.length values } =
          some indexes := h
      simp only [pending, hs]
      simp only [pendingIndexes] at h' ⊢
      simp [hiter.2, h']
    · intro written
      have := taken_le m.size m.written.length values
      simp only [Marshaller.finish, Marshaller.endIndex, hs]
      congr 1
      omega
    · refine ⟨fun _ => ?_, hm.pointers⟩
      have := hm.objects hs
      simp only
      omega

/-- **A call of `marshal` on registered objects.** It writes the pending chunks when they fit, and
else is suspended between two of them. -/
theorem marshal_spec (addr : Addr) {type : MarshalType} (htype : type.toNat < T.length)
    (hb : m.hasBuffer = true) (hm : m.Bounded) (hle : m.written.length ≤ m.size)
    (hs : m.state ≠ .registerPointers) (h : pending T mem m = some cs) :
    if m.written.length + cs.flatten.length ≤ m.size then
      marshal T mem m addr type = some (true, m.finish (m.written ++ cs.flatten))
    else ∃ m', marshal T mem m addr type = some (false, m') ∧ Suspended T mem m cs m' := by
  unfold pending at h
  unfold marshal
  rw [if_pos htype]
  cases hstate : m.state with
  | registerPointers => exact absurd hstate hs
  | marshalValues =>
    simp only [hstate, bind_eq_bind, bind_eq_some_iff] at h
    obtain ⟨values, hv, indexes, hi, hcs⟩ := h
    exact marshalValuesState_spec hb hm hle hstate hv hi (some.inj hcs).symm
  | marshalValuesEnd =>
    simp only [hstate] at h
    obtain ⟨indexes, hi, rfl⟩ := map_eq_some_iff.mp h
    exact marshalValuesEndState_spec hb hm hle hstate hi
  | marshalPointerIndexes =>
    simp only [hstate] at h
    exact marshalPointerIndexesState_spec hb hm hle hstate h

/-! ## What a call that returned `true` has found -/

theorem leafBytes_of_valueCallback {a : Addr} {v : Visit}
    (h : valueCallback mem a v m = some (true, m')) : ∃ bs, leafBytes mem a v = some bs := by
  rw [valueCallback_eq] at h
  unfold leafBytes
  split
  · rw [if_pos ‹_›] at h
    unfold writeValue at h
    split at h
    · simp only [bind_eq_bind, bind_eq_some_iff] at h
      obtain ⟨raw, hr, copy, hc, _⟩ := h
      exact ⟨copy, by simp [hr, hc]⟩
    · cases h
  · exact ⟨[], rfl⟩

theorem valuesBytes_of_forEach {a : Addr} {vs : List Visit}
    (h : forEach (valueCallback mem a) vs m = some (true, m')) :
    ∃ bs, valuesBytes mem a vs = some bs := by
  induction vs generalizing m with
  | nil => exact ⟨[], rfl⟩
  | cons v vs ih =>
    unfold forEach at h
    rcases hv : valueCallback mem a v m with _ | ⟨_ | _, m1⟩ <;> rw [hv] at h
    · cases h
    · cases h
    · obtain ⟨b, hb⟩ := leafBytes_of_valueCallback hv
      obtain ⟨bs, hbs⟩ := ih h
      exact ⟨b ++ bs, by simp [valuesBytes, hb, hbs]⟩

theorem objectChunk_of_marshalValues {object : Mob} {index : ℕ}
    (h : marshalValues T mem index object m = some (true, m')) :
    ∃ c, objectChunk T mem object = some c := by
  simp only [marshalValues, writeObject, bind_eq_bind, bind_eq_some_iff,
    Prod.exists] at h
  obtain ⟨_ | _, m2, ⟨_ | _, m1, hh, ht⟩, h⟩ := h
  · simp at h
  · simp at h
  · simp at ht
  · simp only [if_true] at ht
    obtain ⟨typeDesc, hd, _⟩ := bind_eq_some_iff.mp hh
    obtain ⟨a, vs, ha, hvs, hf⟩ := objectVisits_of_traverse ht
    obtain ⟨bs, hbs⟩ := valuesBytes_of_forEach hf
    exact ⟨headerBytes typeDesc object ++ bs, by simp [objectChunk, hd, ha, hvs, hbs]⟩

theorem indexChunk_of_marshalPointerIndexes {pointer : Mob} {index : ℕ}
    (h : marshalPointerIndexes mem index pointer m = some (true, m')) :
    ∃ c, indexChunk mem m.base pointer = some c := by
  simp only [marshalPointerIndexes, writePointerIndex, bind_eq_bind,
    bind_eq_some_iff] at h
  obtain ⟨_, ⟨a, ha, referred, hr, i, hi, _⟩, _⟩ := h
  exact ⟨[UInt8.ofNat i], by simp [indexChunk, ha, hr, hi]⟩

section

variable (hb : m.hasBuffer = true)
include hb

theorem pendingIndexes_of_marshal (h : marshalPointerIndexesState mem m = some (true, m')) :
    (∃ cs, pendingIndexes mem m = some cs) ∧
      m.base.pointerMemberSet.length < m.nextPointersIndex + (mobsMaxObjects + 1) := by
  simp only [marshalPointerIndexesState, bind_eq_bind, bind_eq_some_iff,
    Prod.exists] at h
  obtain ⟨_ | _, m1, hiter, h⟩ := h
  · simp at h
  · refine chunks_of_mobsIterateFrom m.base.pointerMemberSet (·.base.pointerMemberSet)
      (marshalPointerIndexes mem)
      (fun i w => { m with nextPointersIndex := i, written := w }) (w := m.written)
      (fun _ _ => rfl) (fun i o w s hs => ?_) hiter
    obtain ⟨c, hc⟩ := indexChunk_of_marshalPointerIndexes hs
    rw [marshalPointerIndexes_spec (m := { m with nextPointersIndex := i, written := w }) hb hc]
      at hs
    split at hs
    · cases hs
      exact ⟨c, hc, rfl⟩
    · cases hs

theorem pending_of_marshalValuesEndState (h : marshalValuesEndState mem m = some (true, m')) :
    (∃ cs, pendingIndexes mem m = some cs) ∧
      m.base.pointerMemberSet.length < m.nextPointersIndex + (mobsMaxObjects + 1) := by
  simp only [marshalValuesEndState, bind_eq_bind, bind_eq_some_iff,
    Prod.exists] at h
  obtain ⟨_ | _, m1, hw, h⟩ := h
  · simp at h
  · rw [eq_of_writeUint8 hw] at h
    exact pendingIndexes_of_marshal (m := { m with
      written := m.written ++ [marshalTypesMax], state := .marshalPointerIndexes }) hb h

theorem pending_of_marshalValuesState (h : marshalValuesState T mem m = some (true, m')) :
    (∃ values indexes, chunks (objectChunk T mem) (m.base.objectSet.drop m.nextValuesIndex) =
      some values ∧ pendingIndexes mem m = some indexes) ∧
      m.base.objectSet.length < m.nextValuesIndex + (mobsMaxObjects + 1) ∧
      m.base.pointerMemberSet.length < m.nextPointersIndex + (mobsMaxObjects + 1) := by
  simp only [marshalValuesState, bind_eq_bind, bind_eq_some_iff, Prod.exists] at h
  obtain ⟨_ | _, m1, hiter, h⟩ := h
  · simp at h
  · obtain ⟨⟨values, hv⟩, hlen⟩ := chunks_of_mobsIterateFrom m.base.objectSet (·.base.objectSet)
      (marshalValues T mem) (fun i w => { m with nextValuesIndex := i, written := w })
      (w := m.written)
      (fun _ _ => rfl) (fun i o w s hs => by
        obtain ⟨c, hc⟩ := objectChunk_of_marshalValues hs
        rw [marshalValues_spec (m := { m with nextValuesIndex := i, written := w }) hb hc] at hs
        split at hs
        · cases hs
          exact ⟨c, hc, rfl⟩
        · cases hs) hiter
    have hspec := mobsIterateFrom_spec m.base.objectSet (·.base.objectSet)
      (marshalValues T mem) m.size
      (fun i w => { m with nextValuesIndex := i, written := w }) (fun _ _ => rfl)
      (fun i o w c hc => marshalValues_spec (m := { m with
        nextValuesIndex := i, written := w }) hb hc)
      (w := m.written) hv (Nat.succ_pos _) hlen
    unfold mobsIterate at hiter
    rw [hspec.1] at hiter
    simp only [some.injEq, Prod.mk.injEq] at hiter
    obtain ⟨_, rfl⟩ := hiter
    obtain ⟨⟨indexes, hi⟩, hp⟩ := pending_of_marshalValuesEndState (m := { m with
      nextValuesIndex := _, written := _, state := .marshalValuesEnd }) hb h
    exact ⟨⟨values, indexes, hv, hi⟩, hlen, hp⟩

theorem pending_of_marshal {addr : Addr} {type : MarshalType} (hs : m.state ≠ .registerPointers)
    (h : marshal T mem m addr type = some (true, m')) :
    (∃ cs, pending T mem m = some cs) ∧ m.Bounded := by
  unfold marshal at h
  split at h
  · unfold pending
    cases hstate : m.state with
    | registerPointers => exact absurd hstate hs
    | marshalValues =>
      simp only [hstate] at h
      obtain ⟨⟨values, indexes, hv, hi⟩, ho, hp⟩ := pending_of_marshalValuesState hb h
      exact ⟨⟨values ++ [marshalTypesMax] :: indexes, by simp [hv, hi]⟩, fun _ => ho, hp⟩
    | marshalValuesEnd =>
      simp only [hstate] at h
      obtain ⟨⟨indexes, hi⟩, hp⟩ := pending_of_marshalValuesEndState hb h
      exact ⟨⟨[marshalTypesMax] :: indexes, by simp [hi]⟩, by simp [hstate], hp⟩
    | marshalPointerIndexes =>
      simp only [hstate] at h
      obtain ⟨⟨indexes, hi⟩, hp⟩ := pendingIndexes_of_marshal hb h
      exact ⟨⟨indexes, hi⟩, by simp [hstate], hp⟩
  · cases h

end

end

end Mh40.Marshal
