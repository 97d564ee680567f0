import Mh40.Marshal.Copy
import Mh40.Marshal.Register

/-!
# Rebuilding objects

What the unmarshaller makes of a whole stream: copies of the objects in blocks one behind the
other, and in each pointer member of a copy the object that its index refers to.

* `unmarshalValuesLoop_copies`: from the chunks of objects come copies.
* `pointerIndexes_copies`: from the indexes come the pointers.
-/

namespace Mh40.Marshal

open Lib Memory List Option

variable {T : TypeTable} {mem : Memory} {object : Mob} {a : Addr} {vs : List Visit}
  {tail : List UInt8} {u : Unmarshaller}

/-! ## All objects of the stream -/

/-- The entries of copies into blocks in order. -/
def copies : ℕ → Mobs → Mobs
  | _, [] => []
  | block, o :: os => copyMob block o :: copies (block + 1) os

theorem pointerMobs_eq (block : ℕ) (ha : object.address = some a)
    (hvs : objectVisits T mem object = some vs) :
    pointerMobs ⟨block, 0⟩ vs = (objectSlots T mem block object).map (·.copy) := by
  rw [objectSlots_eq block ha hvs, List.map_map]
  rfl

/-- The block `block` holds the leaf values of `object`. -/
def CopiedAt (T : TypeTable) (mem : Memory) (object : Mob) (heap : Memory) (block : ℕ) : Prop :=
  ∃ a vs blk, object.address = some a ∧ objectVisits T mem object = some vs ∧
    heap[block]? = some blk ∧ objSize T object.type object.disambiguator = some blk.size ∧
    SameLeaves mem a heap ⟨block, 0⟩ vs

theorem readBytes_append {b : Addr} {n : ℕ} {bs : List UInt8} (h : mem.readBytes b n = some bs)
    (blks : Memory) : readBytes (mem ++ blks) b n = some bs := by
  obtain ⟨⟨blk, hblk, hle⟩, rfl⟩ := readBytes_eq_some_iff.mp h
  have hget : (mem ++ blks)[b.block]? = some blk := by
    rw [getElem?_append_left (List.getElem?_eq_some_iff.mp hblk).1, hblk]
  refine readBytes_eq_some_iff.mpr ⟨⟨blk, hget, hle⟩, ?_⟩
  simp [byte, hget, hblk]

/-- More blocks change nothing in a copy. -/
theorem CopiedAt.append {heap : Memory} {block : ℕ} (h : CopiedAt T mem object heap block)
    (blks : Memory) : CopiedAt T mem object (heap ++ blks) block := by
  obtain ⟨a, vs, blk, ha, hvs, hblk, hsize, hsame⟩ := h
  refine ⟨a, vs, blk, ha, hvs, ?_, hsize, fun v hv hleaf => ?_⟩
  · rw [getElem?_append_left (List.getElem?_eq_some_iff.mp hblk).1, hblk]
  · obtain ⟨bs, hm, hh⟩ := hsame v hv hleaf
    exact ⟨bs, hm, readBytes_append hh blks⟩

/-- `u'` is `u` with copies of the values of `os`. -/
structure ValuesCopied (T : TypeTable) (mem : Memory) (os : Mobs) (tail : List UInt8)
    (u u' : Unmarshaller) : Prop where
  objectSet : u'.base.objectSet = u.base.objectSet ++ copies u.heap.length os
  sharedMemberSet : u'.base.sharedMemberSet = u.base.sharedMemberSet
  pointers : u'.base.pointerMemberSet =
    u.base.pointerMemberSet ++ (pointerSlots T mem u.heap.length os).map (·.copy)
  heap : ∃ blks : Memory, u'.heap = u.heap ++ blks ∧ blks.length = os.length
  copied : ∀ i o, os[i]? = some o → CopiedAt T mem o u'.heap (u.heap.length + i)
  data : u'.buf.drop u'.outdex = tail
  inside : u'.outdex ≤ u'.buf.length
  state : u'.state = u.state
  rootIndex : u'.rootIndex = u.rootIndex
  nextIndex : u'.nextIndex = u.nextIndex
  buf : u'.buf = u.buf

/-- Some object cannot be copied, while the sets hold no more than all of them need. -/
def Stuck (T : TypeTable) (mem : Memory) (os : Mobs) (u : Unmarshaller) : Prop :=
  ∃ o ∈ os, ∃ vs s, objectVisits T mem o = some vs ∧ Uncopyable T o vs s ∧
    s.base.objectSet.length < u.base.objectSet.length + os.length ∧
    ∀ block, s.base.pointerMemberSet.length + (pointerMobs block vs).length ≤
      u.base.pointerMemberSet.length + (pointerSlots T mem u.heap.length os).length

theorem visits_of_objectChunk {chunk : List UInt8} (h : objectChunk T mem object = some chunk) :
    ∃ a vs, object.address = some a ∧ objectVisits T mem object = some vs := by
  simp only [objectChunk, bind_eq_bind, bind_eq_some_iff] at h
  obtain ⟨_, _, a, ha, vs, hvs, _⟩ := h
  exact ⟨a, vs, ha, hvs⟩

/-- **From the chunks of objects the unmarshaller makes copies**, or it is stuck. -/
theorem unmarshalValuesLoop_copies (os : Mobs) (hT : WellBehaved T) {cs : List (List UInt8)}
    {gas : ℕ} (hd : ∀ o ∈ os, Disambiguated T o) (hcs : chunks (objectChunk T mem) os = some cs)
    (hdata : u.buf.drop u.outdex = cs.flatten ++ marshalTypesMax :: tail) (hgas : os.length < gas) :
    (∃ u', unmarshalValuesLoop T gas u = some (true, u') ∧ ValuesCopied T mem os tail u u') ∨
      unmarshalValuesLoop T gas u = none ∧ Stuck T mem os u := by
  induction os generalizing u cs gas with
  | nil =>
    cases hcs
    obtain ⟨gas, rfl⟩ : ∃ n, gas = n + 1 := ⟨gas - 1, by omega⟩
    obtain ⟨hread, hdrop, hle⟩ := readUint8_of_drop hdata
    left
    refine ⟨{ u with outdex := u.outdex + 1 }, ?_, ?_⟩
    · simp [unmarshalValuesLoop, unmarshalObject, hread]
    · exact ⟨by simp [copies], rfl, by simp [pointerSlots], ⟨[], by simp, rfl⟩, by simp, hdrop, hle,
        rfl, rfl, rfl, rfl⟩
  | cons o os ih =>
    obtain ⟨gas, rfl⟩ : ∃ n, gas = n + 1 := ⟨gas - 1, by omega⟩
    simp only [chunks, bind_eq_bind, bind_eq_some_iff] at hcs
    obtain ⟨c, hc, cs', hcs', h⟩ := hcs
    cases h
    obtain ⟨a, vs, ha, hvs⟩ := visits_of_objectChunk hc
    rw [flatten_cons, append_assoc] at hdata
    rcases unmarshalObject_copies hT (hd o (by simp)) ha hvs hc hdata with
      ⟨u₁, hobj, hcopied⟩ | ⟨hnone, hun⟩
    · obtain ⟨blk, hheap, hsize⟩ := hcopied.heap
      have hlen : u₁.heap.length = u.heap.length + 1 := by simp [hheap]
      have hslots := pointerMobs_eq u.heap.length ha hvs
      simp only [unmarshalValuesLoop, hobj, bind_eq_bind, bind_some]
      rcases ih (u := u₁) (fun o' ho' => hd o' (by simp [ho'])) hcs' hcopied.data
        (Nat.lt_of_succ_lt_succ hgas) with ⟨u', hu', hall⟩ | ⟨hnone, o', ho', vs', s, hvs', hun, h1, h2⟩
      · left
        refine ⟨u', hu', ?_⟩
        obtain ⟨blks, hblks, hbl⟩ := hall.heap
        exact {
          objectSet := by rw [hall.objectSet, hcopied.objectSet, hlen]; simp [copies]
          sharedMemberSet := hall.sharedMemberSet.trans hcopied.sharedMemberSet
          pointers := by
            rw [hall.pointers, hcopied.pointers, hlen, hslots]
            simp [pointerSlots]
          heap := ⟨blk :: blks, by rw [hblks, hheap]; simp, by simp [hbl]⟩
          copied := by
            intro i o' ho'
            rcases i with _ | i
            · cases ho'
              rw [hblks]
              refine CopiedAt.append ⟨a, vs, blk, ha, hvs, ?_, hsize, hcopied.leaves⟩ blks
              simp [hheap]
            · have := hall.copied i o' ho'
              rwa [hlen, Nat.add_assoc, Nat.add_comm 1] at this
          data := hall.data
          inside := hall.inside
          state := hall.state.trans hcopied.state
          rootIndex := hall.rootIndex.trans hcopied.rootIndex
          nextIndex := hall.nextIndex.trans hcopied.nextIndex
          buf := hall.buf.trans hcopied.buf }
      · right
        refine ⟨hnone, o', mem_cons_of_mem _ ho', vs', s, hvs', hun, ?_, fun block => ?_⟩
        · rw [hcopied.objectSet] at h1
          simp only [length_append, length_cons, length_nil] at h1 ⊢
          omega
        · have := h2 block
          rw [hcopied.pointers, hslots, hlen] at this
          simp only [pointerSlots, length_append, length_map] at this ⊢
          omega
    · right
      refine ⟨by simp [unmarshalValuesLoop, hnone], o, by simp, vs, u, hvs, hun, by simp, ?_⟩
      intro block
      have : (pointerMobs block vs).length = (objectSlots T mem u.heap.length o).length := by
        rw [objectSlots_eq _ ha hvs]
        simp [pointerMobs]
      simp only [pointerSlots, length_append]
      omega

/-! ## The pointers of the stream -/

/-- The object that a byte of the stream refers to, fit for the pointer member. -/
def Refers (base : MarshalBase) (s : PointerSlot) (index : UInt8) (referred : Mob) : Prop :=
  referredObject base index.toNat = some referred ∧
    (referred.address = none ∨ s.visit.descriptor.type = referred.type)

/-- `u'` is `u` with the pointers of `slots` set to the objects that `indexes` refer to. -/
structure PointersCopied (slots : List PointerSlot) (indexes tail : List UInt8)
    (u u' : Unmarshaller) : Prop where
  base : u'.base = u.base
  byte : ∀ b, u'.heap.byte b = u.heap.byte b
  holds : ∀ b n, u'.heap.Holds b n ↔ u.heap.Holds b n
  length : u'.heap.length = u.heap.length
  other : ∀ b, (∀ s ∈ slots, s.cell ≠ b) → u'.heap.readPointer b = u.heap.readPointer b
  pointer : ∀ (k : ℕ) s i r, slots[k]? = some s → indexes[k]? = some i → Refers u.base s i r →
    u'.heap.readPointer s.cell = some r.address
  data : u'.buf.drop u'.outdex = tail
  inside : u'.outdex ≤ u'.buf.length
  buf : u'.buf = u.buf
  rootIndex : u'.rootIndex = u.rootIndex

/-- The pointer that `unmarshal_pointer_indexes` sets. -/
theorem unmarshalPointerIndexes_spec {s : PointerSlot} {i : UInt8} {rest : List UInt8} {r : Mob}
    (index : ℕ) (hdata : u.buf.drop u.outdex = i :: rest) (hr : Refers u.base s i r) :
    (∃ heap, u.heap.writePointer s.cell r.address = some heap ∧
      unmarshalPointerIndexes index s.copy u =
        some (true, { u with heap, outdex := u.outdex + 1, nextIndex := index + 1 })) ∨
      unmarshalPointerIndexes index s.copy u = none ∧ ¬u.heap.Holds s.cell pointerSize := by
  obtain ⟨hread, _, _⟩ := readUint8_of_drop hdata
  have haddr : s.copy.address = some s.cell := rfl
  have htype : s.copy.type = s.visit.descriptor.type := rfl
  simp only [unmarshalPointerIndexes, hread, hr.1, haddr, htype, if_pos hr.2, bind_eq_bind,
    bind_some]
  by_cases hh : u.heap.Holds s.cell pointerSize
  · obtain ⟨heap, hw⟩ := hh.writePointer r.address
    exact .inl ⟨heap, hw, by simp only [hw, bind_some]⟩
  · right
    refine ⟨?_, hh⟩
    rcases hw : u.heap.writePointer s.cell r.address with _ | heap
    · rfl
    · exact absurd (holds_of_writePointer hw) hh

/-- **From the indexes the unmarshaller sets the pointers**, or one lies outside its block. -/
theorem pointerIndexes_copies (slots : List PointerSlot) (indexes : List UInt8)
    (gas start : ℕ) (tail : List UInt8)
    (hset : u.base.pointerMemberSet.drop start = slots.map (·.copy))
    (hcells : (slots.map (·.cell)).Nodup) (hlen : indexes.length = slots.length)
    (hrefers : ∀ (k : ℕ) s i, slots[k]? = some s → indexes[k]? = some i → ∃ r, Refers u.base s i r)
    (hdata : u.buf.drop u.outdex = indexes ++ tail) (hinside : u.outdex ≤ u.buf.length)
    (hgas : slots.length < gas) :
    (∃ u', mobsIterateFrom (·.base.pointerMemberSet) unmarshalPointerIndexes gas start u =
        some (true, u') ∧ PointersCopied slots indexes tail u u') ∨
      mobsIterateFrom (·.base.pointerMemberSet) unmarshalPointerIndexes gas start u = none ∧
        ∃ s ∈ slots, ¬u.heap.Holds s.cell pointerSize := by
  induction slots generalizing u indexes gas start with
  | nil =>
    obtain ⟨gas, rfl⟩ : ∃ n, gas = n + 1 := ⟨gas - 1, by omega⟩
    have hnone : u.base.pointerMemberSet[start]? = none := by
      rw [List.getElem?_eq_none_iff]
      simpa using hset
    rw [length_nil, length_eq_zero_iff] at hlen
    subst hlen
    left
    refine ⟨u, by simp [mobsIterateFrom, hnone], ?_⟩
    exact ⟨rfl, fun _ => rfl, fun _ _ => Iff.rfl, rfl, fun _ _ => rfl, by simp, hdata, hinside, rfl,
      rfl⟩
  | cons s slots ih =>
    obtain ⟨gas, rfl⟩ : ∃ n, gas = n + 1 := ⟨gas - 1, by omega⟩
    obtain ⟨i, indexes, rfl⟩ : ∃ i is, indexes = i :: is := exists_cons_of_length_pos
      (by rw [hlen]; simp)
    have hget : u.base.pointerMemberSet[start]? = some s.copy := by
      have := congrArg (·[0]?) hset
      simpa using this
    obtain ⟨r, hr⟩ := hrefers 0 s i rfl rfl
    rw [cons_append] at hdata
    obtain ⟨_, hdrop, hle⟩ := readUint8_of_drop hdata
    rw [mobsIterateFrom, hget]
    simp only
    rcases unmarshalPointerIndexes_spec start hdata hr with ⟨heap, hw, hcall⟩ | ⟨hnone, hh⟩
    · rw [hcall]
      simp only
      have hnodup := nodup_cons.mp hcells
      rcases ih (u := { u with heap, outdex := u.outdex + 1, nextIndex := start + 1 }) _ _ _
        (show u.base.pointerMemberSet.drop (start + 1) = slots.map (·.copy) by
          rw [← tail_drop, hset]
          rfl) hnodup.2
        (by simpa using hlen) (fun k s' i' hs' hi' => hrefers (k + 1) s' i' hs' hi') hdrop hle
        (Nat.lt_of_succ_lt_succ hgas) with ⟨u', hu', hp⟩ | ⟨hnone, s', hs', hh⟩
      · left
        refine ⟨u', hu', hp.base, fun b => ?_, fun b n => ?_, ?_, fun b hb => ?_, ?_, hp.data,
          hp.inside, hp.buf, hp.rootIndex⟩
        · rw [hp.byte, byte_of_writePointer hw]
        · rw [hp.holds]
          exact holds_writePointer_iff hw
        · rw [hp.length]
          exact length_of_writePointer hw
        · rw [hp.other b fun s' hs' => hb s' (by simp [hs']), readPointer_of_writePointer hw,
            if_neg fun h => hb s (by simp) h.symm]
        · intro k s' i' r' hs' hi' hr'
          rcases k with _ | k
          · cases hs'
            cases hi'
            have hrr : r' = r := some.inj (hr'.1.symm.trans hr.1)
            subst hrr
            rw [hp.other s.cell ?_, readPointer_of_writePointer hw, if_pos rfl]
            intro s' hs' heq
            have hmem : s'.cell ∈ slots.map (·.cell) := List.mem_map_of_mem hs'
            rw [heq] at hmem
            exact hnodup.1 hmem
          · exact hp.pointer k s' i' r' hs' hi' hr'
      · right
        refine ⟨hnone, s', by simp [hs'], fun h => hh ?_⟩
        exact (holds_writePointer_iff hw).mpr h
    · rw [hnone]
      exact .inr ⟨rfl, s, by simp, hh⟩

end Mh40.Marshal
