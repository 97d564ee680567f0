import Mh40.Marshal.Unmarshaller

/-!
# The unmarshaller over windows of its data

What an unmarshaller does when it is given its data a window at a time. `u.window skip buf` is the
unmarshaller `u` with the window `buf`, which starts `skip` bytes into the data of `u`.

* `Items` is the run of `unmarshal` on all the data, one whole item at a time: an object, the end
  marker with the registration of shared members, the index of a pointer member.
* `unmarshalObject_window`: a turn of `unmarshal_values` over a window is the turn over the data,
  or the window is too short and what the turn did is undone by the restore.
* `unmarshal_window`: when a call over all the data returns `true`, a call over a window returns
  `true` as well, or it returns `false` between two items of that run.
-/

namespace Mh40.Marshal

open Lib List Option

/-- The unmarshaller over a window that starts `skip` bytes into its data. -/
def Unmarshaller.window (u : Unmarshaller) (skip : ℕ) (buf : List UInt8) : Unmarshaller :=
  { u with buf, outdex := u.outdex - skip }

/-- `buf` is the data of `u` from `skip` on, up to some byte, and `skip` bytes are read. -/
structure Unmarshaller.Sees (u : Unmarshaller) (skip : ℕ) (buf : List UInt8) : Prop where
  skip_le : skip ≤ u.outdex
  isPrefix : buf <+: u.buf.drop skip

/-- The restore of `unmarshal_values`, to the state `u` before the turn. -/
def Unmarshaller.rewind (u v : Unmarshaller) : Unmarshaller :=
  { v with
    base.pointerMemberSet := v.base.pointerMemberSet.take u.base.pointerMemberSet.length
    outdex := u.outdex }

/-- `v` is `u` with a part of one more object, in the last block. -/
structure PartOf (u v : Unmarshaller) : Prop where
  rewind : u.rewind { v with heap := v.heap.pfreeLast } = u
  heap : v.heap.length = u.heap.length + 1
  pointers : u.base.pointerMemberSet.length ≤ v.base.pointerMemberSet.length

variable {u u' v : Unmarshaller} {skip : ℕ} {buf : List UInt8} {a : Addr} {object : Mob}

/-! ## Reads -/

section

variable (h : u.Sees skip buf)
include h

theorem Unmarshaller.Sees.getElem? (hlt : u.outdex - skip < buf.length) :
    buf[u.outdex - skip]? = u.buf[u.outdex]? := by
  obtain ⟨rest, hrest⟩ := h.isPrefix
  have hleft : (buf ++ rest)[u.outdex - skip]? = buf[u.outdex - skip]? :=
    getElem?_append_left hlt
  rw [← hleft, hrest, getElem?_drop, Nat.add_sub_cancel' h.skip_le]

theorem Unmarshaller.Sees.take {n : ℕ} (hle : u.outdex - skip + n ≤ buf.length) :
    (buf.drop (u.outdex - skip)).take n = (u.buf.drop u.outdex).take n := by
  obtain ⟨rest, hrest⟩ := h.isPrefix
  have hdrop : (u.buf.drop skip).drop (u.outdex - skip) = u.buf.drop u.outdex := by
    rw [drop_drop, Nat.add_sub_cancel' h.skip_le]
  rw [← hdrop, ← hrest, drop_append_of_le_length (by omega),
    take_append_of_le_length (by rw [length_drop]; omega)]

/-- A byte that is read from the data is read from the window, or is not in it. -/
theorem readUint8_window {value : UInt8} (hr : readUint8 u = (some value, u')) :
    (readUint8 (u.window skip buf) = (some value, u'.window skip buf) ∧ u'.Sees skip buf) ∨
      (readUint8 (u.window skip buf) = (none, u.window skip buf) ∧
        buf.length + skip < u.buf.length) := by
  unfold readUint8 at hr
  split at hr
  · rename_i b hb
    cases hr
    obtain ⟨hlt, _⟩ := List.getElem?_eq_some_iff.mp hb
    by_cases hin : u.outdex - skip < buf.length
    · left
      refine ⟨?_, ⟨Nat.le_succ_of_le h.skip_le, h.isPrefix⟩⟩
      have hget := h.getElem? hin
      rw [hb] at hget
      have := h.skip_le
      simp only [readUint8, Unmarshaller.window, hget]
      rw [Nat.sub_add_comm h.skip_le]
    · right
      refine ⟨?_, by have := h.skip_le; omega⟩
      simp only [readUint8, Unmarshaller.window, getElem?_eq_none (Nat.not_lt.mp hin)]
  · cases hr

theorem readValue_window {typeDesc : TypeDescriptor} (hr : readValue a typeDesc u = some (true, u')) :
    (readValue a typeDesc (u.window skip buf) = some (true, u'.window skip buf) ∧
        u'.Sees skip buf) ∨
      (readValue a typeDesc (u.window skip buf) = some (false, u.window skip buf) ∧
        buf.length + skip < u.buf.length) := by
  simp only [readValue] at hr
  split at hr
  · rename_i hle
    simp only [bind_eq_bind, bind_eq_some_iff] at hr
    obtain ⟨copy, hc, heap, hh, hr⟩ := hr
    cases hr
    have hs := h.skip_le
    by_cases hin : u.outdex - skip + typeDesc.size.toNat ≤ buf.length
    · left
      refine ⟨?_, ⟨Nat.le_add_right_of_le h.skip_le, h.isPrefix⟩⟩
      simp only [readValue, Unmarshaller.window, if_pos hin, h.take hin, hc, hh,
        bind_eq_bind, bind_some]
      rw [Nat.sub_add_comm h.skip_le]
    · right
      refine ⟨?_, by omega⟩
      exact if_neg hin
  · cases hr

end

/-! ## One turn -/

theorem Memory.writeBytes_frame {mem mem' : Memory} {bs : List UInt8}
    (h : mem.writeBytes a bs = some mem') :
    mem'.length = mem.length ∧ (mem.length = a.block + 1 → mem'.pfreeLast = mem.pfreeLast) := by
  obtain ⟨b, _, rfl⟩ := map_eq_some_iff.mp h
  refine ⟨length_set, fun hlast => ?_⟩
  simp only [Memory.pfreeLast, dropLast_eq_take, length_set, hlast, Nat.add_sub_cancel]
  exact take_set_of_le (Nat.le_refl _)

theorem PartOf.window (h : PartOf u v) : PartOf (u.window skip buf) (v.window skip buf) := by
  refine ⟨?_, h.heap, h.pointers⟩
  exact congrArg (·.window skip buf) h.rewind

theorem PartOf.buf_eq (h : PartOf u v) : v.buf = u.buf := by
  rw [← h.rewind]
  rfl

theorem partOf_zpmalloc (u : Unmarshaller) (size n : ℕ) :
    PartOf u { u with heap := (u.heap.zpmalloc size).2, outdex := n } := by
  refine ⟨?_, by simp [Memory.zpmalloc], Nat.le_refl _⟩
  simp [Unmarshaller.rewind, Memory.zpmalloc, Memory.pfreeLast]

theorem PartOf.readValue {typeDesc : TypeDescriptor} (h : PartOf u v) (ha : a.block = u.heap.length)
    (hr : readValue a typeDesc v = some (true, u')) :
    PartOf u u' := by
  simp only [Marshal.readValue] at hr
  split at hr
  · simp only [bind_eq_bind, bind_eq_some_iff] at hr
    obtain ⟨copy, _, heap, hh, hr⟩ := hr
    cases hr
    obtain ⟨hlen, hlast⟩ := Memory.writeBytes_frame hh
    refine ⟨?_, hlen.trans h.heap, h.pointers⟩
    rw [hlast (by rw [h.heap, ha])]
    exact h.rewind
  · cases hr

theorem PartOf.storePointers (desc : MemberDescriptor) (parent : Mob) (h : PartOf u v)
    (hr : storePointers a desc parent v = some (true, u')) : PartOf u u' := by
  simp only [Marshal.storePointers, mobsPushUnique, bind_eq_bind,
    bind_eq_some_iff] at hr
  obtain ⟨set, hset, hr⟩ := hr
  split at hset
  · cases hset
    cases hr
    have := h.pointers
    refine ⟨?_, h.heap, by simp; omega⟩
    have hrw := h.rewind
    unfold Unmarshaller.rewind at hrw ⊢
    simpa only [take_append_of_le_length h.pointers] using hrw
  · cases hset

theorem traverseCallback_valueReader (a : Addr) (w : Visit) (v : Unmarshaller) :
    traverseCallback a valueReader w v =
      if w.isLeaf then readValue (a.shift w.offset) w.type v
      else if w.descriptor.isPointer then
        storePointers (a.shift w.offset) w.descriptor (w.parent.mob a) v
      else some (true, v) := by
  unfold traverseCallback valueReader Visit.isLeaf
  cases w.descriptor.isPointer <;> simp

theorem PartOf.callback {w : Visit} (h : PartOf u v) (ha : a.block = u.heap.length)
    (hr : traverseCallback a valueReader w v = some (true, u')) : PartOf u u' := by
  rw [traverseCallback_valueReader] at hr
  split at hr
  · exact h.readValue (a := a.shift w.offset) ha hr
  · split at hr
    · exact h.storePointers _ _ hr
    · cases hr
      exact h

theorem PartOf.traverse {T : TypeTable} (h : PartOf u v) (ha : object.address = some a)
    (hblock : a.block = u.heap.length)
    (ht : objectTreeTraverse T (·.heap) valueReader object v = some (true, u')) :
    PartOf u u' := by
  simp only [objectTreeTraverse, ha] at ht
  exact Script.exec_keeps (fun _ _ _ hp hw => hp.callback hblock hw) h ht

/-- Reading an object from a window: the reading of the object, or a part of it. -/
theorem traverse_window {T : TypeTable} (ha : object.address = some a)
    (hblock : a.block = u.heap.length) (hv : PartOf u v) (hs : v.Sees skip buf)
    (h : objectTreeTraverse T (·.heap) valueReader object v = some (true, u')) :
    (objectTreeTraverse T (·.heap) valueReader object (v.window skip buf) =
        some (true, u'.window skip buf) ∧ u'.Sees skip buf) ∨
      (∃ w, objectTreeTraverse T (·.heap) valueReader object (v.window skip buf) =
        some (false, w) ∧ PartOf (u.window skip buf) w ∧ buf.length + skip < u.buf.length) := by
  simp only [objectTreeTraverse, ha] at h ⊢
  have hsim := Script.exec_simulates (g := traverseCallback a valueReader)
    (fun s t => t = s.window skip buf ∧ s.Sees skip buf ∧ PartOf u s)
    (fun t => PartOf (u.window skip buf) t ∧ buf.length + skip < u.buf.length)
    ?_ (?_ : ∀ q (s t : Unmarshaller), _ →
      taggedUnionMember T t.heap a q = taggedUnionMember T s.heap a q)
    ⟨rfl, hs, hv⟩ h
  · rcases hsim with ⟨t, ht, rfl, hs', _⟩ | ⟨t, ht, hp, hlt⟩
    · exact .inl ⟨ht, hs'⟩
    · exact .inr ⟨t, ht, hp, hlt⟩
  · rintro w s s' t ⟨rfl, hs, hp⟩ hw
    have hp' := hp.callback hblock hw
    rw [traverseCallback_valueReader] at hw ⊢
    by_cases hl : w.isLeaf = true
    · rw [if_pos hl] at hw ⊢
      rcases readValue_window hs hw with ⟨hr, hs'⟩ | ⟨hr, hlt⟩
      · exact .inl ⟨_, hr, rfl, hs', hp'⟩
      · exact .inr ⟨_, hr, hp.window, by rwa [← hp.buf_eq]⟩
    rw [if_neg hl] at hw ⊢
    by_cases hptr : w.descriptor.isPointer = true
    · rw [if_pos hptr] at hw ⊢
      refine .inl ⟨s'.window skip buf, ?_, rfl, ?_, hp'⟩
      · simp only [storePointers, bind_eq_bind, bind_eq_some_iff] at hw ⊢
        obtain ⟨set, hset, hw⟩ := hw
        cases hw
        exact ⟨set, hset, rfl⟩
      · simp only [storePointers, bind_eq_bind, bind_eq_some_iff] at hw
        obtain ⟨set, _, hw⟩ := hw
        cases hw
        exact ⟨hs.skip_le, hs.isPrefix⟩
    · rw [if_neg hptr] at hw ⊢
      cases hw
      exact .inl ⟨_, rfl, rfl, hs, hp⟩
  · rintro q s t ⟨rfl, _, _⟩
    rfl

/-- What `unmarshal_alloc` does when it allocates: a disambiguator is read or not, and the block
is the last one. -/
theorem unmarshalAlloc_window {T : TypeTable} {type : MarshalType} (hs : u.Sees skip buf)
    (h : unmarshalAlloc T type u = some (some object, u')) :
    (object.address = some ⟨u.heap.length, 0⟩ ∧ PartOf u u' ∧
      unmarshalAlloc T type (u.window skip buf) = some (some object, u'.window skip buf) ∧
      u'.Sees skip buf) ∨
      (unmarshalAlloc T type (u.window skip buf) = some (none, u.window skip buf) ∧
        buf.length + skip < u.buf.length) := by
  simp only [unmarshalAlloc, bind_eq_bind, bind_eq_some_iff] at h
  obtain ⟨typeDesc, hd, h⟩ := h
  by_cases hdyn : typeDesc.dynamicLength = true
  · rw [if_pos hdyn] at h
    rcases hr : readUint8 u with ⟨_ | d, u1⟩ <;> simp only [hr] at h
    · cases h
    · obtain ⟨size, hsize, h⟩ := bind_eq_some_iff.mp h
      cases h
      rcases readUint8_window hs hr with ⟨hw, hs'⟩ | ⟨hw, hlt⟩
      · left
        have hu1 : u1 = { u with outdex := u.outdex + 1 } := by
          unfold readUint8 at hr
          split at hr <;> cases hr
          rfl
        subst hu1
        refine ⟨rfl, partOf_zpmalloc u size (u.outdex + 1), ?_, ⟨hs'.skip_le, hs'.isPrefix⟩⟩
        simp only [unmarshalAlloc, hd, bind_eq_bind, bind_some, if_pos hdyn, hw,
          hsize]
        rfl
      · right
        refine ⟨?_, hlt⟩
        simp only [unmarshalAlloc, hd, bind_eq_bind, bind_some, if_pos hdyn, hw]
  · rw [if_neg hdyn] at h
    cases h
    left
    refine ⟨rfl, partOf_zpmalloc u typeDesc.size.toNat u.outdex, ?_,
      ⟨hs.skip_le, hs.isPrefix⟩⟩
    simp only [unmarshalAlloc, hd, bind_eq_bind, bind_some, if_neg hdyn]
    rfl

theorem unmarshalAlloc_partOf {T : TypeTable} {type : MarshalType}
    (h : unmarshalAlloc T type u = some (some object, u')) :
    object.address = some ⟨u.heap.length, 0⟩ ∧ PartOf u u' := by
  rcases unmarshalAlloc_window ⟨Nat.zero_le _, prefix_rfl⟩ h with ⟨ha, hp, _⟩ | ⟨_, hlt⟩
  · exact ⟨ha, hp⟩
  · simp at hlt

/-- **A turn over a window** is the turn over the data, or nothing once it is restored. -/
theorem unmarshalObject_window {T : TypeTable} {turn : Turn} (hs : u.Sees skip buf)
    (h : unmarshalObject T u = some (turn, u')) (hturn : turn ≠ .empty) :
    (unmarshalObject T (u.window skip buf) = some (turn, u'.window skip buf) ∧
        u'.Sees skip buf) ∨
      (∃ w, unmarshalObject T (u.window skip buf) = some (.empty, w) ∧
        (u.window skip buf).rewind w = u.window skip buf ∧ buf.length + skip < u.buf.length) := by
  unfold unmarshalObject at h
  rcases hr : readUint8 u with ⟨_ | type, u1⟩ <;> simp only [hr] at h
  · cases h
    exact absurd rfl hturn
  have hrewind : (u.window skip buf).rewind (u.window skip buf) = u.window skip buf := by
    simp [Unmarshaller.rewind]
  rcases readUint8_window hs hr with ⟨hw, hs1⟩ | ⟨hw, hlt⟩
  · have hu1 : u1 = { u with outdex := u.outdex + 1 } := by
      unfold readUint8 at hr
      split at hr <;> cases hr
      rfl
    unfold unmarshalObject
    simp only [hw]
    by_cases hend : type = marshalTypesMax
    · rw [if_pos hend] at h ⊢
      cases h
      exact .inl ⟨rfl, hs1⟩
    rw [if_neg hend] at h ⊢
    by_cases htype : type.toNat < T.length
    · rw [if_pos htype] at h ⊢
      simp only [bind_eq_bind, bind_eq_some_iff, Prod.exists] at h ⊢
      obtain ⟨_ | object, u2, halloc, h⟩ := h
      · cases h
        exact absurd rfl hturn
      · rcases unmarshalAlloc_window hs1 halloc with ⟨ha, hp, haw, hs2⟩ | ⟨haw, hlt⟩
        · simp only [bind_eq_some_iff, Prod.exists] at h
          obtain ⟨_ | _, u3, ht, h⟩ := h
          · cases h
            exact absurd rfl hturn
          simp only [if_true, bind_eq_some_iff] at h
          obtain ⟨set, hset, h⟩ := h
          cases h
          rcases traverse_window ha rfl hp hs2 ht with ⟨htw, hs3⟩ | ⟨w, htw, hpw, hlt⟩
          · left
            refine ⟨⟨some object, _, haw, bind_eq_some_iff.mpr ⟨(true, _), htw, ?_⟩⟩,
              ⟨hs3.skip_le, hs3.isPrefix⟩⟩
            simp only [if_true, bind_eq_some_iff]
            exact ⟨set, hset, rfl⟩
          · right
            refine ⟨_, ⟨some object, _, haw, bind_eq_some_iff.mpr ⟨(false, w), htw, rfl⟩⟩,
              ?_, by simpa [hu1] using hlt⟩
            have := congrArg (fun v : Unmarshaller => { v with outdex := u.outdex - skip })
              hpw.rewind
            simpa [hu1, Unmarshaller.rewind, Unmarshaller.window] using this
        · right
          refine ⟨_, ⟨none, _, haw, rfl⟩, ?_, by simpa [hu1] using hlt⟩
          simp [hu1, Unmarshaller.rewind, Unmarshaller.window]
    · rw [if_neg htype] at h
      cases h
  · right
    refine ⟨u.window skip buf, ?_, hrewind, hlt⟩
    simp only [unmarshalObject, hw]

/-! ## The items of a run -/

/-- The run of `unmarshal` on its data, one whole item at a time. -/
inductive Items (T : TypeTable) : Unmarshaller → Unmarshaller → Prop
  | refl (u : Unmarshaller) : Items T u u
  | object {u v w : Unmarshaller} : u.state = .unmarshalValues →
      unmarshalObject T u = some (.object, v) → Items T v w → Items T u w
  | finished {u v v' w : Unmarshaller} : u.state = .unmarshalValues →
      unmarshalObject T u = some (.finished, v) → registerUnmarshalledShared T v = some v' →
      Items T { v' with state := .unmarshalPointerIndexes } w → Items T u w
  | index {u v w : Unmarshaller} {pointer : Mob} : u.state = .unmarshalPointerIndexes →
      u.base.pointerMemberSet[u.nextIndex]? = some pointer →
      unmarshalPointerIndexes u.nextIndex pointer u = some (true, v) → Items T v w → Items T u w

theorem Items.trans {T : TypeTable} {w : Unmarshaller} (h : Items T u v) (h' : Items T v w) :
    Items T u w := by
  induction h with
  | refl _ => exact h'
  | object hs ho _ ih => exact .object hs ho (ih h')
  | finished hs ho hr _ ih => exact .finished hs ho hr (ih h')
  | index hs hp hi _ ih => exact .index hs hp hi (ih h')

theorem readUint8_frame {value : Option UInt8} (h : readUint8 u = (value, u')) :
    u'.state = u.state ∧ u'.buf = u.buf ∧ u'.rootIndex = u.rootIndex ∧
      u'.nextIndex = u.nextIndex ∧ u'.base = u.base := by
  unfold readUint8 at h
  split at h <;> cases h <;> exact ⟨rfl, rfl, rfl, rfl, rfl⟩

theorem PartOf.frame (h : PartOf u v) :
    v.state = u.state ∧ v.buf = u.buf ∧ v.rootIndex = u.rootIndex ∧ v.nextIndex = u.nextIndex := by
  rw [← h.rewind]
  exact ⟨rfl, rfl, rfl, rfl⟩

/-- A turn keeps the state and the data. -/
theorem unmarshalObject_frame {T : TypeTable} {turn : Turn}
    (h : unmarshalObject T u = some (turn, u')) (hturn : turn ≠ .empty) :
    u'.state = u.state ∧ u'.buf = u.buf ∧ u'.rootIndex = u.rootIndex ∧
      u'.nextIndex = u.nextIndex := by
  unfold unmarshalObject at h
  rcases hr : readUint8 u with ⟨_ | type, u1⟩ <;> simp only [hr] at h
  · cases h
    exact absurd rfl hturn
  obtain ⟨h1, h2, h3, h4, _⟩ := readUint8_frame hr
  split at h
  · cases h
    exact ⟨h1, h2, h3, h4⟩
  split at h
  · simp only [bind_eq_bind, bind_eq_some_iff, Prod.exists] at h
    obtain ⟨_ | object, u2, halloc, h⟩ := h
    · cases h
      exact absurd rfl hturn
    · simp only [bind_eq_some_iff, Prod.exists] at h
      obtain ⟨_ | _, u3, ht, h⟩ := h
      · cases h
        exact absurd rfl hturn
      simp only [if_true, bind_eq_some_iff] at h
      obtain ⟨set, _, h⟩ := h
      cases h
      obtain ⟨ha, hp⟩ := unmarshalAlloc_partOf halloc
      obtain ⟨h1', h2', h3', h4'⟩ := (hp.traverse ha rfl ht).frame
      exact ⟨h1'.trans h1, h2'.trans h2, h3'.trans h3, h4'.trans h4⟩
  · cases h

theorem registerUnmarshalledShared_frame {T : TypeTable}
    (h : registerUnmarshalledShared T u = some u') :
    ∃ base, u' = { u with base } := by
  unfold registerUnmarshalledShared at h
  split at h
  · simp only [bind_eq_bind, bind_eq_some_iff, Prod.exists] at h
    obtain ⟨_, base, _, h⟩ := h
    split at h <;> cases h
    exact ⟨base, rfl⟩
  · cases h
    exact ⟨u.base, rfl⟩

/-- The loop ends with the turn that reads the end marker. -/
theorem items_of_unmarshalValuesLoop {T : TypeTable} {gas : ℕ} (hstate : u.state = .unmarshalValues)
    (h : unmarshalValuesLoop T gas u = some (true, u')) :
    ∃ v, Items T u v ∧ v.state = .unmarshalValues ∧ unmarshalObject T v = some (.finished, u') := by
  induction gas generalizing u with
  | zero => cases h
  | succ gas ih =>
    simp only [unmarshalValuesLoop, bind_eq_bind, bind_eq_some_iff,
      Prod.exists] at h
    obtain ⟨turn, u1, ho, h⟩ := h
    cases turn with
    | finished =>
      cases h
      exact ⟨u, .refl u, hstate, ho⟩
    | empty => cases h
    | object =>
      obtain ⟨h1, _⟩ := unmarshalObject_frame ho (by simp)
      obtain ⟨v, hi, hv, hf⟩ := ih (h1.trans hstate) h
      exact ⟨v, .object hstate ho hi, hv, hf⟩

/-- **The loop over a window** is the loop over the data, or it stops between two objects. -/
theorem unmarshalValuesLoop_window {T : TypeTable} {gas gas' : ℕ} (hgas : gas ≤ gas')
    (hstate : u.state = .unmarshalValues) (hs : u.Sees skip buf)
    (h : unmarshalValuesLoop T gas u = some (true, u')) :
    (unmarshalValuesLoop T gas' (u.window skip buf) = some (true, u'.window skip buf) ∧
        u'.Sees skip buf) ∨
      (∃ v g, g ≤ gas ∧ Items T u v ∧ v.state = .unmarshalValues ∧ v.Sees skip buf ∧
        unmarshalValuesLoop T gas' (u.window skip buf) = some (false, v.window skip buf) ∧
        unmarshalValuesLoop T g v = some (true, u') ∧
        buf.length + skip < u.buf.length) := by
  induction gas generalizing u gas' with
  | zero => cases h
  | succ gas ih =>
    obtain ⟨gas', rfl⟩ : ∃ n, gas' = n + 1 := ⟨gas' - 1, by omega⟩
    have h0 := h
    simp only [unmarshalValuesLoop, bind_eq_bind, bind_eq_some_iff,
      Prod.exists] at h
    obtain ⟨turn, u1, ho, h⟩ := h
    by_cases hturn : turn = .empty
    · subst hturn
      cases h
    obtain ⟨h1, h2, _⟩ := unmarshalObject_frame ho hturn
    rcases unmarshalObject_window hs ho hturn with ⟨hw, hs1⟩ | ⟨w, hw, hrw, hlt⟩
    · cases turn with
      | empty => exact absurd rfl hturn
      | finished =>
        cases h
        left
        exact ⟨by simp [unmarshalValuesLoop, hw], hs1⟩
      | object =>
        simp only at h
        rcases ih (Nat.le_of_succ_le_succ hgas) (h1.trans hstate) hs1 h with
          ⟨hl, hs'⟩ | ⟨v, g, hg, hi, hv, hsv, hl, hlv, hlt⟩
        · left
          exact ⟨by simp [unmarshalValuesLoop, hw, hl], hs'⟩
        · right
          refine ⟨v, g, Nat.le_succ_of_le hg, .object hstate ho hi, hv, hsv, ?_, hlv,
            by rwa [← h2]⟩
          simp [unmarshalValuesLoop, hw, hl]
    · right
      refine ⟨u, gas + 1, Nat.le_refl _, .refl u, hstate, hs, ?_, h0, hlt⟩
      simp only [unmarshalValuesLoop, hw, bind_eq_bind, bind_some]
      exact congrArg (fun w => some (false, w)) hrw

/-! ## Pointer indexes -/

theorem unmarshalPointerIndexes_window {index : ℕ} {pointer : Mob} (hs : u.Sees skip buf)
    (h : unmarshalPointerIndexes index pointer u = some (true, u')) :
    ((unmarshalPointerIndexes index pointer (u.window skip buf) =
        some (true, u'.window skip buf) ∧ u'.Sees skip buf) ∨
      (unmarshalPointerIndexes index pointer (u.window skip buf) =
        some (false, u.window skip buf) ∧ buf.length + skip < u.buf.length)) ∧
      u'.base = u.base ∧ u'.state = u.state ∧ u'.buf = u.buf ∧ u'.rootIndex = u.rootIndex ∧
      u'.nextIndex = index + 1 := by
  unfold unmarshalPointerIndexes at h
  rcases hr : readUint8 u with ⟨_ | i, u1⟩ <;> simp only [hr] at h
  · cases h
  · obtain ⟨h1, h2, h3, _, h5⟩ := readUint8_frame hr
    simp only [bind_eq_bind, bind_eq_some_iff] at h
    obtain ⟨referred, href, a, ha, h⟩ := h
    split at h
    · obtain ⟨heap, hheap, h⟩ := bind_eq_some_iff.mp h
      cases h
      refine ⟨?_, h5, h1, h2, h3, rfl⟩
      rcases readUint8_window hs hr with ⟨hw, hs'⟩ | ⟨hw, hlt⟩
      · left
        refine ⟨?_, ⟨hs'.skip_le, hs'.isPrefix⟩⟩
        have hrw : referredObject (u1.window skip buf).base i.toNat = some referred := href
        have hhw : (u1.window skip buf).heap.writePointer a referred.address = some heap := hheap
        simp only [unmarshalPointerIndexes, hw, hrw, ha, bind_eq_bind, bind_some, hhw]
        exact if_pos ‹_›
      · right
        exact ⟨by simp only [unmarshalPointerIndexes, hw], hlt⟩
    · cases h

/-- The items of a run are read from one buffer. -/
theorem Items.buf_eq {T : TypeTable} (h : Items T u v) : v.buf = u.buf := by
  induction h with
  | refl _ => rfl
  | object _ ho _ ih => exact ih.trans (unmarshalObject_frame ho (by simp)).2.1
  | finished _ ho hr _ ih =>
    obtain ⟨base, rfl⟩ := registerUnmarshalledShared_frame hr
    exact ih.trans (unmarshalObject_frame ho (by simp)).2.1
  | @index u _ _ _ _ _ hi _ ih =>
    have hsees : Unmarshaller.Sees u 0 u.buf := ⟨Nat.zero_le _, prefix_rfl⟩
    exact ih.trans (unmarshalPointerIndexes_window hsees hi).2.2.2.1

/-- The iteration over the pointer members in a window. -/
theorem pointerIndexes_window {T : TypeTable} {gas gas' : ℕ} (hgas : gas ≤ gas')
    (hstate : u.state = .unmarshalPointerIndexes) (hs : u.Sees skip buf)
    (h : mobsIterateFrom (·.base.pointerMemberSet) unmarshalPointerIndexes gas u.nextIndex u =
      some (true, u')) :
    (mobsIterateFrom (·.base.pointerMemberSet) unmarshalPointerIndexes gas' u.nextIndex
        (u.window skip buf) = some (true, u'.window skip buf) ∧ u'.Sees skip buf) ∨
      (∃ v g, g ≤ gas ∧ Items T u v ∧ v.state = .unmarshalPointerIndexes ∧ v.Sees skip buf ∧
        mobsIterateFrom (·.base.pointerMemberSet) unmarshalPointerIndexes gas' u.nextIndex
          (u.window skip buf) = some (false, v.window skip buf) ∧
        mobsIterateFrom (·.base.pointerMemberSet) unmarshalPointerIndexes g v.nextIndex v =
          some (true, u') ∧
        buf.length + skip < u.buf.length) := by
  induction gas generalizing u gas' with
  | zero => cases h
  | succ gas ih =>
    obtain ⟨gas', rfl⟩ : ∃ n, gas' = n + 1 := ⟨gas' - 1, by omega⟩
    have h0 := h
    rw [mobsIterateFrom] at h ⊢
    have hset : (u.window skip buf).base.pointerMemberSet = u.base.pointerMemberSet := rfl
    rw [hset]
    rcases ho : u.base.pointerMemberSet[u.nextIndex]? with _ | pointer <;>
      simp only [ho] at h ⊢
    · cases h
      exact .inl ⟨rfl, hs⟩
    · rcases hp : unmarshalPointerIndexes u.nextIndex pointer u with _ | ⟨_ | _, u1⟩ <;>
        simp only [hp] at h
      · cases h
      · cases h
      · obtain ⟨hwin, _, h2, h3, _, h5⟩ := unmarshalPointerIndexes_window hs hp
        rcases hwin with ⟨hw, hs1⟩ | ⟨hw, hlt⟩
        · simp only [hw]
          rw [← h5] at h ⊢
          rcases ih (Nat.le_of_succ_le_succ hgas) (h2.trans hstate) hs1 h with
            ⟨hl, hs'⟩ | ⟨v, g, hg, hi, hv, hsv, hl, hlv, hlt⟩
          · exact .inl ⟨hl, hs'⟩
          · exact .inr ⟨v, g, Nat.le_succ_of_le hg, .index hstate ho hp hi, hv, hsv, hl, hlv,
              by rwa [← h3]⟩
        · simp only [hw]
          exact .inr ⟨u, gas + 1, Nat.le_refl _, .refl u, hstate, hs, rfl, h0, hlt⟩

/-! ## A whole call -/

/-- `unmarshal` over all the data of `u` returns `true` with `root`, and leaves `u'`. -/
inductive Completes (T : TypeTable) (root : Mob) (u' : Unmarshaller) : Unmarshaller → Prop
  | values {u v w : Unmarshaller} {gas : ℕ} : u.state = .unmarshalValues →
      gas ≤ mobsMaxObjects + 1 → unmarshalValuesLoop T gas u = some (true, v) →
      registerUnmarshalledShared T v = some w →
      Completes T root u' { w with state := .unmarshalPointerIndexes } → Completes T root u' u
  | indexes {u v : Unmarshaller} {gas : ℕ} : u.state = .unmarshalPointerIndexes →
      gas ≤ mobsMaxObjects + 1 →
      mobsIterateFrom (·.base.pointerMemberSet) unmarshalPointerIndexes gas u.nextIndex u =
        some (true, v) →
      mobsGetObject v.base.objectSet v.rootIndex = some root →
      u' = { v with
        state := .unmarshalValues, nextIndex := 0, rootIndex := v.base.objectSet.length,
        base.pointerMemberSet := [] } →
      Completes T root u' u

variable {T : TypeTable} {root : Mob}

theorem completes_of_pointerIndexesState (hstate : u.state = .unmarshalPointerIndexes)
    (h : unmarshalPointerIndexesState u = some (some root, u')) : Completes T root u' u := by
  simp only [unmarshalPointerIndexesState, bind_eq_bind, bind_eq_some_iff,
    Prod.exists] at h
  obtain ⟨_ | _, v, hiter, h⟩ := h
  · simp at h
  · simp only [if_true, bind_eq_some_iff] at h
    obtain ⟨o, ho, h⟩ := h
    cases h
    exact .indexes hstate (Nat.le_refl _) hiter ho rfl

theorem completes_of_unmarshal (h : unmarshal T u = some (some root, u')) :
    Completes T root u' u := by
  unfold unmarshal at h
  cases hstate : u.state with
  | unmarshalPointerIndexes =>
    simp only [hstate] at h
    exact completes_of_pointerIndexesState hstate h
  | unmarshalValues =>
    simp only [hstate, unmarshalValuesState, bind_eq_bind, bind_eq_some_iff,
      Prod.exists] at h
    obtain ⟨_ | _, v, hloop, h⟩ := h
    · simp at h
    · simp only [if_true, bind_eq_some_iff] at h
      obtain ⟨w, hw, h⟩ := h
      exact .values hstate (Nat.le_refl _) hloop hw (completes_of_pointerIndexesState rfl h)

theorem registerUnmarshalledShared_window {w : Unmarshaller} (skip : ℕ) (buf : List UInt8)
    (h : registerUnmarshalledShared T u = some w) :
    registerUnmarshalledShared T (u.window skip buf) = some (w.window skip buf) := by
  unfold registerUnmarshalledShared at h ⊢
  split at h
  · simp only [bind_eq_bind, bind_eq_some_iff, Prod.exists] at h ⊢
    obtain ⟨finished, base, hiter, h⟩ := h
    split at h
    · cases h
      rw [if_pos ‹_›]
      exact bind_eq_some_iff.mpr ⟨(finished, base), hiter, by simp [*]; rfl⟩
    · cases h
  · cases h
    rw [if_neg ‹_›]

/-- The state `UNMARSHAL_POINTER_INDEXES` over a window. -/
theorem unmarshalPointerIndexesState_window {v : Unmarshaller} {gas : ℕ}
    (hstate : u.state = .unmarshalPointerIndexes) (hgas : gas ≤ mobsMaxObjects + 1)
    (hiter : mobsIterateFrom (·.base.pointerMemberSet) unmarshalPointerIndexes gas u.nextIndex u =
      some (true, v))
    (hroot : mobsGetObject v.base.objectSet v.rootIndex = some root)
    (hu' : u' = { v with
      state := .unmarshalValues, nextIndex := 0, rootIndex := v.base.objectSet.length,
      base.pointerMemberSet := [] })
    (hs : u.Sees skip buf) :
    (unmarshalPointerIndexesState (u.window skip buf) =
        some (some root, u'.window skip buf) ∧ u'.Sees skip buf) ∨
      (∃ w, Items T u w ∧ w.Sees skip buf ∧
        unmarshalPointerIndexesState (u.window skip buf) = some (none, w.window skip buf) ∧
        w.state = .unmarshalPointerIndexes ∧ Completes T root u' w ∧
        buf.length + skip < u.buf.length) := by
  have hwin := pointerIndexes_window (T := T) hgas hstate hs hiter
  have hnext : (u.window skip buf).nextIndex = u.nextIndex := rfl
  unfold unmarshalPointerIndexesState mobsIterate
  rcases hwin with ⟨hw, hs'⟩ | ⟨w, g, hg, hi, hws, hsw, hw, hrest, hlt⟩
  · left
    have hrw : mobsGetObject (v.window skip buf).base.objectSet
        (v.window skip buf).rootIndex = some root := hroot
    subst hu'
    refine ⟨?_, ⟨hs'.skip_le, hs'.isPrefix⟩⟩
    simp only [hnext, hw, bind_eq_bind, bind_some, if_true, hrw]
    rfl
  · right
    refine ⟨w, hi, hsw, ?_, hws, .indexes hws (Nat.le_trans hg hgas) hrest hroot hu', hlt⟩
    simp [hnext, hw]

/-- **A call over a window.** When the call over all the data returns `true`, this one returns the
same, or it returns `false` between two items of that call, from where the rest completes. -/
theorem unmarshal_window (h : Completes T root u' u) (hs : u.Sees skip buf) :
    (unmarshal T (u.window skip buf) = some (some root, u'.window skip buf) ∧
        u'.Sees skip buf) ∨
      (∃ v, Items T u v ∧ v.Sees skip buf ∧
        unmarshal T (u.window skip buf) = some (none, v.window skip buf) ∧
        Completes T root u' v ∧
        buf.length + skip < u.buf.length) := by
  have hws : (u.window skip buf).state = u.state := rfl
  unfold unmarshal
  rw [hws]
  cases h with
  | indexes hstate hgas hiter hroot hu' =>
    rw [hstate]
    rcases unmarshalPointerIndexesState_window (T := T) hstate hgas hiter hroot hu' hs with
      h | ⟨w, hi, hsw, hw, _, hc, hlt⟩
    · exact .inl h
    · exact .inr ⟨w, hi, hsw, hw, hc, hlt⟩
  | @values _ v w gas hstate hgas hloop hshared hrest =>
    rw [hstate]
    simp only [unmarshalValuesState, unmarshalValues]
    rcases unmarshalValuesLoop_window hgas hstate hs hloop with
      ⟨hl, hsv⟩ | ⟨x, g, hg, hi, hxs, hsx, hl, hlx, hlt⟩
    · have hshw := registerUnmarshalledShared_window skip buf hshared
      have hsw : ({ w with state := .unmarshalPointerIndexes } : Unmarshaller).Sees skip buf := by
        obtain ⟨base, rfl⟩ := registerUnmarshalledShared_frame hshared
        exact ⟨hsv.skip_le, hsv.isPrefix⟩
      obtain ⟨x, hix, hxs, hfin⟩ := items_of_unmarshalValuesLoop hstate hloop
      simp only [hl, bind_eq_bind, bind_some, if_true, hshw]
      cases hrest with
      | values hstate' => cases hstate'
      | indexes hstate' hgas' hiter hroot hu' =>
        rcases unmarshalPointerIndexesState_window (T := T) hstate' hgas' hiter hroot hu' hsw with
          h | ⟨y, hi, hsy, hy, _, hc, hlt⟩
        · exact .inl h
        · have hfinished := Items.finished hxs hfin hshared (.refl _)
          have hbuf := (hix.trans hfinished).buf_eq
          simp only at hbuf
          exact .inr ⟨y, hix.trans (.finished hxs hfin hshared hi), hsy, hy, hc,
            by simpa only [hbuf] using hlt⟩
    · right
      refine ⟨x, hi, hsx, ?_, .values hxs (Nat.le_trans hg hgas) hlx hshared hrest, hlt⟩
      simp [hl]

end Mh40.Marshal
