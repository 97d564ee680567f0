import Mh40.Marshal.Chunks
import Mh40.Marshal.Windows

/-!
# Copies of objects

What the unmarshaller makes of the chunk of one object. The callbacks of the client that the
traversal asks are outside the library, and `WellBehaved` is what it relies on: they read leaf
members visited before, and the custom copies are inverse.

* `SameLeaves`: the members visited so far have the same leaf bytes in two memories. By it, the
  callbacks answer the same for the object and for its half-read copy, so both traversals make the
  same visits.
* `unmarshalObject_copies`: from the chunk of an object the unmarshaller makes a copy, unless its
  block is too small or a set is full.
-/

namespace Mh40.Marshal

open Lib Memory List Option

/-! ## The client -/

/-- The members `past` of the object at `a` have the same leaf bytes in the object at `b`. -/
def SameLeaves (mem : Memory) (a : Addr) (mem' : Memory) (b : Addr) (past : List Visit) : Prop :=
  ∀ v ∈ past, v.isLeaf →
    SameBytes mem (a.shift v.offset) mem' (b.shift v.offset) v.type.size.toNat

/-- The type table and the callbacks in it, as the library expects them. -/
structure WellBehaved (T : TypeTable) : Prop where
  length : T.length ≤ marshalTypesMax.toNat
  /-- A callback reads leaf members that are visited before it is asked. -/
  earlier : ∀ type d mem a, (traversal T type d).Determined (taggedUnionMember T mem a)
    (fun past q => ∀ mem' b, SameLeaves mem a mem' b past →
      taggedUnionMember T mem' b q = taggedUnionMember T mem a q) []
  /-- `unmarshal_copy` undoes `marshal_copy`. -/
  copies : ∀ t ∈ T, ∀ raw copy, customCopy t.marshalCopy raw = some copy →
    customCopy t.unmarshalCopy copy = some raw

variable {T : TypeTable} {mem : Memory}

/-! ## Types of the visits -/

section

variable {P : TypeDescriptor → Prop} {traverse : Node → TypeDescriptor → Traversal}

theorem all_traverseElements (hT : ∀ t ∈ T, P t)
    (htraverse : ∀ n t, P t → (traverse n t).All (P ·.type)) (parent : Node)
    (isPointer isUnion : Bool) (size gas element : ℕ) (desc : MemberDescriptor)
    (type : TypeDescriptor) (addr : ℕ) (h : P type) :
    (traverseElements T traverse parent isPointer isUnion size gas element desc type addr).All
      (P ·.type) := by
  induction gas generalizing element desc type addr with
  | zero => trivial
  | succ gas ih =>
    have hbody : ∀ desc' type', P type' → Script.All (P ·.type) (Script.visit
        (⟨addr, desc', type', parent⟩ : Visit)
        ((if !desc'.isPointer && !type'.members.isEmpty then
            traverse ⟨addr, desc'.type, 0⟩ type' else .done).andThen
          (traverseElements T traverse parent isPointer isUnion size gas (element + 1) desc' type'
            (addr + if isPointer then pointerSize else size)))) := by
      intro desc' type' h'
      refine ⟨h', .andThen ?_ (ih _ _ _ _ h')⟩
      split
      · exact htraverse _ _ h'
      · trivial
    unfold traverseElements
    simp only
    split
    · split
      · intro index
        rcases halt : type.members[index]? with _ | alternative <;> simp only [halt]
        · trivial
        · rcases htype : T.desc alternative.type with _ | alternativeType <;> simp only
          · trivial
          · exact hbody _ _ (hT _ (TypeTable.mem_of_desc htype))
      · exact hbody _ _ h
    · trivial

theorem mergeArray_type {type : TypeDescriptor} (hsize : ∀ t size, P t → P { t with size })
    (h : P type) (desc : MemberDescriptor) : P (mergeArray desc type).2 := by
  unfold mergeArray
  dsimp only
  split
  · exact hsize _ _ h
  · exact h

theorem all_traverseMembers (hT : ∀ t ∈ T, P t) (hsize : ∀ t size, P t → P { t with size })
    (htraverse : ∀ n t, P t → (traverse n t).All (P ·.type)) (parent : Node)
    (parentType : TypeDescriptor) (members : List MemberDescriptor) :
    (traverseMembers T traverse parent parentType members).All (P ·.type) := by
  induction members with
  | nil => trivial
  | cons m members ih =>
    refine .andThen ?_ ih
    unfold traverseMember
    split
    · trivial
    · exact all_traverseElements hT htraverse _ _ _ _ _ _ _ _ _
        (mergeArray_type hsize (hT _ (TypeTable.mem_of_desc ‹_›)) _)

/-- The type of a visit comes from the table, up to its size. -/
theorem all_traversal (hT : ∀ t ∈ T, P t) (hsize : ∀ t size, P t → P { t with size })
    (type : MarshalType) (d : UInt8) : (traversal T type d).All (P ·.type) := by
  have himpl : ∀ n node t, P t → (objectTreeTraverseImpl T n node t).All (P ·.type) := by
    intro n
    induction n with
    | zero => exact fun _ _ _ => trivial
    | succ n ih => exact fun node t _ => all_traverseMembers hT hsize ih node t t.members
  unfold traversal
  split
  · trivial
  · have := hT _ (TypeTable.mem_of_desc ‹_›)
    split
    · exact ⟨this, trivial⟩
    · exact himpl _ _ _ this

end

/-- In a table without unions no callback is asked. -/
theorem silent_traversal (hT : ∀ t ∈ T, t.isUnion = false) (type : MarshalType) (d : UInt8) :
    (traversal T type d).Silent := by
  have helements : ∀ (traverse : Node → TypeDescriptor → Traversal) (parent : Node)
      (isPointer : Bool) (size : ℕ), (∀ n t, (traverse n t).Silent) →
      ∀ (gas element : ℕ) (desc : MemberDescriptor) (type : TypeDescriptor) (addr : ℕ),
        (traverseElements T traverse parent isPointer false size gas element desc type
          addr).Silent := by
    intro traverse parent isPointer size htraverse gas
    induction gas with
    | zero => exact fun _ _ _ _ => trivial
    | succ gas ih =>
      intro element desc type addr
      unfold traverseElements
      simp only [Bool.false_and, Bool.false_eq_true, if_false]
      by_cases hlt : element < desc.arrayElements.toNat
      · rw [if_pos hlt]
        refine Script.Silent.andThen ?_ (ih _ _ _ _)
        split
        · exact htraverse _ _
        · trivial
      · rw [if_neg hlt]
        trivial
  have himpl : ∀ n node t, (objectTreeTraverseImpl T n node t).Silent := by
    intro n
    induction n with
    | zero => exact fun _ _ => trivial
    | succ n ih =>
      intro node t
      have hmembers : ∀ members, (traverseMembers T (objectTreeTraverseImpl T n) node t
          members).Silent := by
        intro members
        induction members with
        | nil => trivial
        | cons m members ihm =>
          refine .andThen ?_ ihm
          unfold traverseMember
          split
          · trivial
          · rw [hT _ (TypeTable.mem_of_desc ‹_›)]
            exact helements _ _ _ _ ih _ _ _ _ _
      exact hmembers t.members
  unfold traversal
  split
  · trivial
  · split
    · trivial
    · exact himpl _ _ _

theorem wellBehaved_of_no_unions (hlen : T.length ≤ marshalTypesMax.toNat)
    (hT : ∀ t ∈ T, t.isUnion = false ∧ t.marshalCopy = none ∧ t.unmarshalCopy = none) :
    WellBehaved T where
  length := hlen
  earlier := fun type d _ _ => (silent_traversal (fun t ht => (hT t ht).1) type d).determined []
  copies := by
    intro t ht raw copy h
    rw [(hT t ht).2.1] at h
    rw [(hT t ht).2.2]
    cases h
    rfl

/-- What `unmarshal_copy` makes of the bytes of a visited leaf. -/
theorem WellBehaved.copy_of_mem {object : Mob} {vs : List Visit} (hT : WellBehaved T)
    (hvs : objectVisits T mem object = some vs) {v : Visit} (hv : v ∈ vs) {raw copy : List UInt8}
    (h : customCopy v.type.marshalCopy raw = some copy) :
    customCopy v.type.unmarshalCopy copy = some raw := by
  obtain ⟨a, _, hvs⟩ := bind_eq_some_iff.mp hvs
  have := (all_traversal (P := fun t => ∀ raw copy, customCopy t.marshalCopy raw = some copy →
    customCopy t.unmarshalCopy copy = some raw) hT.copies (fun _ _ h => h) object.type
    object.disambiguator).of_mem_visits hvs
  exact this v hv raw copy h

/-! ## Reading one object -/

/-- The pointer members among the visits of an object, as entries of a pointer member set. -/
def pointerMobs (object : Addr) (vs : List Visit) : Mobs :=
  (vs.filter (·.descriptor.isPointer)).map fun v =>
    ⟨some (object.shift v.offset), v.descriptor.type, 0⟩

theorem pointerMobs_append (object : Addr) (vs ws : List Visit) :
    pointerMobs object (vs ++ ws) = pointerMobs object vs ++ pointerMobs object ws := by
  simp [pointerMobs]

/-- `s` has read the members `past` of an object into a block of `size` bytes behind the heap of
`u`; the members of `all` that are not in `past` come next in the data, and then `tail`. -/
structure Reading (mem : Memory) (a : Addr) (all : List Visit) (size : ℕ) (tail : List UInt8)
    (u : Unmarshaller) (past : List Visit) (s : Unmarshaller) : Prop where
  part : PartOf u s
  block : ∃ blk, s.heap[u.heap.length]? = some blk ∧ blk.size = size
  leaves : SameLeaves mem a s.heap ⟨u.heap.length, 0⟩ past
  inside : s.outdex ≤ s.buf.length
  data : ∀ rest, past ++ rest = all → ∃ bs, valuesBytes mem a rest = some bs ∧
    s.buf.drop s.outdex = bs ++ tail
  pointers : s.base.pointerMemberSet =
    u.base.pointerMemberSet ++ pointerMobs ⟨u.heap.length, 0⟩ past

section

variable {a : Addr} {all past rest : List Visit} {v : Visit} {size : ℕ} {tail : List UInt8}
  {u s : Unmarshaller} {b : Addr}

theorem SameLeaves.snoc {mem' : Memory} (h : SameLeaves mem a mem' b past)
    (hv : v.isLeaf → SameBytes mem (a.shift v.offset) mem' (b.shift v.offset) v.type.size.toNat) :
    SameLeaves mem a mem' b (past ++ [v]) := by
  intro w hw hleaf
  rcases mem_append.mp hw with hw | hw
  · exact h w hw hleaf
  · rw [mem_singleton.mp hw] at hleaf ⊢
    exact hv hleaf

/-- Writing the bytes of the object at their place in the copy keeps the leaves that are there. -/
theorem SameLeaves.writeBytes {mem' mem'' : Memory} {raw : List UInt8} {i n : ℕ}
    (h : SameLeaves mem a mem' b past) (hraw : mem.readBytes (a.shift i) n = some raw)
    (hw : mem'.writeBytes (b.shift i) raw = some mem'') : SameLeaves mem a mem'' b past := by
  intro v hv hleaf
  obtain ⟨hm, hm', hbytes⟩ := sameBytes_iff.mp (h v hv hleaf)
  refine sameBytes_iff.mpr ⟨hm, (holds_writeBytes_iff hw).mpr hm', fun j hj => ?_⟩
  rw [byte_of_writeBytes hw, hbytes j hj]
  obtain ⟨_, rfl⟩ := readBytes_eq_some_iff.mp hraw
  split
  · rename_i hin
    simp only [Addr.shift_shift, Addr.shift_offset, Addr.shift_block] at hin ⊢
    by_cases hlt : v.offset + j - i < n
    · rw [show b.offset + (v.offset + j) - (b.offset + i) = v.offset + j - i by omega]
      rw [getElem?_map, getElem?_range hlt]
      simp only [map_some, getD_some]
      have := hbytes j hj
      rw [Addr.shift_shift, Addr.shift_shift] at this
      rw [← this]
      congr 1
      simp only [Addr.shift, Addr.mk.injEq, true_and]
      omega
    · rw [getElem?_eq_none (by simp; omega)]
      rfl
  · rfl

/-- The leaf that is written is the same in both. -/
theorem sameBytes_of_writeBytes {mem' mem'' : Memory} {raw : List UInt8} {n : ℕ}
    (hraw : mem.readBytes a n = some raw) (hw : mem'.writeBytes b raw = some mem'') :
    SameBytes mem a mem'' b n := by
  obtain ⟨hm, hr⟩ := readBytes_eq_some_iff.mp hraw
  have hlen : raw.length = n := by simp [hr]
  have hholds := holds_of_writeBytes hw
  rw [hlen] at hholds
  refine sameBytes_iff.mpr ⟨hm, (holds_writeBytes_iff hw).mpr hholds, fun j hj => ?_⟩
  rw [byte_of_writeBytes hw]
  simp [hr, hj]

/-- Why a member of an object cannot be read: its leaf lies outside the block, or its pointer
finds the set full. -/
def Unreadable (size : ℕ) (u : Unmarshaller) (past : List Visit) (v : Visit) : Prop :=
  (v.isLeaf = true ∧ size < v.offset + v.type.size.toNat) ∨
    (v.descriptor.isPointer = true ∧ mobsMaxObjects ≤
      (u.base.pointerMemberSet ++ pointerMobs ⟨u.heap.length, 0⟩ past).length)

theorem Reading.leaf {object : Mob} (hT : WellBehaved T)
    (hvs : objectVisits T mem object = some all) (hall : past ++ v :: rest = all)
    (h : Reading mem a all size tail u past s) (hleaf : v.isLeaf = true) :
    (∃ s', readValue ((⟨u.heap.length, 0⟩ : Addr).shift v.offset) v.type s = some (true, s') ∧
      Reading mem a all size tail u (past ++ [v]) s') ∨
      readValue ((⟨u.heap.length, 0⟩ : Addr).shift v.offset) v.type s = none ∧
        size < v.offset + v.type.size.toNat := by
  obtain ⟨bs, hval, hdata⟩ := h.data (v :: rest) hall
  simp only [valuesBytes, bind_eq_bind, bind_eq_some_iff] at hval
  obtain ⟨copy, hcopy, bs', hbs', hval⟩ := hval
  cases hval
  unfold leafBytes at hcopy
  rw [if_pos hleaf] at hcopy
  obtain ⟨raw, hraw, hcopy⟩ := bind_eq_some_iff.mp hcopy
  have hmem : v ∈ all := by simp [← hall]
  have hback := hT.copy_of_mem hvs hmem hcopy
  have hlenraw := length_of_readBytes hraw
  have hlen : copy.length = v.type.size.toNat := (length_of_customCopy hcopy).trans hlenraw
  have hroom : s.outdex + v.type.size.toNat ≤ s.buf.length := by
    have := congrArg List.length hdata
    simp only [length_drop, length_append] at this
    have := h.inside
    omega
  have htake : (s.buf.drop s.outdex).take v.type.size.toNat = copy := by
    rw [hdata, ← hlen, append_assoc, take_left]
  obtain ⟨blk, hblk, hsize⟩ := h.block
  simp only [readValue, if_pos hroom, htake, hback, bind_eq_bind, bind_some]
  by_cases hfit : v.offset + v.type.size.toNat ≤ size
  · left
    have hholds : s.heap.Holds ((⟨u.heap.length, 0⟩ : Addr).shift v.offset) raw.length :=
      ⟨blk, hblk, by simpa [hlenraw, hsize] using hfit⟩
    obtain ⟨heap, hw⟩ := hholds.writeBytes
    have hread : readValue ((⟨u.heap.length, 0⟩ : Addr).shift v.offset) v.type s =
        some (true, { s with heap, outdex := s.outdex + v.type.size.toNat }) := by
      simp only [readValue, if_pos hroom, htake, hback, hw, bind_eq_bind, bind_some]
    refine ⟨_, by rw [hw]; rfl, h.part.readValue (by rfl) hread, ?_, ?_, hroom, ?_, ?_⟩
    · obtain ⟨b₁, hb1, rfl⟩ := map_eq_some_iff.mp hw
      obtain ⟨hb1, _⟩ := access_eq_some_iff.mp hb1
      refine ⟨_, by rw [getElem?_of_set hb1]; exact if_pos rfl, ?_⟩
      have : b₁ = blk := some.inj (hb1.symm.trans hblk)
      rw [this]
      exact hsize
    · refine (h.leaves.writeBytes hraw hw).snoc fun _ => ?_
      exact sameBytes_of_writeBytes hraw hw
    · intro rest' hrest'
      have : rest' = rest := by
        rw [← hall, append_assoc, append_cancel_left_eq] at hrest'
        exact (cons.inj hrest').2
      subst this
      refine ⟨bs', hbs', ?_⟩
      rw [← drop_drop, hdata, ← hlen, append_assoc, drop_left]
    · rw [pointerMobs_append, h.pointers]
      have : v.descriptor.isPointer = false := by
        simp only [Visit.isLeaf, Bool.and_eq_true, Bool.not_eq_true'] at hleaf
        exact hleaf.1
      simp [pointerMobs, this]
  · right
    refine ⟨?_, Nat.lt_of_not_le hfit⟩
    rcases hw : s.heap.writeBytes ((⟨u.heap.length, 0⟩ : Addr).shift v.offset) raw with _ | heap
    · rfl
    · obtain ⟨b₁, hb1, hle⟩ := holds_of_writeBytes hw
      have : b₁ = blk := some.inj (hb1.symm.trans hblk)
      subst this
      simp only [Addr.shift_offset, Nat.zero_add, hlenraw, hsize] at hle
      exact absurd hle hfit

theorem Reading.step {object : Mob} (hT : WellBehaved T)
    (hvs : objectVisits T mem object = some all) (hall : past ++ v :: rest = all)
    (h : Reading mem a all size tail u past s) :
    (∃ s', traverseCallback ⟨u.heap.length, 0⟩ valueReader v s = some (true, s') ∧
      Reading mem a all size tail u (past ++ [v]) s') ∨
      traverseCallback ⟨u.heap.length, 0⟩ valueReader v s = none ∧ Unreadable size u past v := by
  rw [traverseCallback_valueReader]
  by_cases hleaf : v.isLeaf = true
  · rw [if_pos hleaf]
    rcases h.leaf hT hvs hall hleaf with hok | ⟨hnone, hlt⟩
    · exact .inl hok
    · exact .inr ⟨hnone, .inl ⟨hleaf, hlt⟩⟩
  rw [if_neg hleaf]
  have hdata : ∀ rest', (past ++ [v]) ++ rest' = all → ∃ bs, valuesBytes mem a rest' = some bs ∧
      s.buf.drop s.outdex = bs ++ tail := by
    intro rest' hrest'
    obtain ⟨bs, hval, hd⟩ := h.data (v :: rest') (by simpa using hrest')
    simp only [valuesBytes, leafBytes, if_neg hleaf, bind_eq_bind, bind_some,
      nil_append] at hval
    obtain ⟨bs', hv, hbs⟩ := bind_eq_some_iff.mp hval
    cases hbs
    exact ⟨bs, hv, hd⟩
  have hleaves := h.leaves.snoc (v := v) fun hl => absurd hl hleaf
  by_cases hp : v.descriptor.isPointer = true
  · rw [if_pos hp]
    by_cases hfull : s.base.pointerMemberSet.length < mobsMaxObjects
    · left
      refine ⟨{ s with base.pointerMemberSet := s.base.pointerMemberSet ++
        [⟨some ((⟨u.heap.length, 0⟩ : Addr).shift v.offset), v.descriptor.type, 0⟩] }, ?_, ?_⟩
      · simp [storePointers, mobsPushUnique, hfull]
      · refine ⟨?_, h.block, hleaves, h.inside, hdata, ?_⟩
        · exact h.part.storePointers (a := (⟨u.heap.length, 0⟩ : Addr).shift v.offset)
            v.descriptor (v.parent.mob ⟨u.heap.length, 0⟩)
            (by simp [storePointers, mobsPushUnique, hfull])
        · simp [h.pointers, pointerMobs, hp]
    · right
      refine ⟨by simp [storePointers, mobsPushUnique, hfull], .inr ⟨hp, ?_⟩⟩
      rw [← h.pointers]
      exact Nat.not_lt.mp hfull
  · rw [if_neg hp]
    exact .inl ⟨s, rfl, h.part, h.block, hleaves, h.inside, hdata,
      by simp [h.pointers, pointerMobs, hp]⟩

/-- A traversal over the half-read copy makes the visits of the object. -/
theorem Reading.traverse {object : Mob} (copy : Mob) (hT : WellBehaved T)
    (hvs : objectVisits T mem object = some all) (ha : object.address = some a)
    (hb : copy.address = some ⟨u.heap.length, 0⟩) (htype : copy.type = object.type)
    (hd : copy.disambiguator = object.disambiguator)
    (h : Reading mem a all size tail u [] s) :
    (∃ s', objectTreeTraverse T (·.heap) valueReader copy s = some (true, s') ∧
      Reading mem a all size tail u all s') ∨
      objectTreeTraverse T (·.heap) valueReader copy s = none ∧
        ∃ past v rest, past ++ v :: rest = all ∧ Unreadable size u past v := by
  have hexec : objectTreeTraverse T (·.heap) valueReader copy s =
      forEach (traverseCallback ⟨u.heap.length, 0⟩ valueReader) all s := by
    have hv := hvs
    unfold objectVisits at hv
    rw [ha] at hv
    unfold objectTreeTraverse
    rw [hb, htype, hd]
    refine Script.exec_eq_forEach_of_determined (Reading mem a all size tail u) ?_ ?_
      (nil_append all)
      (hT.earlier object.type object.disambiguator mem a) hv h
    · intro past v rest s s' hall hr hf
      rcases hr.step hT hvs hall with ⟨s'', hs'', hr'⟩ | ⟨hnone, _⟩
      · rw [hf, some.injEq, Prod.mk.injEq] at hs''
        exact hs''.2 ▸ hr'
      · rw [hf] at hnone
        cases hnone
    · intro past q s hr hq
      exact hq s.heap ⟨u.heap.length, 0⟩ hr.leaves
  rw [hexec]
  exact forEach_cases (Reading mem a all size tail u) (Unreadable size u)
    (fun past v rest s hall hr => hr.step hT hvs hall) (nil_append all) h

end

/-! ## One object of the stream -/

/-- The entry of a copy in a block of its own. -/
def copyMob (block : ℕ) (object : Mob) : Mob :=
  ⟨some ⟨block, 0⟩, object.type, object.disambiguator⟩

/-- The disambiguator of an object of a fixed length is 0. -/
def Disambiguated (T : TypeTable) (object : Mob) : Prop :=
  ∀ t, T.desc object.type = some t → t.dynamicLength = false → object.disambiguator = 0

/-- `u'` is `u` with a copy of `object`, whose members are `vs`, behind the heap. -/
structure ObjectCopied (T : TypeTable) (mem : Memory) (object : Mob) (a : Addr) (vs : List Visit)
    (tail : List UInt8) (u u' : Unmarshaller) : Prop where
  objectSet : u'.base.objectSet = u.base.objectSet ++ [copyMob u.heap.length object]
  sharedMemberSet : u'.base.sharedMemberSet = u.base.sharedMemberSet
  pointers : u'.base.pointerMemberSet =
    u.base.pointerMemberSet ++ pointerMobs ⟨u.heap.length, 0⟩ vs
  heap : ∃ blk, u'.heap = u.heap ++ [blk] ∧
    objSize T object.type object.disambiguator = some blk.size
  leaves : SameLeaves mem a u'.heap ⟨u.heap.length, 0⟩ vs
  inside : u'.outdex ≤ u'.buf.length
  data : u'.buf.drop u'.outdex = tail
  state : u'.state = u.state
  rootIndex : u'.rootIndex = u.rootIndex
  nextIndex : u'.nextIndex = u.nextIndex
  buf : u'.buf = u.buf

/-- Why an object cannot be copied. -/
inductive Uncopyable (T : TypeTable) (object : Mob) (vs : List Visit) (u : Unmarshaller) : Prop
  | size : objSize T object.type object.disambiguator = none → Uncopyable T object vs u
  | member {size : ℕ} {past : List Visit} {v : Visit} {rest : List Visit} :
      objSize T object.type object.disambiguator = some size → past ++ v :: rest = vs →
      Unreadable size u past v → Uncopyable T object vs u
  | full : mobsMaxObjects ≤ u.base.objectSet.length → Uncopyable T object vs u

variable {object : Mob} {a : Addr} {vs : List Visit} {tail : List UInt8} {u : Unmarshaller}

theorem readUint8_of_drop {value : UInt8} {rest : List UInt8}
    (h : u.buf.drop u.outdex = value :: rest) :
    readUint8 u = (some value, { u with outdex := u.outdex + 1 }) ∧
      u.buf.drop (u.outdex + 1) = rest ∧ u.outdex + 1 ≤ u.buf.length := by
  have hget : u.buf[u.outdex]? = some value := by
    have := congrArg (·[0]?) h
    simpa using this
  obtain ⟨hlt, _⟩ := List.getElem?_eq_some_iff.mp hget
  refine ⟨by simp [readUint8, hget], ?_, hlt⟩
  rw [← drop_drop, h]
  rfl

/-- `unmarshal_alloc` on the rest of the header of an object. -/
theorem unmarshalAlloc_spec {t : TypeDescriptor} {values : List UInt8} (v : Unmarshaller)
    (ht : T.desc object.type = some t) (hd : Disambiguated T object)
    (hinside : v.outdex ≤ v.buf.length)
    (hdata : object.type :: v.buf.drop v.outdex = headerBytes t object ++ values) :
    (∃ size n, objSize T object.type object.disambiguator = some size ∧
      unmarshalAlloc T object.type v = some (some (copyMob v.heap.length object),
        { v with heap := (v.heap.zpmalloc size).2, outdex := n }) ∧
      n ≤ v.buf.length ∧ v.buf.drop n = values) ∨
      objSize T object.type object.disambiguator = none ∧
        unmarshalAlloc T object.type v = none := by
  unfold headerBytes at hdata
  by_cases hdyn : t.dynamicLength = true
  · rw [if_pos hdyn] at hdata
    simp only [cons_append, nil_append, cons.injEq, true_and] at hdata
    obtain ⟨hread, hrest, hle⟩ := readUint8_of_drop hdata
    simp only [unmarshalAlloc, ht, bind_eq_bind, bind_some, if_pos hdyn, hread]
    rcases hsize : objSize T object.type object.disambiguator with _ | size
    · exact .inr ⟨rfl, rfl⟩
    · exact .inl ⟨size, v.outdex + 1, rfl, rfl, hle, hrest⟩
  · rw [if_neg hdyn] at hdata
    simp only [cons_append, nil_append, cons.injEq, true_and] at hdata
    left
    refine ⟨t.size.toNat, v.outdex, ?_, ?_, hinside, hdata⟩
    · simp [objSize, ht, hdyn]
    · have h0 := hd t ht (by simpa using hdyn)
      simp [unmarshalAlloc, ht, hdyn, copyMob, h0, Memory.zpmalloc]

theorem reading_start (size : ℕ) {n : ℕ} {values : List UInt8}
    (hvalues : valuesBytes mem a vs = some values) (hn : n ≤ u.buf.length)
    (hdata : u.buf.drop n = values ++ tail) :
    Reading mem a vs size tail u [] { u with heap := (u.heap.zpmalloc size).2, outdex := n } where
  part := partOf_zpmalloc u size n
  block := ⟨Block.zeroed size, by simp [Memory.zpmalloc], rfl⟩
  leaves := fun _ hv => absurd hv not_mem_nil
  inside := hn
  data := by
    intro rest hr
    rw [nil_append] at hr
    exact ⟨values, hr ▸ hvalues, hdata⟩
  pointers := by simp [pointerMobs]

theorem PartOf.heap_eq {s : Unmarshaller} {blk : Block} (h : PartOf u s)
    (hblk : s.heap[u.heap.length]? = some blk) : s.heap = u.heap ++ [blk] := by
  have hlast : s.heap.dropLast = u.heap := congrArg (·.heap) h.rewind
  have hne : s.heap ≠ [] := by
    intro h
    rw [h] at hblk
    cases hblk
  have hget : s.heap.getLast hne = blk := by
    obtain ⟨_, hblk⟩ := List.getElem?_eq_some_iff.mp hblk
    rw [getLast_eq_getElem]
    simpa [h.heap] using hblk
  rw [← dropLast_append_getLast hne, hget, hlast]

/-- When all members are read, the object is copied. -/
theorem Reading.copied {size : ℕ} {s : Unmarshaller} (h : Reading mem a vs size tail u vs s)
    (hsize : objSize T object.type object.disambiguator = some size) :
    ObjectCopied T mem object a vs tail u
      { s with base.objectSet := u.base.objectSet ++ [copyMob u.heap.length object] } := by
  obtain ⟨blk, hblk, hblksize⟩ := h.block
  obtain ⟨h1, h2, h3, h4⟩ := h.part.frame
  obtain ⟨bs, hbs, hdata⟩ := h.data [] (append_nil vs)
  cases hbs
  exact {
    objectSet := rfl
    sharedMemberSet := congrArg (·.base.sharedMemberSet) h.part.rewind
    pointers := h.pointers
    heap := ⟨blk, h.part.heap_eq hblk, hblksize ▸ hsize⟩
    leaves := h.leaves
    inside := h.inside
    data := hdata
    state := h1
    rootIndex := h3
    nextIndex := h4
    buf := h2 }

/-- **From the chunk of an object the unmarshaller makes a copy**, or it faults. -/
theorem unmarshalObject_copies {chunk : List UInt8} (hT : WellBehaved T)
    (hd : Disambiguated T object) (ha : object.address = some a)
    (hvs : objectVisits T mem object = some vs) (hchunk : objectChunk T mem object = some chunk)
    (hdata : u.buf.drop u.outdex = chunk ++ tail) :
    (∃ u', unmarshalObject T u = some (.object, u') ∧
      ObjectCopied T mem object a vs tail u u') ∨
      unmarshalObject T u = none ∧ Uncopyable T object vs u := by
  simp only [objectChunk, ha, hvs, bind_eq_bind, bind_some,
    bind_eq_some_iff] at hchunk
  obtain ⟨t, ht, values, hvalues, hchunk⟩ := hchunk
  cases hchunk
  have htype : object.type.toNat < T.length := (List.getElem?_eq_some_iff.mp ht).1
  have hnot : object.type ≠ marshalTypesMax := by
    intro h
    have := hT.length
    rw [h] at htype
    omega
  obtain ⟨rest, hrest⟩ : ∃ rest, headerBytes t object ++ (values ++ tail) = object.type :: rest := by
    unfold headerBytes
    split <;> exact ⟨_, rfl⟩
  rw [append_assoc, hrest] at hdata
  obtain ⟨hread, hdrop, hle⟩ := readUint8_of_drop hdata
  unfold unmarshalObject
  simp only [hread, if_neg hnot, if_pos htype]
  have hhead : object.type :: u.buf.drop (u.outdex + 1) = headerBytes t object ++ (values ++ tail) :=
    by rw [hdrop, hrest]
  rcases unmarshalAlloc_spec { u with outdex := u.outdex + 1 } ht hd hle hhead with
    ⟨size, n, hsize, halloc, hn, hvals⟩ | ⟨hsize, halloc⟩
  · have hstart := reading_start (u := u) size hvalues hn hvals
    simp only [halloc, bind_eq_bind, bind_some]
    rcases hstart.traverse (copyMob u.heap.length object) hT hvs ha rfl rfl rfl with
      ⟨s, hs, hr⟩ | ⟨hnone, past, v, rest, hall, hbad⟩
    · simp only [hs, bind_some, if_true]
      have hobjects : s.base.objectSet = u.base.objectSet :=
        congrArg (·.base.objectSet) hr.part.rewind
      by_cases hfull : u.base.objectSet.length < mobsMaxObjects
      · left
        exact ⟨_, by simp only [mobsPushUnique, hobjects, if_pos hfull, bind_some],
          hr.copied hsize⟩
      · right
        have hle := Nat.le_of_not_lt hfull
        constructor
        · simp only [mobsPushUnique, hobjects, if_neg hfull, bind_none]
        · exact .full hle
    · right
      exact ⟨by simp only [hnone, bind_none], .member hsize hall hbad⟩
  · right
    exact ⟨by simp only [halloc, bind_eq_bind, bind_none], .size hsize⟩

end Mh40.Marshal
