import Mh40.Marshal.Base

/-!
# The layout of an object

The leaf values and the pointers that the type table declares in an object, stated without the
traversal: arrays element by element, a union by its active alternative.

* `Declares`: the parts of a node.
* `covered_of_declares`: the traversal visits every declared part. An array of basic types that it
  merges is one visit over all elements.
-/

namespace Mh40.Marshal

open Lib List Option

/-- A leaf value or a pointer, at an offset in the object. -/
inductive Part where
  | leaf (offset size : ℕ)
  | pointer (offset : ℕ) (type : MarshalType)

/-- The number of elements of the member at `index`. The final member of a dynamic length array
has as many as the disambiguator says. -/
def elements (t : TypeDescriptor) (disambiguator : UInt8) (index : ℕ) (m : MemberDescriptor) : ℕ :=
  if t.dynamicLength ∧ t.dynamicType = .array ∧ index + 1 = t.members.length then
    disambiguator.toNat
  else m.arrayElements.toNat

/-- The parts of a node. `active` is the active alternative of a union member. A type that is held
by value has a fixed length. -/
inductive Declares (T : TypeTable) (active : Query → Option ℕ) : Node → Part → Prop
  | leaf {n : Node} {t : TypeDescriptor} :
      T.desc n.type = some t → t.members = [] → Declares T active n (.leaf n.offset t.size.toNat)
  | pointer {n : Node} {t : TypeDescriptor} {m : MemberDescriptor} {i e : ℕ} :
      T.desc n.type = some t → t.members[i]? = some m → m.isPointer = true →
      e < elements t n.disambiguator i m →
      Declares T active n (.pointer (n.offset + m.offset.toNat + e * pointerSize) m.type)
  | value {n : Node} {t u : TypeDescriptor} {m : MemberDescriptor} {i e : ℕ} {p : Part} :
      T.desc n.type = some t → t.members[i]? = some m → m.isPointer = false →
      T.desc m.type = some u → u.isUnion = false → e < elements t n.disambiguator i m →
      Declares T active ⟨n.offset + m.offset.toNat + e * u.size.toNat, m.type, 0⟩ p →
      Declares T active n p
  | union {n : Node} {t u : TypeDescriptor} {m alternative : MemberDescriptor} {i e k : ℕ}
      {p : Part} :
      T.desc n.type = some t → t.members[i]? = some m → m.isPointer = false →
      T.desc m.type = some u → u.isUnion = true → e < elements t n.disambiguator i m →
      active ⟨n, m, e⟩ = some k → u.members[k]? = some alternative →
      alternative.isPointer = false →
      Declares T active ⟨n.offset + m.offset.toNat + e * u.size.toNat +
        alternative.offset.toNat, alternative.type, 0⟩ p →
      Declares T active n p
  | unionPointer {n : Node} {t u : TypeDescriptor} {m alternative : MemberDescriptor} {i e k : ℕ} :
      T.desc n.type = some t → t.members[i]? = some m → m.isPointer = false →
      T.desc m.type = some u → u.isUnion = true → e < elements t n.disambiguator i m →
      active ⟨n, m, e⟩ = some k → u.members[k]? = some alternative →
      alternative.isPointer = true →
      Declares T active n (.pointer (n.offset + m.offset.toNat + e * u.size.toNat +
        alternative.offset.toNat) alternative.type)

/-- The unions of a table: single members, of single alternatives that lie at its start. -/
structure UnionsSingle (T : TypeTable) : Prop where
  member : ∀ t ∈ T, ∀ (i : ℕ) m u, t.members[i]? = some m → m.isPointer = false →
    T.desc m.type = some u → u.isUnion = true → ∀ d, elements t d i m = 1
  alternative : ∀ u ∈ T, u.isUnion = true → ∀ alternative ∈ u.members,
    alternative.arrayElements = 1 ∧ alternative.offset = 0

/-- The visit is for the part, or for an array that the part is an element of. -/
def Visit.Covers (v : Visit) : Part → Prop
  | .leaf offset size =>
    v.isLeaf = true ∧ v.offset ≤ offset ∧ offset + size ≤ v.offset + v.type.size.toNat
  | .pointer offset type =>
    v.descriptor.isPointer = true ∧ v.offset = offset ∧ v.descriptor.type = type

/-! ## The traversal of one member -/

variable {T : TypeTable} {traverse : Node → TypeDescriptor → Traversal} {parent : Node}
  {active : Query → Option ℕ} {type : TypeDescriptor} {desc : MemberDescriptor} {vs : List Visit}
  {m : MemberDescriptor} {t u : TypeDescriptor} {offset : ℕ} {p : Part}

/-- A visit of a member at `offset`, with the visits of what it holds by value. -/
def VisitedAt (traverse : Node → TypeDescriptor → Traversal) (active : Query → Option ℕ)
    (offset : ℕ) (desc : MemberDescriptor) (type : TypeDescriptor) (vs : List Visit) : Prop :=
  (∃ v ∈ vs, v.offset = offset ∧ v.descriptor = desc ∧ v.type = type) ∧
    (desc.isPointer = false → type.members ≠ [] →
      ∃ ws, (traverse ⟨offset, desc.type, 0⟩ type).visits active = some ws ∧ ws ⊆ vs)

theorem VisitedAt.mono {vs vs' : List Visit} (h : VisitedAt traverse active offset desc type vs)
    (hsub : vs ⊆ vs') :
    VisitedAt traverse active offset desc type vs' := by
  obtain ⟨⟨v, hv, hrest⟩, hnested⟩ := h
  refine ⟨⟨v, hsub hv, hrest⟩, fun hp hm => ?_⟩
  obtain ⟨ws, hws, hsub'⟩ := hnested hp hm
  exact ⟨ws, hws, Subset.trans hsub' hsub⟩

/-- What the body of the element loop visits. -/
theorem visitedAt_body (rest : Traversal)
    (h : Script.visits active (.visit ⟨offset, desc, type, parent⟩
      ((if !desc.isPointer && !type.members.isEmpty then
          traverse ⟨offset, desc.type, 0⟩ type else .done).andThen rest)) = some vs) :
    VisitedAt traverse active offset desc type vs ∧ ∃ ws, rest.visits active = some ws ∧ ws ⊆ vs := by
  obtain ⟨us, hus, rfl⟩ := map_eq_some_iff.mp h
  obtain ⟨ws, ws', hw, hw', rfl⟩ := Script.visits_andThen hus
  refine ⟨⟨⟨_, mem_cons_self, rfl, rfl, rfl⟩, fun hp hm => ⟨ws, ?_, ?_⟩⟩, ws', hw', ?_⟩
  · simpa [hp, hm] using hw
  · exact fun v hv => mem_cons_of_mem _ (mem_append_left _ hv)
  · exact fun v hv => mem_cons_of_mem _ (mem_append_right _ hv)

/-- The loop over the elements of a member that is no union. -/
theorem visitedAt_traverseElements {isUnion : Bool} {size gas element e : ℕ}
    (desc : MemberDescriptor) (hu : (isUnion && !desc.isPointer) = false)
    (h : (traverseElements T traverse parent desc.isPointer isUnion size gas element desc type
      offset).visits active = some vs) (he : element ≤ e) (hlt : e < desc.arrayElements.toNat) :
    VisitedAt traverse active
      (offset + (e - element) * if desc.isPointer then pointerSize else size) desc type vs := by
  induction gas generalizing element offset vs with
  | zero => cases h
  | succ gas ih =>
    unfold traverseElements at h
    simp only [if_pos (Nat.lt_of_le_of_lt he hlt), hu, Bool.false_eq_true, if_false] at h
    obtain ⟨hbody, ws, hws, hsub⟩ := visitedAt_body _ h
    rcases Nat.eq_or_lt_of_le he with rfl | hlt'
    · simpa using hbody
    · have hstride : ∀ stride, stride + (e - (element + 1)) * stride = (e - element) * stride := by
        intro stride
        rw [show e - element = e - (element + 1) + 1 by omega, Nat.succ_mul, Nat.add_comm]
      have := (ih hws hlt').mono hsub
      rwa [Nat.add_assoc, hstride] at this

/-- The descriptor of a member with its number of elements. -/
def sizedMember (t : TypeDescriptor) (disambiguator : UInt8) (isFinal : Bool)
    (m : MemberDescriptor) : MemberDescriptor :=
  if t.dynamicLength && isFinal && t.dynamicType = .array then
    { m with arrayElements := disambiguator }
  else m

theorem elements_eq (t : TypeDescriptor) (disambiguator : UInt8) (i : ℕ) (m : MemberDescriptor) :
    elements t disambiguator i m =
      (sizedMember t disambiguator (decide (i + 1 = t.members.length)) m).arrayElements.toNat := by
  unfold elements sizedMember
  by_cases h : t.dynamicLength ∧ t.dynamicType = .array ∧ i + 1 = t.members.length
  · rw [if_pos h, if_pos (by simp [h.1, h.2.1, h.2.2])]
  · rw [if_neg h, if_neg]
    simp only [Bool.and_eq_true, decide_eq_true_eq]
    tauto

theorem sizedMember_isPointer (t : TypeDescriptor) (disambiguator : UInt8) (isFinal : Bool)
    (m : MemberDescriptor) : (sizedMember t disambiguator isFinal m).isPointer = m.isPointer := by
  unfold sizedMember
  split <;> rfl

theorem sizedMember_offset (t : TypeDescriptor) (disambiguator : UInt8) (isFinal : Bool)
    (m : MemberDescriptor) : (sizedMember t disambiguator isFinal m).offset = m.offset := by
  unfold sizedMember
  split <;> rfl

theorem sizedMember_type (t : TypeDescriptor) (disambiguator : UInt8) (isFinal : Bool)
    (m : MemberDescriptor) : (sizedMember t disambiguator isFinal m).type = m.type := by
  unfold sizedMember
  split <;> rfl

/-- A union member has one element, whatever the length of the object. -/
theorem UnionsSingle.fixed {i : ℕ} (hT : UnionsSingle T) (ht : t ∈ T) (hi : t.members[i]? = some m)
    (hp : m.isPointer = false) (hu : T.desc m.type = some u) (hunion : u.isUnion = true) :
    m.arrayElements.toNat = 1 ∧
      ∀ d, sizedMember t d (decide (i + 1 = t.members.length)) m = m := by
  have hone := hT.member t ht i m u hi hp hu hunion 0
  have hfixed : ¬(t.dynamicLength ∧ t.dynamicType = .array ∧ i + 1 = t.members.length) := by
    intro hdyn
    rw [elements, if_pos hdyn] at hone
    cases hone
  refine ⟨by rwa [elements, if_neg hfixed] at hone, fun d => if_neg fun hdyn => hfixed ?_⟩
  simp only [Bool.and_eq_true, decide_eq_true_eq] at hdyn
  exact ⟨hdyn.1.1, hdyn.2, hdyn.1.2⟩

theorem traverseMember_eq {isFinal : Bool} (hu : T.desc m.type = some u) :
    traverseMember T traverse parent t isFinal m =
      let merged := mergeArray (sizedMember t parent.disambiguator isFinal m) u
      traverseElements T traverse parent m.isPointer u.isUnion merged.2.size.toNat (ucharMax + 1) 0
        merged.1 merged.2 (parent.offset + m.offset.toNat) := by
  have hoff : ∀ m', (mergeArray m' u).1.offset = m'.offset := by
    intro m'
    unfold mergeArray
    dsimp only
    split <;> rfl
  have hsized : traverseMember T traverse parent t isFinal m =
      let member := sizedMember t parent.disambiguator isFinal m
      let merged := mergeArray member u
      traverseElements T traverse parent member.isPointer u.isUnion merged.2.size.toNat
        (ucharMax + 1) 0 merged.1 merged.2 (parent.offset + merged.1.offset.toNat) := by
    simp only [traverseMember, hu, sizedMember]
  rw [hsized]
  simp only [hoff, sizedMember_isPointer, sizedMember_offset]

/-- Only a member that is no pointer, no union and has no members is merged. -/
theorem mergeArray_cases (desc : MemberDescriptor) (u : TypeDescriptor) :
    mergeArray desc u = (desc, u) ∨
      (desc.isPointer = false ∧ u.isUnion = false ∧ u.members = []) ∧
        mergeArray desc u = ({ desc with arrayElements := 1 },
          { u with size := .ofNat (u.size.toNat * desc.arrayElements.toNat) }) ∧
        u.size.toNat * desc.arrayElements.toNat ≤ ucharMax := by
  unfold mergeArray
  dsimp only
  split
  · rename_i h
    simp only [Bool.and_eq_true, decide_eq_true_eq, Bool.not_eq_true', List.isEmpty_iff] at h
    exact .inr ⟨⟨h.1.1.1.2, h.1.1.2, h.1.2⟩, rfl, h.2⟩
  · exact .inl rfl

/-- A visit of one element, and of what it holds by value. -/
def visitNested (traverse : Node → TypeDescriptor → Traversal) (parent : Node) (offset : ℕ)
    (desc : MemberDescriptor) (type : TypeDescriptor) : Traversal :=
  .visit ⟨offset, desc, type, parent⟩
    (if !desc.isPointer && !type.members.isEmpty then traverse ⟨offset, desc.type, 0⟩ type
      else .done)

variable (traverse parent active) in
/-- A union member is visited as its active alternative. -/
theorem visits_union {i : ℕ} (hT : UnionsSingle T) (ht : t ∈ T) (hi : t.members[i]? = some m)
    (hu : T.desc m.type = some u) (hp : m.isPointer = false) (hunion : u.isUnion = true) :
    (traverseMember T traverse parent t (decide (i + 1 = t.members.length)) m).visits active =
      (active ⟨parent, m, 0⟩).bind fun k => (u.members[k]?).bind fun alternative =>
        (T.desc alternative.type).bind fun v =>
          (visitNested traverse parent (parent.offset + m.offset.toNat) alternative v).visits
            active := by
  obtain ⟨hone, hsized⟩ := hT.fixed ht hi hp hu hunion
  have hmerged : mergeArray m u = (m, u) := by
    rcases mergeArray_cases m u with hm | ⟨⟨_, hnot, _⟩, _⟩
    · exact hm
    · rw [hunion] at hnot
      cases hnot
  rw [traverseMember_eq hu, hsized]
  simp only [hmerged, hp, hunion]
  unfold traverseElements
  simp only [hone, Nat.zero_lt_one, if_true, Bool.not_false, Bool.and_self, Script.visits]
  congr 1
  funext k
  rcases ha : u.members[k]? with _ | alternative
  · rfl
  simp only [bind_some]
  rcases T.desc alternative.type with _ | v
  · rfl
  have hone' := (hT.alternative u (TypeTable.mem_of_desc hu) hunion alternative
    (mem_of_getElem? ha)).1
  -- the loop ends: the descriptor is now that of the alternative, of one element
  have hend : traverseElements T traverse parent false true u.size.toNat ucharMax (0 + 1)
      alternative v (parent.offset + m.offset.toNat + u.size.toNat) = .done := by
    unfold traverseElements
    simp [hone']
  simp only [Bool.false_eq_true, if_false, hend, Script.andThen_done]
  rfl

section

variable {t u : TypeDescriptor} {m : MemberDescriptor} {i e : ℕ} {vs : List Visit}

section

variable (hu : T.desc m.type = some u) (he : e < elements t parent.disambiguator i m)
  (h : (traverseMember T traverse parent t (decide (i + 1 = t.members.length)) m).visits active =
    some vs)
include hu he h

/-- A pointer member is visited element by element. -/
theorem covered_pointer (hp : m.isPointer = true) :
    ∃ v ∈ vs, v.Covers (.pointer (parent.offset + m.offset.toNat + e * pointerSize) m.type) := by
  rw [traverseMember_eq hu] at h
  rw [elements_eq] at he
  have hpointer := (sizedMember_isPointer t parent.disambiguator
    (decide (i + 1 = t.members.length)) m).trans hp
  have htype := sizedMember_type t parent.disambiguator (decide (i + 1 = t.members.length)) m
  generalize sizedMember t parent.disambiguator (decide (i + 1 = t.members.length)) m = desc at *
  rcases mergeArray_cases desc u with hm | ⟨⟨hnot, _⟩, _⟩
  · simp only [hm, hp, ← hpointer] at h
    have := visitedAt_traverseElements desc (by simp [hpointer]) h (Nat.zero_le e) he
    obtain ⟨⟨v, hv, hoff, hdesc, _⟩, _⟩ := this
    exact ⟨v, hv, hdesc ▸ hpointer, by simpa [hpointer] using hoff, hdesc ▸ htype⟩
  · rw [hpointer] at hnot
    cases hnot

/-- A member by value is visited element by element, or as one array of leaf values. -/
theorem covered_value (hp : m.isPointer = false) (hunion : u.isUnion = false) :
    (u.members = [] → ∃ v ∈ vs, v.Covers
      (.leaf (parent.offset + m.offset.toNat + e * u.size.toNat) u.size.toNat)) ∧
    (u.members ≠ [] → ∃ ws, (traverse
      ⟨parent.offset + m.offset.toNat + e * u.size.toNat, m.type, 0⟩ u).visits active = some ws ∧
        ws ⊆ vs) := by
  rw [traverseMember_eq hu] at h
  rw [elements_eq] at he
  have hpointer := (sizedMember_isPointer t parent.disambiguator
    (decide (i + 1 = t.members.length)) m).trans hp
  have htype := sizedMember_type t parent.disambiguator (decide (i + 1 = t.members.length)) m
  generalize sizedMember t parent.disambiguator (decide (i + 1 = t.members.length)) m = desc at *
  rcases mergeArray_cases desc u with hm | ⟨⟨_, _, hleaf⟩, hm, hsize⟩
  · simp only [hm, hp, ← hpointer] at h
    have := visitedAt_traverseElements desc (by simp [hunion]) h (Nat.zero_le e) he
    simp only [hpointer, Bool.false_eq_true, if_false, Nat.sub_zero] at this
    obtain ⟨⟨v, hv, hoff, hdesc, hvtype⟩, hnested⟩ := this
    refine ⟨fun hmem => ⟨v, hv, ?_, Nat.le_of_eq hoff, ?_⟩, htype ▸ hnested hpointer⟩
    · simp [Visit.isLeaf, hdesc, hpointer, hvtype, hmem]
    · exact Nat.le_of_eq (by rw [hoff, hvtype])
  · simp only [hm, hp, ← hpointer] at h
    refine ⟨fun _ => ?_, fun hmem => absurd hleaf hmem⟩
    have := visitedAt_traverseElements { desc with arrayElements := 1 } (e := 0)
      (by simp [hpointer, hunion]) h (Nat.le_refl 0) Nat.zero_lt_one
    obtain ⟨⟨v, hv, hoff, hdesc, hvtype⟩, _⟩ := this
    have hnat : (UInt8.ofNat (u.size.toNat * desc.arrayElements.toNat)).toNat =
        u.size.toNat * desc.arrayElements.toNat := by
      rw [UInt8.toNat_ofNat']
      exact Nat.mod_eq_of_lt (Nat.lt_succ_of_le hsize)
    have hmul : e * u.size.toNat + u.size.toNat ≤ u.size.toNat * desc.arrayElements.toNat := by
      rw [← Nat.succ_mul, Nat.mul_comm]
      exact Nat.mul_le_mul_left _ he
    simp only [Nat.sub_self, Nat.zero_mul, Nat.add_zero] at hoff
    refine ⟨v, hv, ?_, ?_, ?_⟩
    · simp [Visit.isLeaf, hdesc, hpointer, hvtype, hleaf]
    · omega
    · rw [hvtype, hnat]
      omega

end

/-- A union member is visited as its active alternative. -/
theorem covered_union {k : ℕ} {alternative : MemberDescriptor} (hT : UnionsSingle T) (ht : t ∈ T)
    (hi : t.members[i]? = some m) (hu : T.desc m.type = some u) (hp : m.isPointer = false)
    (hunion : u.isUnion = true) (he : e < elements t parent.disambiguator i m)
    (hk : active ⟨parent, m, e⟩ = some k) (halt : u.members[k]? = some alternative)
    (h : (traverseMember T traverse parent t (decide (i + 1 = t.members.length)) m).visits active =
      some vs) :
    ∃ altType, T.desc alternative.type = some altType ∧
      VisitedAt traverse active (parent.offset + m.offset.toNat + e * u.size.toNat +
        alternative.offset.toNat) alternative altType vs := by
  rw [hT.member t ht i m u hi hp hu hunion] at he
  obtain rfl : e = 0 := by omega
  have halt0 := (hT.alternative u (TypeTable.mem_of_desc hu) hunion alternative
    (mem_of_getElem? halt)).2
  simp only [visits_union _ _ _ hT ht hi hu hp hunion, hk, halt, bind_some] at h
  obtain ⟨v, hv, h⟩ := bind_eq_some_iff.mp h
  refine ⟨v, hv, ?_⟩
  have := (visitedAt_body .done (by simpa [visitNested] using h)).1
  simpa [halt0] using this

/-- The traversal of a list of members, which are the last of their type. -/
theorem visits_traverseMembers {members : List MemberDescriptor}
    (h : (traverseMembers T traverse parent t members).visits active = some vs)
    (hi : members[i]? = some m) :
    ∃ ws, (traverseMember T traverse parent t (decide (i + 1 = members.length)) m).visits active =
      some ws ∧ ws ⊆ vs := by
  induction members generalizing i vs with
  | nil => cases hi
  | cons m' members ih =>
    obtain ⟨ws, ws', hw, hw', rfl⟩ := Script.visits_andThen h
    rcases i with _ | i
    · cases hi
      refine ⟨ws, ?_, subset_append_left _ _⟩
      rw [← hw]
      congr 2
      cases members <;> simp
    · obtain ⟨us, hus, hsub⟩ := ih hw' hi
      refine ⟨us, ?_, Subset.trans hsub (subset_append_right _ _)⟩
      rw [← hus]
      congr 2
      simp

end

/-! ## The traversal of an object -/

/-- A type without members is one leaf value. -/
theorem eq_leaf_of_declares {n : Node} {t : TypeDescriptor} (h : Declares T active n p)
    (ht : T.desc n.type = some t) (hleaf : t.members = []) : p = .leaf n.offset t.size.toNat := by
  cases h with
  | leaf ht' _ =>
    rw [ht] at ht'
    cases ht'
    rfl
  | pointer ht' hi | value ht' hi | union ht' hi | unionPointer ht' hi =>
    rw [ht] at ht'
    cases ht'
    simp [hleaf] at hi

/-- A visit that holds a node by value, and the visits below it, cover the parts of the node. -/
theorem VisitedAt.covers {nesting : ℕ}
    (h : VisitedAt (objectTreeTraverseImpl T nesting) active offset desc type vs)
    (hp : desc.isPointer = false) (ht : T.desc desc.type = some type)
    (hd : Declares T active ⟨offset, desc.type, 0⟩ p)
    (ih : ∀ {nesting : ℕ} {t : TypeDescriptor} {vs : List Visit}, T.desc desc.type = some t →
      t.members ≠ [] → (objectTreeTraverseImpl T nesting ⟨offset, desc.type, 0⟩ t).visits active =
      some vs → ∃ v ∈ vs, v.Covers p) : ∃ v ∈ vs, v.Covers p := by
  obtain ⟨⟨v, hv, hoff, hdesc, htype⟩, hnested⟩ := h
  by_cases hmem : type.members = []
  · rw [eq_leaf_of_declares hd ht hmem]
    refine ⟨v, hv, by simp [Visit.isLeaf, hdesc, hp, htype, hmem], Nat.le_of_eq hoff, ?_⟩
    exact Nat.le_of_eq (by rw [hoff, htype])
  · obtain ⟨ws, hws, hsub⟩ := hnested hp hmem
    obtain ⟨w, hw, hcov⟩ := ih ht hmem hws
    exact ⟨w, hsub hw, hcov⟩

/-- **Every part of a node is visited.** -/
theorem covered_of_declares (hT : UnionsSingle T) {n : Node} (h : Declares T active n p) :
    ∀ {nesting : ℕ} {t : TypeDescriptor} {vs : List Visit}, T.desc n.type = some t →
      t.members ≠ [] → (objectTreeTraverseImpl T nesting n t).visits active = some vs →
      ∃ v ∈ vs, v.Covers p := by
  -- the visits of the member that the part lies in
  have hmember : ∀ {n : Node} {t t' : TypeDescriptor} {m : MemberDescriptor} {i nesting : ℕ}
      {vs : List Visit}, T.desc n.type = some t → t.members[i]? = some m →
      T.desc n.type = some t' →
      (objectTreeTraverseImpl T nesting n t').visits active = some vs →
      ∃ nesting' u ws, T.desc m.type = some u ∧
        (traverseMember T (objectTreeTraverseImpl T nesting') n t
          (decide (i + 1 = t.members.length)) m).visits active = some ws ∧ ws ⊆ vs := by
    intro n t t' m i nesting vs ht hi ht' hvs
    rw [ht] at ht'
    cases ht'
    rcases nesting with _ | nesting
    · cases hvs
    · obtain ⟨ws, hws, hsub⟩ := visits_traverseMembers hvs hi
      rcases hu : T.desc m.type with _ | u
      · simp [traverseMember, hu, Script.visits] at hws
      · exact ⟨nesting, u, ws, rfl, hws, hsub⟩
  induction h with
  | leaf ht hleaf =>
    intro _ t' _ ht' hmem _
    rw [ht] at ht'
    cases ht'
    exact absurd hleaf hmem
  | pointer ht hi hp he =>
    intro _ _ _ ht' _ hvs
    obtain ⟨_, u, ws, hu, hws, hsub⟩ := hmember ht hi ht' hvs
    obtain ⟨v, hv, hcov⟩ := covered_pointer hu he hws hp
    exact ⟨v, hsub hv, hcov⟩
  | @value _ _ u _ _ _ _ ht hi hp hu hunion he hd ih =>
    intro _ _ _ ht' _ hvs
    obtain ⟨_, u', ws, hu', hws, hsub⟩ := hmember ht hi ht' hvs
    rw [hu] at hu'
    cases hu'
    obtain ⟨hleaf, hnested⟩ := covered_value hu he hws hp hunion
    by_cases hmem : u.members = []
    · rw [eq_leaf_of_declares hd hu hmem]
      obtain ⟨v, hv, hcov⟩ := hleaf hmem
      exact ⟨v, hsub hv, hcov⟩
    · obtain ⟨us, hus, hsub'⟩ := hnested hmem
      obtain ⟨v, hv, hcov⟩ := ih hu hmem hus
      exact ⟨v, hsub (hsub' hv), hcov⟩
  | union ht hi hp hu hunion he hk halt hpalt hd ih =>
    intro _ _ _ ht' _ hvs
    obtain ⟨_, u', ws, hu', hws, hsub⟩ := hmember ht hi ht' hvs
    rw [hu] at hu'
    cases hu'
    obtain ⟨altType, hat, hvisited⟩ := covered_union hT (TypeTable.mem_of_desc ht) hi hu hp hunion
      he hk halt hws
    obtain ⟨v, hv, hcov⟩ := hvisited.covers hpalt hat hd ih
    exact ⟨v, hsub hv, hcov⟩
  | unionPointer ht hi hp hu hunion he hk halt hpalt =>
    intro _ _ _ ht' _ hvs
    obtain ⟨_, u', ws, hu', hws, hsub⟩ := hmember ht hi ht' hvs
    rw [hu] at hu'
    cases hu'
    obtain ⟨altType, hat, ⟨v, hv, hoff, hdesc, _⟩, _⟩ := covered_union hT
      (TypeTable.mem_of_desc ht) hi hu hp hunion he hk halt hws
    exact ⟨v, hsub hv, hdesc ▸ hpalt, hoff, by rw [hdesc]⟩

/-- **Every part of an object is visited.** -/
theorem covered_of_objectVisits (hT : UnionsSingle T) {mem : Memory} {object : Mob} {a : Addr}
    (ha : object.address = some a) (hvs : objectVisits T mem object = some vs)
    (h : Declares T (taggedUnionMember T mem a) ⟨0, object.type, object.disambiguator⟩ p) :
    ∃ v ∈ vs, v.Covers p := by
  unfold objectVisits at hvs
  rw [ha, bind_some] at hvs
  unfold traversal at hvs
  rcases ht : T.desc object.type with _ | t <;> simp only [ht] at hvs
  · cases hvs
  · by_cases hmem : t.members = []
    · rw [eq_leaf_of_declares h ht hmem]
      simp only [hmem, isEmpty_nil, if_true, Script.visits, map_some,
        some.injEq] at hvs
      subst hvs
      refine ⟨_, mem_cons_self, ?_, Nat.le_refl _, Nat.le_refl _⟩
      simp [Visit.isLeaf, MemberDescriptor.member, hmem]
    · rw [if_neg (by simpa using hmem)] at hvs
      exact covered_of_declares hT h ht hmem hvs

end Mh40.Marshal
