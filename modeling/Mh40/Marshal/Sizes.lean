import Mh40.Marshal.Layout

/-!
# The sizes of objects

What the offsets and the sizes of a type table have to do with the traversal and with `obj_size`.

* `SoundLayout`: the members of a type lie apart from each other and within its size.
* `tidy_objectTreeTraverseImpl`: the visits of a node lie within it, its pointer members apart.
* `fits_of_objectVisits`: `obj_size` has room for all leaf values of an object, and for the
  pointers too when the length of the object is fixed.
-/

namespace Mh40.Marshal

open Lib List Option

/-- The size of one element of a member. -/
def stride (T : TypeTable) (m : MemberDescriptor) : ℕ :=
  if m.isPointer then pointerSize else (T.desc m.type).elim 0 (·.size.toNat)

/-- The size of a member, as the table has it. -/
def extent (T : TypeTable) (m : MemberDescriptor) : ℕ := m.arrayElements.toNat * stride T m

/-- The offsets and the sizes of C structures. -/
structure SoundLayout (T : TypeTable) : Prop where
  /-- What is held by value has a fixed length. -/
  held : ∀ t ∈ T, ∀ m ∈ t.members, m.isPointer = false → ∀ u, T.desc m.type = some u →
    u.dynamicLength = false
  /-- The members of a type lie within it. -/
  inside : ∀ t ∈ T, t.dynamicLength = false → ∀ m ∈ t.members,
    m.offset.toNat + extent T m ≤ t.size.toNat
  /-- The dynamic member lies behind the others. -/
  behind : ∀ t ∈ T, t.dynamicLength = true → ∃ front final, t.members = front ++ [final] ∧
    ∀ m ∈ front, m.offset.toNat + extent T m ≤ final.offset.toNat
  /-- The dynamic member of a tagged union is one. -/
  tagged : ∀ t ∈ T, t.dynamicLength = true → t.dynamicType = .taggedUnion →
    ∀ final, t.dynamicMember = some final → T.taggedMember final = true
  /-- The members of a structure lie apart. -/
  apart : ∀ t ∈ T, t.isUnion = false → t.members.Pairwise fun m m' =>
    m.offset.toNat + extent T m ≤ m'.offset.toNat ∨ m'.offset.toNat + extent T m' ≤ m.offset.toNat
  /-- The alternatives of a union are no unions. -/
  alternatives : ∀ u ∈ T, u.isUnion = true → ∀ m ∈ u.members, m.isPointer = false →
    ∀ v, T.desc m.type = some v → v.isUnion = false

/-- The size of what a visit is for. -/
def Visit.extent (v : Visit) : ℕ :=
  if v.descriptor.isPointer then pointerSize else v.type.size.toNat

/-- The visit is for something between `lo` and `hi`. -/
def Visit.Within (v : Visit) (lo hi : ℕ) : Prop := lo ≤ v.offset ∧ v.offset + v.extent ≤ hi

/-- The pointer members among the visits have different offsets. -/
def PointersApart (vs : List Visit) : Prop :=
  (vs.filter (·.descriptor.isPointer)).Pairwise fun v w => v.offset ≠ w.offset

/-- The visits of a traversal lie between `lo` and `hi`, the pointer members apart. -/
def Tidy (active : Query → Option ℕ) (lo hi : ℕ) (t : Traversal) : Prop :=
  ∀ vs, t.visits active = some vs → (∀ v ∈ vs, v.Within lo hi) ∧ PointersApart vs

variable {T : TypeTable} {active : Query → Option ℕ}

/-! ## Traversals one behind the other -/

theorem Visit.Within.mono {v : Visit} {lo hi lo' hi' : ℕ} (h : v.Within lo hi) (hlo : lo' ≤ lo)
    (hhi : hi ≤ hi') : v.Within lo' hi' :=
  ⟨Nat.le_trans hlo h.1, Nat.le_trans h.2 hhi⟩

theorem Tidy.mono {lo hi lo' hi' : ℕ} {t : Traversal} (h : Tidy active lo hi t) (hlo : lo' ≤ lo)
    (hhi : hi ≤ hi') : Tidy active lo' hi' t :=
  fun vs hvs => ⟨fun v hv => ((h vs hvs).1 v hv).mono hlo hhi, (h vs hvs).2⟩

theorem tidy_done (lo hi : ℕ) : Tidy active lo hi .done := by
  intro vs hvs
  cases hvs
  exact ⟨fun _ hv => absurd hv not_mem_nil, List.Pairwise.nil⟩

theorem tidy_fault (lo hi : ℕ) : Tidy active lo hi .fault := by
  intro vs hvs
  cases hvs

/-- Pointer members in ranges apart are apart. -/
theorem pointersApart_append {vs ws : List Visit} (hvs : PointersApart vs) (hws : PointersApart ws)
    (h : ∀ v ∈ vs, ∀ w ∈ ws, ∃ lo hi lo' hi', v.Within lo hi ∧ w.Within lo' hi' ∧
      (hi ≤ lo' ∨ hi' ≤ lo)) : PointersApart (vs ++ ws) := by
  unfold PointersApart at *
  rw [filter_append]
  refine pairwise_append.mpr ⟨hvs, hws, fun v hv w hw heq => ?_⟩
  obtain ⟨hv, hpv⟩ := mem_filter.mp hv
  obtain ⟨hw, hpw⟩ := mem_filter.mp hw
  obtain ⟨lo, hi, lo', hi', ⟨h1, h2⟩, ⟨h3, h4⟩, hapart⟩ := h v hv w hw
  simp only [Visit.extent, hpv, hpw, if_true, pointerSize] at h2 h4
  omega

theorem Tidy.andThen {lo mid hi : ℕ} {t t' : Traversal} (h : Tidy active lo mid t)
    (h' : Tidy active mid hi t') (hlo : lo ≤ mid) (hhi : mid ≤ hi) :
    Tidy active lo hi (t.andThen t') := by
  intro vs hvs
  obtain ⟨ws, ws', hw, hw', rfl⟩ := Script.visits_andThen hvs
  obtain ⟨hin, hapart⟩ := h ws hw
  obtain ⟨hin', hapart'⟩ := h' ws' hw'
  constructor
  · intro v hv
    rcases mem_append.mp hv with hv | hv
    · exact (hin v hv).mono (Nat.le_refl lo) hhi
    · exact (hin' v hv).mono hlo (Nat.le_refl hi)
  · refine pointersApart_append hapart hapart' fun v hv w hw => ?_
    exact ⟨lo, mid, mid, hi, hin v hv, hin' w hw, .inl (Nat.le_refl mid)⟩

/-! ## The traversal of one member -/

section

variable {traverse : Node → TypeDescriptor → Traversal} {parent : Node}

/-- The visit of one element, and of what it holds by value. -/
theorem tidy_visit {offset size : ℕ} {desc : MemberDescriptor} {type : TypeDescriptor}
    (hextent : (⟨offset, desc, type, parent⟩ : Visit).extent ≤ size)
    (hnested : desc.isPointer = false → type.members ≠ [] →
      Tidy active offset (offset + size) (traverse ⟨offset, desc.type, 0⟩ type)) :
    Tidy active offset (offset + size) (visitNested traverse parent offset desc type) := by
  intro vs hvs
  obtain ⟨ws, hws, rfl⟩ := map_eq_some_iff.mp hvs
  have hself : (⟨offset, desc, type, parent⟩ : Visit).Within offset (offset + size) :=
    ⟨Nat.le_refl _, Nat.add_le_add_left hextent _⟩
  by_cases hn : desc.isPointer = false ∧ type.members ≠ []
  · rw [if_pos (by simpa using hn)] at hws
    obtain ⟨hin, hapart⟩ := hnested hn.1 hn.2 ws hws
    refine ⟨forall_mem_cons.mpr ⟨hself, hin⟩, ?_⟩
    simpa [PointersApart, hn.1] using hapart
  · rw [if_neg (by simpa using hn)] at hws
    cases hws
    refine ⟨forall_mem_cons.mpr ⟨hself, by simp⟩, ?_⟩
    exact Pairwise.sublist filter_sublist (pairwise_singleton _ _)

theorem tidy_body {offset size hi : ℕ} {desc : MemberDescriptor} {type : TypeDescriptor}
    {rest : Traversal} (hextent : (⟨offset, desc, type, parent⟩ : Visit).extent ≤ size)
    (hnested : desc.isPointer = false → type.members ≠ [] →
      Tidy active offset (offset + size) (traverse ⟨offset, desc.type, 0⟩ type))
    (hrest : Tidy active (offset + size) hi rest) (hhi : offset + size ≤ hi) :
    Tidy active offset hi (.visit ⟨offset, desc, type, parent⟩
      ((if !desc.isPointer && !type.members.isEmpty then traverse ⟨offset, desc.type, 0⟩ type
        else .done).andThen rest)) :=
  (tidy_visit hextent hnested).andThen hrest (Nat.le_add_right _ _) hhi

variable (T active traverse parent) in
/-- The elements of a member that is no union lie one behind the other. -/
theorem tidy_traverseElements (isUnion : Bool) {size : ℕ} (gas element offset : ℕ)
    (desc : MemberDescriptor) (type : TypeDescriptor)
    (hu : (isUnion && !desc.isPointer) = false)
    (hsize : desc.isPointer = false → type.size.toNat = size)
    (hnested : desc.isPointer = false → type.members ≠ [] → ∀ offset,
      Tidy active offset (offset + size) (traverse ⟨offset, desc.type, 0⟩ type)) :
    Tidy active offset
      (offset + (desc.arrayElements.toNat - element) * if desc.isPointer then pointerSize else size)
      (traverseElements T traverse parent desc.isPointer isUnion size gas element desc type
        offset) := by
  induction gas generalizing element offset with
  | zero => exact tidy_fault _ _
  | succ gas ih =>
    unfold traverseElements
    simp only [hu, Bool.false_eq_true, if_false]
    by_cases hlt : element < desc.arrayElements.toNat
    · rw [if_pos hlt]
      have hmul : ∀ n, (desc.arrayElements.toNat - element) * n =
          n + (desc.arrayElements.toNat - (element + 1)) * n := by
        intro n
        rw [show desc.arrayElements.toNat - element =
          desc.arrayElements.toNat - (element + 1) + 1 by omega, Nat.succ_mul, Nat.add_comm]
      rw [hmul, ← Nat.add_assoc]
      refine tidy_body ?_ (fun hp hm => ?_) (ih _ _) (Nat.le_add_right _ _)
      · cases hp : desc.isPointer
        · simp [Visit.extent, hp, hsize hp]
        · simp [Visit.extent, hp]
      · simpa [hp] using hnested hp hm offset
    · rw [if_neg hlt]
      exact tidy_done _ _

variable {t u : TypeDescriptor} {m : MemberDescriptor} {isFinal : Bool}
  {members : List MemberDescriptor}

variable (active parent t isFinal) in
/-- A member that is no union lies between its offset and its end. -/
theorem tidy_member (hu : T.desc m.type = some u) (hnu : (u.isUnion && !m.isPointer) = false)
    (hnested : m.isPointer = false → u.members ≠ [] → ∀ offset,
      Tidy active offset (offset + u.size.toNat) (traverse ⟨offset, m.type, 0⟩ u)) :
    Tidy active (parent.offset + m.offset.toNat) (parent.offset + m.offset.toNat +
      (sizedMember t parent.disambiguator isFinal m).arrayElements.toNat * stride T m)
      (traverseMember T traverse parent t isFinal m) := by
  have hstride : stride T m = if m.isPointer then pointerSize else u.size.toNat := by
    simp [stride, hu]
  rw [traverseMember_eq hu, hstride]
  have hpointer := sizedMember_isPointer t parent.disambiguator isFinal m
  have htype := sizedMember_type t parent.disambiguator isFinal m
  generalize sizedMember t parent.disambiguator isFinal m = desc at *
  rcases mergeArray_cases desc u with hm | ⟨⟨hp, hunion, hleaf⟩, hm, hsize⟩
  · simp only [hm, ← hpointer]
    refine tidy_traverseElements T active traverse parent u.isUnion _ _ _ _ _ (by rwa [hpointer])
      (fun _ => rfl) fun hp hmem => ?_
    rw [htype]
    exact hnested (hpointer ▸ hp) hmem
  · have hnat : (UInt8.ofNat (u.size.toNat * desc.arrayElements.toNat)).toNat =
        desc.arrayElements.toNat * u.size.toNat := by
      rw [UInt8.toNat_ofNat', Nat.mul_comm]
      exact Nat.mod_eq_of_lt (by rw [Nat.mul_comm]; exact Nat.lt_succ_of_le hsize)
    have := tidy_traverseElements T active traverse parent u.isUnion (ucharMax + 1) 0
      (parent.offset + m.offset.toNat) { desc with arrayElements := 1 }
      { u with size := .ofNat (u.size.toNat * desc.arrayElements.toNat) }
      (by simp [hunion]) (fun _ => rfl) (fun _ hmem => absurd hleaf hmem)
    have hone : (1 : UInt8).toNat - 0 = 1 := rfl
    simp only [hp, hnat, hone, Nat.one_mul, Bool.false_eq_true, if_false] at this
    simpa only [hm, ← hpointer, hp, hnat, Bool.false_eq_true, if_false] using this

variable (active traverse parent) in
/-- A union member lies between its offset and the end of its active alternative. -/
theorem tidy_union {i : ℕ} (width : ℕ) (hun : UnionsSingle T) (ht : t ∈ T) (hi : t.members[i]? = some m)
    (hu : T.desc m.type = some u) (hp : m.isPointer = false) (hunion : u.isUnion = true)
    (halt : ∀ k alternative v, active ⟨parent, m, 0⟩ = some k →
      u.members[k]? = some alternative → T.desc alternative.type = some v →
      (if alternative.isPointer then pointerSize else v.size.toNat) ≤ width ∧
      (alternative.isPointer = false → v.members ≠ [] → ∀ offset,
        Tidy active offset (offset + v.size.toNat) (traverse ⟨offset, alternative.type, 0⟩ v))) :
    Tidy active (parent.offset + m.offset.toNat) (parent.offset + m.offset.toNat + width)
      (traverseMember T traverse parent t (decide (i + 1 = t.members.length)) m) := by
  intro vs hvs
  rw [visits_union _ _ _ hun ht hi hu hp hunion] at hvs
  obtain ⟨k, hk, hvs⟩ := bind_eq_some_iff.mp hvs
  obtain ⟨alternative, ha, hvs⟩ := bind_eq_some_iff.mp hvs
  obtain ⟨v, hv, hvs⟩ := bind_eq_some_iff.mp hvs
  obtain ⟨hwidth, hnested⟩ := halt k alternative v hk ha hv
  refine tidy_visit hwidth (fun hpa hmem => ?_) vs hvs
  refine (hnested hpa hmem _).mono (Nat.le_refl _) ?_
  rw [hpa] at hwidth
  exact Nat.add_le_add_left hwidth _

/-- The visits of an object are the visits of its members. -/
theorem mem_traverseMembers {vs : List Visit} {v : Visit}
    (h : (traverseMembers T traverse parent t members).visits active = some vs) (hv : v ∈ vs) :
    ∃ (i : ℕ) (m : MemberDescriptor) (ws : List Visit), members[i]? = some m ∧
      (traverseMember T traverse parent t (decide (i + 1 = members.length)) m).visits active =
        some ws ∧ v ∈ ws := by
  induction members generalizing vs with
  | nil =>
    cases h
    cases hv
  | cons m members ih =>
    obtain ⟨ws, ws', hw, hw', rfl⟩ := Script.visits_andThen h
    rcases mem_append.mp hv with hv | hv
    · refine ⟨0, m, ws, rfl, ?_, hv⟩
      rw [← hw]
      congr 2
      cases members <;> simp
    · obtain ⟨i, m', us, hi, hus, hv⟩ := ih hw' hv
      exact ⟨i + 1, m', us, hi, by simpa using hus, hv⟩

/-- Members that lie apart. -/
theorem pointersApart_traverseMembers {width : ℕ → ℕ}
    (h : ∀ (i : ℕ) m, members[i]? = some m → Tidy active (parent.offset + m.offset.toNat)
      (parent.offset + m.offset.toNat + width i)
      (traverseMember T traverse parent t (decide (i + 1 = members.length)) m))
    (hapart : ∀ (i j : ℕ) m m', i < j → members[i]? = some m → members[j]? = some m' →
      m.offset.toNat + width i ≤ m'.offset.toNat ∨ m'.offset.toNat + width j ≤ m.offset.toNat)
    {vs : List Visit} (hvs : (traverseMembers T traverse parent t members).visits active = some vs) :
    PointersApart vs := by
  induction members generalizing width vs with
  | nil =>
    cases hvs
    exact List.Pairwise.nil
  | cons m members ih =>
    obtain ⟨ws, ws', hw, hw', rfl⟩ := Script.visits_andThen hvs
    have htail : ∀ (i : ℕ) m', members[i]? = some m' → Tidy active
        (parent.offset + m'.offset.toNat) (parent.offset + m'.offset.toNat + width (i + 1))
        (traverseMember T traverse parent t (decide (i + 1 = members.length)) m') :=
      fun i m' hi => by simpa using h (i + 1) m' hi
    have hfirst : decide (0 + 1 = (m :: members).length) = members.isEmpty := by
      cases members <;> simp
    have h0 := h 0 m rfl
    rw [hfirst] at h0
    obtain ⟨hin, hapart0⟩ := h0 ws hw
    refine pointersApart_append hapart0 (ih htail (fun i j m' m'' hij hi hj =>
      hapart (i + 1) (j + 1) m' m'' (by omega) hi hj) hw') fun v hv w hw => ?_
    obtain ⟨i, m', us, hi, hus, hmem⟩ := mem_traverseMembers hw' hw
    refine ⟨_, _, _, _, hin v hv, (htail i m' hi us hus).1 w hmem, ?_⟩
    have := hapart 0 (i + 1) m m' (Nat.succ_pos i) rfl hi
    omega

variable (parent) in
/-- What a member of a type in the table takes, when its elements are as the table has them. -/
theorem tidy_fixedMember {i : ℕ} (hT : SoundLayout T) (hu : UnionsSingle T) (ht : t ∈ T)
    (hi : t.members[i]? = some m)
    (hsized : sizedMember t parent.disambiguator (decide (i + 1 = t.members.length)) m = m)
    (hnested : ∀ offset type v, v ∈ T → v.dynamicLength = false → v.isUnion = false →
      Tidy active offset (offset + v.size.toNat) (traverse ⟨offset, type, 0⟩ v)) :
    Tidy active (parent.offset + m.offset.toNat) (parent.offset + m.offset.toNat + extent T m)
      (traverseMember T traverse parent t (decide (i + 1 = t.members.length)) m) := by
  have hm := mem_of_getElem? hi
  rcases hv : T.desc m.type with _ | v
  · rw [traverseMember, hv]
    exact tidy_fault _ _
  have hmem := TypeTable.mem_of_desc hv
  by_cases hunion : v.isUnion = true ∧ m.isPointer = false
  · obtain ⟨hunion, hp⟩ := hunion
    have hone := (hu.fixed ht hi hp hv hunion).1
    have hwidth : extent T m = v.size.toNat := by simp [extent, hone, stride, hp, hv]
    rw [hwidth]
    refine tidy_union _ _ _ _ hu ht hi hv hp hunion fun k alternative w _ ha hw => ?_
    have ha := mem_of_getElem? ha
    have hvfixed := hT.held t ht m hm hp v hv
    have hone' := (hu.alternative v hmem hunion alternative ha).1
    refine ⟨?_, fun hpa _ offset => ?_⟩
    · have := hT.inside v hmem hvfixed alternative ha
      simp only [extent, hone', stride, hw, UInt8.toNat_one, Nat.one_mul] at this
      exact Nat.le_trans (Nat.le_add_left _ _) this
    · exact hnested _ _ w (TypeTable.mem_of_desc hw) (hT.held v hmem alternative ha hpa w hw)
        (hT.alternatives v hmem hunion alternative ha hpa w hw)
  · have hnu : (v.isUnion && !m.isPointer) = false := by
      cases hvu : v.isUnion <;> cases hp : m.isPointer <;> simp [hvu, hp] at hunion ⊢
    have := tidy_member active parent t (decide (i + 1 = t.members.length)) hv hnu (fun hp _ offset =>
        hnested offset m.type v hmem (hT.held t ht m hm hp v hv) (by simpa [hp] using hnu))
    rwa [hsized] at this

end

/-! ## Objects of a fixed length -/

/-- The visits of a node of a fixed length lie within its size. -/
theorem tidy_objectTreeTraverseImpl (hT : SoundLayout T) (hu : UnionsSingle T) (nesting : ℕ) :
    ∀ (n : Node) (t : TypeDescriptor), t ∈ T → t.dynamicLength = false → t.isUnion = false →
      Tidy active n.offset (n.offset + t.size.toNat) (objectTreeTraverseImpl T nesting n t) := by
  induction nesting with
  | zero => exact fun _ _ _ _ _ => tidy_fault _ _
  | succ nesting ih =>
    intro n t ht hfixed hnu vs hvs
    have hmember : ∀ (i : ℕ) m, t.members[i]? = some m → Tidy active (n.offset + m.offset.toNat)
        (n.offset + m.offset.toNat + (t.members[i]?).elim 0 (extent T))
        (traverseMember T (objectTreeTraverseImpl T nesting) n t
          (decide (i + 1 = t.members.length)) m) := by
      intro i m hi
      rw [hi]
      refine tidy_fixedMember _ hT hu ht hi (by simp [sizedMember, hfixed]) ?_
      exact fun offset type v => ih ⟨offset, type, 0⟩ v
    refine ⟨fun v hv => ?_, pointersApart_traverseMembers hmember (fun i j m m' hij hi hj => ?_) hvs⟩
    · obtain ⟨i, m, ws, hi, hws, hv⟩ := mem_traverseMembers hvs hv
      have hw := (hmember i m hi ws hws).1 v hv
      have := hT.inside t ht hfixed m (mem_of_getElem? hi)
      rw [hi] at hw
      exact hw.mono (Nat.le_add_right _ _) (by simpa [Nat.add_assoc] using this)
    · rw [hi, hj]
      obtain ⟨hilt, rfl⟩ := List.getElem?_eq_some_iff.mp hi
      obtain ⟨hjlt, rfl⟩ := List.getElem?_eq_some_iff.mp hj
      exact pairwise_iff_getElem.mp (hT.apart t ht hnu) i j hilt hjlt hij

/-! ## Objects of a dynamic length -/

section

variable {traverse : Node → TypeDescriptor → Traversal} {parent : Node} {t u : TypeDescriptor}
  {m : MemberDescriptor} {isFinal : Bool} {vs : List Visit}

/-- All visits of a pointer member are for pointers. -/
theorem isPointer_of_member (hu : T.desc m.type = some u) (hp : m.isPointer = true)
    (h : (traverseMember T traverse parent t isFinal m).visits active = some vs) :
    ∀ v ∈ vs, v.descriptor.isPointer = true := by
  have hloop : ∀ {size gas element offset : ℕ} {desc : MemberDescriptor} {vs : List Visit},
      desc.isPointer = true →
      (traverseElements T traverse parent true u.isUnion size gas element desc u offset).visits
        active = some vs → ∀ v ∈ vs, v.descriptor.isPointer = true := by
    intro size gas
    induction gas with
    | zero =>
      intro _ _ _ _ _ h
      cases h
    | succ gas ih =>
      intro element offset desc vs hd h
      unfold traverseElements at h
      simp only [Bool.not_true, Bool.and_false, Bool.false_eq_true, if_false] at h
      split at h
      · obtain ⟨us, hus, rfl⟩ := map_eq_some_iff.mp h
        obtain ⟨ws, ws', hw, hw', rfl⟩ := Script.visits_andThen hus
        rw [if_neg (by simp [hd])] at hw
        cases hw
        exact forall_mem_cons.mpr ⟨hd, ih hd hw'⟩
      · cases h
        simp
  rw [traverseMember_eq hu] at h
  have hpointer := (sizedMember_isPointer t parent.disambiguator isFinal m).trans hp
  rcases mergeArray_cases (sizedMember t parent.disambiguator isFinal m) u with
    hm | ⟨⟨hnot, _⟩, _⟩
  · simp only [hm, hp] at h
    exact hloop hpointer h
  · rw [hpointer] at hnot
    cases hnot

/-- What the final member of an object takes: `width` bytes behind its offset, of which `obj_size`
counts those that are not pointers. -/
structure FinalFits (T : TypeTable) (active : Query → Option ℕ) (traversal : Traversal)
    (final : MemberDescriptor) (width size : ℕ) : Prop where
  offset_le : final.offset.toNat ≤ size
  tidy : Tidy active final.offset.toNat (final.offset.toNat + width) traversal
  fits : ∀ vs, traversal.visits active = some vs → ∀ v ∈ vs, v.descriptor.isPointer = false →
    v.offset + v.extent ≤ size

variable {type : MarshalType} {d : UInt8} {final : MemberDescriptor} {front : List MemberDescriptor}

section

variable (hT : SoundLayout T) (hun : UnionsSingle T) (ht : T.desc type = some t)
  (hdyn : t.dynamicLength = true) (hmembers : t.members = front ++ [final])
  (hnested : ∀ offset type v, v ∈ T → v.dynamicLength = false → v.isUnion = false →
    Tidy active offset (offset + v.size.toNat) (traverse ⟨offset, type, 0⟩ v))
  (h : (traverseMember T traverse ⟨0, type, d⟩ t true final).visits active = some vs)
include hT hun ht hdyn hmembers hnested h

/-- The elements of a dynamic array. -/
theorem finalFits_array (harray : t.dynamicType = .array) :
    ∃ width size, objSize T type d = some size ∧
      FinalFits T active (traverseMember T traverse ⟨0, type, d⟩ t true final) final width size := by
  rcases hu : T.desc final.type with _ | u
  · simp [traverseMember, hu, Script.visits] at h
  have hi : t.members[front.length]? = some final := by simp [hmembers]
  have hlast : front.length + 1 = t.members.length := by simp [hmembers]
  have hmem := TypeTable.mem_of_desc ht
  have hm := mem_of_getElem? hi
  have hcount : (sizedMember t d true final).arrayElements = d := by
    simp [sizedMember, hdyn, harray]
  have hnu : (u.isUnion && !final.isPointer) = false := by
    by_contra hunion
    have hunion : u.isUnion = true ∧ final.isPointer = false := by simpa using hunion
    have := hun.member t hmem _ final u hi hunion.2 hu hunion.1 0
    rw [elements, if_pos ⟨hdyn, harray, hlast⟩] at this
    cases this
  have htidy := tidy_member active ⟨0, type, d⟩ t true
    hu hnu fun hp _ offset => hnested offset final.type u (TypeTable.mem_of_desc hu)
      (hT.held t hmem final hm hp u hu) (by simpa [hp] using hnu)
  rw [hcount, Nat.zero_add] at htidy
  have hsize : objSize T type d = some (final.offset.toNat + d.toNat * u.size.toNat) := by
    simp [objSize, ht, hdyn, harray, TypeDescriptor.dynamicMember, hmembers, hu]
  refine ⟨_, _, hsize, Nat.le_add_right _ _, htidy, fun ws hws v hv hp => ?_⟩
  cases hpointer : final.isPointer
  · have hw := (htidy ws hws).1 v hv
    have hstride : stride T final = u.size.toNat := by simp [stride, hpointer, hu]
    rw [hstride] at hw
    exact hw.2
  · rw [isPointer_of_member hu hpointer hws v hv] at hp
    cases hp

/-- The active alternative of a tagged union. -/
theorem finalFits_union (hunion : t.dynamicType = .taggedUnion)
    (hd : ∀ k, active ⟨⟨0, type, d⟩, final, 0⟩ = some k → k = d.toNat) :
    ∃ width size, objSize T type d = some size ∧
      FinalFits T active (traverseMember T traverse ⟨0, type, d⟩ t true final) final width size := by
  have hmem := TypeTable.mem_of_desc ht
  have hi : t.members[front.length]? = some final := by simp [hmembers]
  have hlast : decide (front.length + 1 = t.members.length) = true := by simp [hmembers]
  have hfinal : t.dynamicMember = some final := by simp [TypeDescriptor.dynamicMember, hmembers]
  have htagged := hT.tagged t hmem hdyn hunion final hfinal
  have htagged' := htagged
  unfold TypeTable.taggedMember at htagged'
  rcases hu : T.desc final.type with _ | u
  · simp [hu] at htagged'
  simp only [hu, any_some, Bool.and_eq_true, Bool.not_eq_true', decide_eq_true_eq]
    at htagged'
  obtain ⟨⟨huu, hp⟩, hone⟩ := htagged'
  have hmemu := TypeTable.mem_of_desc hu
  have hvisits := visits_union traverse ⟨0, type, d⟩ active
    hun hmem hi hu hp huu
  have htidy := fun width => tidy_union active traverse ⟨0, type, d⟩ width hun
    hmem hi hu hp huu
  rw [hlast] at hvisits htidy
  rw [hvisits] at h
  obtain ⟨k, hk, h⟩ := bind_eq_some_iff.mp h
  obtain ⟨alternative, ha, h⟩ := bind_eq_some_iff.mp h
  obtain ⟨v, hv, _⟩ := bind_eq_some_iff.mp h
  have hkd := hd k hk
  have hma := mem_of_getElem? ha
  have hsize : objSize T type d = some (final.offset.toNat + v.size.toNat) := by
    rw [hkd] at ha
    simp [objSize, ht, hdyn, hunion, hfinal, hu, htagged, ha, hv]
  have htidy := htidy (if alternative.isPointer then pointerSize else v.size.toNat) (by
    intro k' alternative' v' hk' ha' hv'
    rw [hk] at hk'
    cases hk'
    rw [ha] at ha'
    cases ha'
    rw [hv] at hv'
    cases hv'
    exact ⟨Nat.le_refl _, fun hpa _ offset => hnested offset _ v (TypeTable.mem_of_desc hv)
      (hT.held u hmemu alternative hma hpa v hv) (hT.alternatives u hmemu huu alternative hma hpa v hv)⟩)
  rw [Nat.zero_add] at htidy
  refine ⟨_, _, hsize, Nat.le_add_right _ _, htidy, fun ws hws w hw hpw => ?_⟩
  have hwithin := ((htidy ws hws).1 w hw).2
  cases hpa : alternative.isPointer
  · simpa [hpa] using hwithin
  · rw [hvisits] at hws
    simp only [hk, ha, hv, bind_some, visitNested, hpa, Bool.not_true, Bool.false_and,
      Bool.false_eq_true, if_false, Script.visits, map_some, some.injEq] at hws
    subst hws
    rw [mem_singleton.mp hw] at hpw
    rw [hpa] at hpw
    cases hpw

end

end

/-! ## All objects -/

variable {mem : Memory} {object : Mob} {a : Addr} {vs : List Visit} {t : TypeDescriptor}

/-- The disambiguator of an object with a tagged union is its active alternative. -/
theorem eq_disambiguator_of_active {desc : MemberDescriptor} {parent : Option Mob} {k : ℕ}
    {final : MemberDescriptor} (ht : T.desc object.type = some t) (hdyn : t.dynamicLength = true)
    (hunion : t.dynamicType = .taggedUnion) (hfinal : t.dynamicMember = some final)
    (ha : object.address = some a) (htype : desc.type = object.type)
    (hd : objDisambiguator T mem object.address desc parent = some object.disambiguator)
    (hk : taggedUnionMember T mem a ⟨⟨0, object.type, object.disambiguator⟩, final, 0⟩ = some k) :
    k = object.disambiguator.toNat := by
  simp only [taggedUnionMember, ht, bind_eq_bind, bind_some,
    bind_eq_some_iff] at hk
  obtain ⟨cb, hcb, hk⟩ := hk
  have hshift : a.shift 0 = a := rfl
  rw [hshift] at hk
  simp only [objDisambiguator, htype, ht, hdyn, hunion, disambiguate, hcb, hfinal, ha,
    bind_eq_bind, bind_some, if_true] at hd
  split at hd
  · simp only [hk, bind_some] at hd
    split at hd
    · rename_i hle
      rw [← some.inj hd, UInt8.toNat_ofNat']
      exact (Nat.mod_eq_of_lt (Nat.lt_succ_of_le hle)).symm
    · cases hd
  · cases hd

/-- **`obj_size` has room for the leaf values**, and for the pointers of objects of a fixed length.
The pointer members lie apart. -/
theorem fits_of_objectVisits (hT : SoundLayout T) (hun : UnionsSingle T)
    (ht : T.desc object.type = some t) (hnu : t.isUnion = false) (ha : object.address = some a)
    (hvs : objectVisits T mem object = some vs) {desc : MemberDescriptor} {parent : Option Mob}
    (htype : desc.type = object.type)
    (hd : objDisambiguator T mem object.address desc parent = some object.disambiguator) :
    ∃ size, objSize T object.type object.disambiguator = some size ∧ PointersApart vs ∧
      ∀ v ∈ vs, v.descriptor.isPointer = false ∨ t.dynamicLength = false →
        v.offset + v.extent ≤ size := by
  have hmem := TypeTable.mem_of_desc ht
  unfold objectVisits at hvs
  rw [ha, bind_some] at hvs
  unfold traversal at hvs
  simp only [ht] at hvs
  by_cases hdyn : t.dynamicLength = true
  case neg =>
    have hfixed : t.dynamicLength = false := by simpa using hdyn
    have hsize : objSize T object.type object.disambiguator = some t.size.toNat := by
      simp [objSize, ht, hfixed]
    refine ⟨_, hsize, ?_⟩
    by_cases hmembers : t.members.isEmpty = true
    · rw [if_pos hmembers] at hvs
      cases hvs
      refine ⟨Pairwise.sublist filter_sublist (pairwise_singleton _ _), ?_⟩
      intro v hv _
      rw [mem_singleton.mp hv]
      simp [Visit.extent, MemberDescriptor.member]
    · rw [if_neg hmembers] at hvs
      obtain ⟨hin, hapart⟩ := tidy_objectTreeTraverseImpl hT hun nestingMax _ t hmem hfixed hnu _ hvs
      refine ⟨hapart, fun v hv _ => ?_⟩
      simpa using (hin v hv).2
  obtain ⟨front, final, hmembers, hbehind⟩ := hT.behind t hmem hdyn
  have hfinal : t.dynamicMember = some final := by simp [TypeDescriptor.dynamicMember, hmembers]
  have hlast : t.members[front.length]? = some final := by simp [hmembers]
  rw [if_neg (by simp [hmembers])] at hvs
  have hnested : ∀ offset type v, v ∈ T → v.dynamicLength = false → v.isUnion = false →
      Tidy (taggedUnionMember T mem a) offset (offset + v.size.toNat)
        (objectTreeTraverseImpl T 254 ⟨offset, type, 0⟩ v) :=
    fun offset type v => tidy_objectTreeTraverseImpl hT hun 254 ⟨offset, type, 0⟩ v
  obtain ⟨ws, hws, _⟩ := visits_traverseMembers hvs hlast
  have hdecide : decide (front.length + 1 = t.members.length) = true := by simp [hmembers]
  rw [hdecide] at hws
  obtain ⟨width, size, hsize, hfits⟩ : ∃ width size,
      objSize T object.type object.disambiguator = some size ∧
      FinalFits T (taggedUnionMember T mem a) (traverseMember T (objectTreeTraverseImpl T 254)
        ⟨0, object.type, object.disambiguator⟩ t true final) final width size := by
    rcases hkind : t.dynamicType with _ | _
    · refine finalFits_union hT hun ht hdyn hmembers hnested hws hkind fun k hk => ?_
      exact eq_disambiguator_of_active ht hdyn hkind hfinal ha htype hd hk
    · exact finalFits_array hT hun ht hdyn hmembers hnested hws hkind
  -- the members in front are as the table has them, the final one takes `width`
  let widths (i : ℕ) : ℕ :=
    if i < front.length then (t.members[i]?).elim 0 (extent T) else width
  have hcases : ∀ (i : ℕ) m, t.members[i]? = some m →
      (i < front.length ∧ m ∈ front ∧ widths i = extent T m) ∨
        i = front.length ∧ m = final ∧ widths i = width := by
    intro i m hi
    by_cases hlt : i < front.length
    · left
      refine ⟨hlt, ?_, by simp [widths, hlt, hi]⟩
      rw [hmembers, getElem?_append_left hlt] at hi
      exact mem_of_getElem? hi
    · right
      have := (List.getElem?_eq_some_iff.mp hi).1
      simp only [hmembers, length_append, length_singleton] at this
      obtain rfl : i = front.length := by omega
      rw [hlast] at hi
      exact ⟨rfl, (some.inj hi).symm, by simp [widths]⟩
  have hmember : ∀ (i : ℕ) m, t.members[i]? = some m → Tidy (taggedUnionMember T mem a)
      (0 + m.offset.toNat) (0 + m.offset.toNat + widths i)
      (traverseMember T (objectTreeTraverseImpl T 254) ⟨0, object.type, object.disambiguator⟩ t
        (decide (i + 1 = t.members.length)) m) := by
    intro i m hi
    rcases hcases i m hi with ⟨hlt, _, hw⟩ | ⟨rfl, rfl, hw⟩ <;> rw [hw]
    · have hnot : decide (i + 1 = t.members.length) = false := by
        simp [hmembers]
        omega
      exact tidy_fixedMember ⟨0, object.type, object.disambiguator⟩ hT hun hmem hi
        (by simp [sizedMember, hnot]) hnested
    · rw [hdecide, Nat.zero_add]
      exact hfits.tidy
  refine ⟨size, hsize, pointersApart_traverseMembers hmember ?_ hvs, ?_⟩
  · intro i j m m' hij hi hj
    rcases hcases i m hi with ⟨_, hfront, hw⟩ | ⟨rfl, rfl, _⟩
    · rcases hcases j m' hj with ⟨_, _, hw'⟩ | ⟨_, rfl, _⟩
      · obtain ⟨hilt, rfl⟩ := List.getElem?_eq_some_iff.mp hi
        obtain ⟨hjlt, rfl⟩ := List.getElem?_eq_some_iff.mp hj
        rw [hw, hw']
        exact pairwise_iff_getElem.mp (hT.apart t hmem hnu) i j hilt hjlt hij
      · rw [hw]
        exact .inl (hbehind m hfront)
    · have := (List.getElem?_eq_some_iff.mp hj).1
      simp only [hmembers, length_append, length_singleton] at this
      omega
  · intro v hv hleaf
    have hleaf : v.descriptor.isPointer = false := hleaf.resolve_right (by simp [hdyn])
    obtain ⟨i, m, us, hi, hus, hv⟩ := mem_traverseMembers hvs hv
    rcases hcases i m hi with ⟨_, hfront, hw⟩ | ⟨rfl, rfl, _⟩
    · have hwithin := ((hmember i m hi us hus).1 v hv).2
      rw [hw, Nat.zero_add] at hwithin
      exact Nat.le_trans hwithin (Nat.le_trans (hbehind m hfront) hfits.offset_le)
    · rw [hdecide] at hus
      exact hfits.fits us hus v hv hleaf

end Mh40.Marshal
