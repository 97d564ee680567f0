import Mh40.Marshal.Marshaller
import Mh40.Marshal.Sets

/-!
# Registering objects

The breadth-first traversal of `marshal`: each pointer member of the objects in the set pushes the
object that it refers to, and the iteration goes on over the objects pushed.

* `PointsTo`: one object has a pointer member that refers to the other.
* `Registered`: what the set is closed under at the end, and where its objects come from.
* `registerPointerMembers_cases`, `iteration_registers`: the traversal ends so, or a member cannot
  be registered.
-/

namespace Mh40.Marshal

open Lib List Option

/-! ## Pointer members -/

/-- A pointer member of an object, and the block that the copy of the object is to have. -/
structure PointerSlot where
  object : Addr
  block : ℕ
  visit : Visit

/-- The address of the pointer member in the object. -/
def PointerSlot.source (s : PointerSlot) : Addr := s.object.shift s.visit.offset

/-- The address of the pointer member in the copy. -/
def PointerSlot.cell (s : PointerSlot) : Addr := (⟨s.block, 0⟩ : Addr).shift s.visit.offset

/-- The entry of the pointer member in the pointer member set of the marshaller. -/
def PointerSlot.original (s : PointerSlot) : Mob := ⟨some s.source, s.visit.descriptor.type, 0⟩

/-- The entry of its copy in the pointer member set of the unmarshaller. -/
def PointerSlot.copy (s : PointerSlot) : Mob := ⟨some s.cell, s.visit.descriptor.type, 0⟩

/-- The object that the pointer member refers to, NULL included. -/
def PointerSlot.referent (T : TypeTable) (mem : Memory) (s : PointerSlot) : Option Mob := do
  let referred ← mem.readPointer s.source
  let disambiguator ← objDisambiguator T mem referred s.visit.descriptor
    (some (s.visit.parent.mob s.object))
  some ⟨referred, s.visit.descriptor.type, disambiguator⟩

/-- The pointer members of one object. -/
def objectSlots (T : TypeTable) (mem : Memory) (block : ℕ) (object : Mob) : List PointerSlot :=
  match object.address, objectVisits T mem object with
  | some a, some vs => (vs.filter (·.descriptor.isPointer)).map (⟨a, block, ·⟩)
  | _, _ => []

/-- The pointer members of objects that are copied into blocks in order. -/
def pointerSlots (T : TypeTable) (mem : Memory) : ℕ → Mobs → List PointerSlot
  | _, [] => []
  | block, o :: os => objectSlots T mem block o ++ pointerSlots T mem (block + 1) os

/-- A pointer member of `o` refers to the object `r`. -/
def PointsTo (T : TypeTable) (mem : Memory) (o r : Mob) : Prop :=
  r.address.isSome ∧ ∃ block, ∃ s ∈ objectSlots T mem block o, s.referent T mem = some r

variable {T : TypeTable} {mem : Memory} {object : Mob} {a : Addr} {vs : List Visit}

theorem objectSlots_eq (block : ℕ) (ha : object.address = some a)
    (hvs : objectVisits T mem object = some vs) :
    objectSlots T mem block object = (vs.filter (·.descriptor.isPointer)).map (⟨a, block, ·⟩) := by
  simp only [objectSlots, ha, hvs]

theorem pointerSlots_append (block : ℕ) (os os' : Mobs) :
    pointerSlots T mem block (os ++ os') =
      pointerSlots T mem block os ++ pointerSlots T mem (block + os.length) os' := by
  induction os generalizing block with
  | nil => rfl
  | cons o os ih =>
    simp only [cons_append, pointerSlots, ih, append_assoc, length_cons]
    rw [Nat.add_assoc, Nat.add_comm 1]

/-! ## One pointer member -/

/-- `base` is `base₀` with the objects that the pointer members `slots` refer to. The objects from
`start` on satisfy `P`. -/
structure Registering (T : TypeTable) (mem : Memory) (P : Mob → Prop) (start : ℕ)
    (base₀ base : MarshalBase) (slots : List PointerSlot) : Prop where
  objects : base₀.objectSet <+: base.objectSet
  shared : base.sharedMemberSet = base₀.sharedMemberSet
  pointers : base.pointerMemberSet = base₀.pointerMemberSet ++ slots.map (·.original)
  null : base.objectSet[mobIndexNull]? = some nullObject
  distinct : Distinct base.objectSet
  start_le : start ≤ base.objectSet.length
  bounded : base.objectSet.length ≤ mobsMaxObjects
  found : ∀ o ∈ base.objectSet.drop start, P o
  referred : ∀ s ∈ slots, ∃ r i, s.referent T mem = some r ∧
    mobsHasObject base.objectSet r = some i

/-- Why a pointer member cannot be registered. -/
inductive Unregistrable (T : TypeTable) (mem : Memory) (base : MarshalBase) (s : PointerSlot) : Prop
  | referent : s.referent T mem = none → Unregistrable T mem base s
  | objects {r : Mob} : s.referent T mem = some r → mobsHasObject base.objectSet r = none →
      mobsMaxObjects ≤ base.objectSet.length → Unregistrable T mem base s
  | pointers : mobsMaxObjects ≤ base.pointerMemberSet.length → Unregistrable T mem base s

variable {P : Mob → Prop} {start : ℕ} {base₀ base : MarshalBase} {slots : List PointerSlot}

/-- `register_pointer` on a pointer member. -/
def registerSlot (T : TypeTable) (mem : Memory) (s : PointerSlot) (base : MarshalBase) :
    Option (Bool × MarshalBase) :=
  registerPointer T mem s.source s.visit.descriptor (s.visit.parent.mob s.object) base

theorem registerSlot_eq (s : PointerSlot) (base : MarshalBase) :
    registerSlot T mem s base = (s.referent T mem).bind fun r =>
      (mobsPush base.objectSet r).bind fun p =>
        (mobsPushUnique base.pointerMemberSet s.original).bind fun pointerMemberSet =>
          some (true, { base with objectSet := p.2, pointerMemberSet }) := by
  simp [registerSlot, registerPointer, PointerSlot.referent, PointerSlot.original,
    bind_assoc]

theorem Registering.null_found (h : Registering T mem P start base₀ base slots)
    (hnone : mobsHasObject base.objectSet object = none) : object.address.isSome := by
  by_contra hnull
  have haddr : object.address = none := by simpa using hnull
  refine mobsHasObject_eq_none_iff.mp hnone nullObject (mem_of_getElem? h.null) ?_
  exact ⟨haddr, .inr haddr⟩

/-- **One pointer member is registered, or it cannot be.** -/
theorem Registering.step (h : Registering T mem P start base₀ base slots) (s : PointerSlot)
    (hP : ∀ r, r.address.isSome → s.referent T mem = some r → P r) :
    (∃ base', registerSlot T mem s base = some (true, base') ∧
      base.objectSet <+: base'.objectSet ∧
      Registering T mem P start base₀ base' (slots ++ [s])) ∨
      registerSlot T mem s base = none ∧ Unregistrable T mem base s := by
  rw [registerSlot_eq]
  rcases hr : s.referent T mem with _ | r
  · exact .inr ⟨rfl, .referent hr⟩
  by_cases hfull : base.pointerMemberSet.length < mobsMaxObjects
  case neg =>
    right
    refine ⟨?_, .pointers (Nat.not_lt.mp hfull)⟩
    simp [mobsPushUnique, hfull]
  have hunique : mobsPushUnique base.pointerMemberSet s.original =
      some (base.pointerMemberSet ++ [s.original]) := mobsPushUnique_eq_some_iff.mpr ⟨hfull, rfl⟩
  have hpointers : base.pointerMemberSet ++ [s.original] =
      base₀.pointerMemberSet ++ (slots ++ [s]).map (·.original) := by
    simp [h.pointers]
  rcases mobsPush_cases base.objectSet r with ⟨i, hi, hpush⟩ | ⟨hnone, ⟨hlt, hpush⟩ | ⟨hge, hpush⟩⟩
  · left
    refine ⟨{ base with pointerMemberSet := base.pointerMemberSet ++ [s.original] },
      by simp only [hpush, hunique, bind_some], prefix_refl _, { h with
        pointers := hpointers, referred := ?_ }⟩
    intro s' hs'
    rcases mem_append.mp hs' with hs' | hs'
    · exact h.referred s' hs'
    · rw [mem_singleton.mp hs']
      exact ⟨r, i, hr, hi⟩
  · left
    refine ⟨{ base with
      objectSet := base.objectSet ++ [r]
      pointerMemberSet := base.pointerMemberSet ++ [s.original] },
      by simp only [hpush, hunique, bind_some], prefix_append _ _, ?_⟩
    exact {
      objects := h.objects.trans (prefix_append _ _)
      shared := h.shared
      pointers := hpointers
      null := by
        obtain ⟨h0, _⟩ := List.getElem?_eq_some_iff.mp h.null
        rw [getElem?_append_left h0, h.null]
      distinct := h.distinct.snoc hnone
      start_le := by simpa using Nat.le_succ_of_le h.start_le
      bounded := by
        rw [length_append]
        exact hlt
      found := by
        intro o ho
        rw [drop_append_of_le_length h.start_le] at ho
        rcases mem_append.mp ho with ho | ho
        · exact h.found o ho
        · rw [mem_singleton.mp ho]
          exact hP r (h.null_found hnone) hr
      referred := by
        intro s' hs'
        rcases mem_append.mp hs' with hs' | hs'
        · obtain ⟨r', i, hr', hi⟩ := h.referred s' hs'
          exact ⟨r', i, hr', mobsHasObject_of_prefix hi (prefix_append _ _)⟩
        · rw [mem_singleton.mp hs']
          refine ⟨r, base.objectSet.length, hr, ?_⟩
          exact (h.distinct.snoc hnone).index getElem?_concat_length r.matches_refl }
  · right
    exact ⟨by simp only [hpush, bind_some, bind_none], .objects hr hnone hge⟩

/-! ## All pointer members -/

/-- `P` is closed under what the pointer members refer to. -/
def ClosedUnderPointers (T : TypeTable) (mem : Memory) (P : Mob → Prop) : Prop :=
  ∀ o r, P o → PointsTo T mem o r → P r

/-- Why the pointer members of `object` cannot all be registered behind `slots`. -/
inductive Unregistrables (T : TypeTable) (mem : Memory) (P : Mob → Prop) (start : ℕ)
    (base₀ : MarshalBase) (slots : List PointerSlot) (block : ℕ) (object : Mob) : Prop
  | visits : (∀ vs, objectVisits T mem object ≠ some vs) →
      Unregistrables T mem P start base₀ slots block object
  | member {base : MarshalBase} {past rest : List PointerSlot} {s : PointerSlot} :
      past ++ s :: rest = objectSlots T mem block object →
      Registering T mem P start base₀ base (slots ++ past) → Unregistrable T mem base s →
      Unregistrables T mem P start base₀ slots block object

/-- **The pointer members of one object are registered, or one of them cannot be.** -/
theorem registerPointerMembers_cases (hP : ClosedUnderPointers T mem P)
    (h : Registering T mem P start base₀ base slots) (ho : P object) (index block : ℕ) :
    (∃ a vs base', object.address = some a ∧ objectVisits T mem object = some vs ∧
      registerPointerMembers T mem index object base = some (true, base') ∧
      base.objectSet <+: base'.objectSet ∧
      Registering T mem P start base₀ base' (slots ++ objectSlots T mem block object)) ∨
      registerPointerMembers T mem index object base = none ∧
        Unregistrables T mem P start base₀ slots block object := by
  unfold registerPointerMembers
  rcases hvs : objectVisits T mem object with _ | vs
  · right
    refine ⟨?_, .visits (by simp [hvs])⟩
    rcases ht : objectTreeTraverse T (fun _ => mem) ⟨none, some (registerPointer T mem), none⟩
      object base with _ | ⟨_ | _, base'⟩
    · rfl
    · unfold objectTreeTraverse at ht
      rcases ha : object.address with _ | a <;> rw [ha] at ht
      · cases ht
      · refine absurd ht (Script.exec_ne_false (fun v s s' hv => ?_) _ _ _)
        unfold traverseCallback registerPointer at hv
        cases hp : v.descriptor.isPointer <;> simp [hp, bind_eq_some_iff] at hv
    · obtain ⟨_, vs, _, hvs', _⟩ := objectVisits_of_traverse ht
      rw [hvs] at hvs'
      cases hvs'
  · obtain ⟨a, ha, _⟩ := bind_eq_some_iff.mp hvs
    have hslots := objectSlots_eq block ha hvs
    let slotsOf (past : List Visit) : List PointerSlot :=
      (past.filter (·.descriptor.isPointer)).map (⟨a, block, ·⟩)
    rw [objectTreeTraverse_eq ha hvs]
    rcases forEach_cases (f := traverseCallback a ⟨none, some (registerPointer T mem), none⟩)
      (fun past base' => base.objectSet <+: base'.objectSet ∧
        Registering T mem P start base₀ base' (slots ++ slotsOf past))
      (fun past v => v.descriptor.isPointer ∧ ∃ base',
        Registering T mem P start base₀ base' (slots ++ slotsOf past) ∧
        Unregistrable T mem base' ⟨a, block, v⟩)
      (fun past v rest base' hall hbase => by
        by_cases hp : v.descriptor.isPointer = true
        · have hmem : (⟨a, block, v⟩ : PointerSlot) ∈ objectSlots T mem block object := by
            rw [hslots, ← hall]
            simp [hp]
          have hcall : traverseCallback a ⟨none, some (registerPointer T mem), none⟩ v base' =
              registerSlot T mem ⟨a, block, v⟩ base' := by
            simp [traverseCallback, hp, registerSlot, PointerSlot.source]
          have hpast : slotsOf (past ++ [v]) = slotsOf past ++ [⟨a, block, v⟩] := by
            simp [slotsOf, hp]
          rw [hcall, hpast, ← append_assoc]
          rcases hbase.2.step ⟨a, block, v⟩ (fun r hr href => hP object r ho
            ⟨hr, block, _, hmem, href⟩) with ⟨base'', hok, hset, hstep⟩ | ⟨hnone, hbad⟩
          · exact .inl ⟨base'', hok, hbase.1.trans hset, hstep⟩
          · exact .inr ⟨hnone, hp, base', hbase.2, hbad⟩
        · left
          refine ⟨base', by simp [traverseCallback, hp], ?_⟩
          have hpast : slotsOf (past ++ [v]) = slotsOf past := by simp [slotsOf, hp]
          rwa [hpast])
      (nil_append vs) ⟨prefix_refl _, by simpa [slotsOf] using h⟩ with
      ⟨base', hf, hset, hbase'⟩ | ⟨hnone, past, v, rest, hall, hp, base', hbase', hbad⟩
    · left
      refine ⟨a, vs, base', ha, rfl, hf, hset, ?_⟩
      rwa [hslots]
    · right
      have hsplit : slotsOf past ++ ⟨a, block, v⟩ :: slotsOf rest =
          objectSlots T mem block object := by
        rw [hslots, ← hall]
        simp [slotsOf, hp]
      exact ⟨hnone, .member hsplit hbase' hbad⟩

/-- `base` is `base₀` with all objects that its objects from `start` on refer to. -/
structure Registered (T : TypeTable) (mem : Memory) (P : Mob → Prop) (start block : ℕ)
    (base₀ base : MarshalBase) : Prop extends
    Registering T mem P start base₀ base
      (pointerSlots T mem block (base.objectSet.drop start)) where
  visited : ∀ o ∈ base.objectSet.drop start, ∃ a vs, o.address = some a ∧
    objectVisits T mem o = some vs

/-- The objects from `start` on and before the next index. -/
theorem segment_snoc {set set' : Mobs} {i : ℕ} (hset : set <+: set') (ho : set[i]? = some object)
    (hstart : start ≤ i) :
    (set'.take (i + 1)).drop start = (set.take i).drop start ++ [object] := by
  obtain ⟨more, rfl⟩ := hset
  obtain ⟨hi, rfl⟩ := List.getElem?_eq_some_iff.mp ho
  rw [take_append_of_le_length hi, take_succ_eq_append_getElem hi,
    drop_append_of_le_length (by rw [length_take]; omega)]

/-- **The iteration registers what its objects refer to, or some member cannot be registered.** -/
theorem iteration_registers (hP : ClosedUnderPointers T mem P)
    (h : Registering T mem P start base₀ base₀ []) (block : ℕ) :
    (∃ base, mobsIterate (·.objectSet) start (registerPointerMembers T mem) base₀ =
      some (true, base) ∧ Registered T mem P start block base₀ base) ∨
      mobsIterate (·.objectSet) start (registerPointerMembers T mem) base₀ = none ∧
        ∃ os o, (∀ o' ∈ os ++ [o], P o') ∧ Distinct (os ++ [o]) ∧ Unregistrables T mem P start base₀
          (pointerSlots T mem block os) (block + os.length) o := by
  let segment (i : ℕ) (base : MarshalBase) : Mobs := (base.objectSet.take i).drop start
  let Inv (i : ℕ) (base : MarshalBase) : Prop :=
    start ≤ i ∧ i ≤ base.objectSet.length ∧
      Registering T mem P start base₀ base (pointerSlots T mem block (segment i base)) ∧
      ∀ o ∈ segment i base, ∃ a vs, o.address = some a ∧ objectVisits T mem o = some vs
  have hstep : ∀ i o base, Inv i base → base.objectSet[i]? = some o →
      (∃ base', registerPointerMembers T mem i o base = some (true, base') ∧ Inv (i + 1) base') ∨
      registerPointerMembers T mem i o base = none ∧ P o ∧
        Unregistrables T mem P start base₀ (pointerSlots T mem block (segment i base))
          (block + (segment i base).length) o := by
    rintro i o base ⟨hstart, _, hbase, hvisited⟩ ho
    have hPo : P o := hbase.found o (mem_iff_getElem?.mpr ⟨i - start, by
      rw [getElem?_drop, Nat.add_sub_cancel' hstart, ho]⟩)
    rcases registerPointerMembers_cases hP hbase hPo i (block + (segment i base).length) with
      ⟨a, vs, base', ha, hvs, hcall, hprefix, hbase'⟩ | ⟨hnone, hbad⟩
    · left
      have hseg : segment (i + 1) base' = segment i base ++ [o] := segment_snoc hprefix ho hstart
      refine ⟨base', hcall, by omega, ?_, ?_, ?_⟩
      · have := hprefix.length_le
        have := (List.getElem?_eq_some_iff.mp ho).1
        omega
      · rw [hseg, pointerSlots_append]
        simpa [pointerSlots] using hbase'
      · intro o' ho'
        rw [hseg] at ho'
        rcases mem_append.mp ho' with ho' | ho'
        · exact hvisited o' ho'
        · rw [mem_singleton.mp ho']
          exact ⟨a, vs, ha, hvs⟩
    · exact .inr ⟨hnone, hPo, hbad⟩
  have hnil : (base₀.objectSet.take start).drop start = [] :=
    drop_eq_nil_of_le (by rw [length_take]; omega)
  rcases mobsIterateFrom_cases (·.objectSet) (registerPointerMembers T mem) Inv
    (fun i base hi => ⟨hi.2.1, hi.2.2.1.bounded⟩)
    (fun i o base hi ho => (hstep i o base hi ho).imp_right And.left)
    (mobsMaxObjects + 1) (by omega) ⟨Nat.le_refl start, h.start_le, by
      simpa [segment, hnil, pointerSlots] using h, by simp [segment, hnil]⟩ with
    ⟨base, hiter, _, _, hbase, hvisited⟩ | ⟨hnone, i, o, base, hi, ho, hcall⟩
  · left
    refine ⟨base, hiter, ⟨?_, ?_⟩⟩
    · simpa [segment] using hbase
    · simpa [segment] using hvisited
  · right
    rcases hstep i o base hi ho with ⟨base', hok, _⟩ | ⟨_, hPo, hbad⟩
    · rw [hcall] at hok
      cases hok
    · refine ⟨hnone, segment i base, o, ?_, ?_, hbad⟩
      · intro o' ho'
        rcases mem_append.mp ho' with ho' | ho'
        · exact hi.2.2.1.found o' (((take_sublist _ _).drop start).subset ho')
        · rwa [mem_singleton.mp ho']
      · rw [← segment_snoc (prefix_refl _) ho hi.1]
        exact hi.2.2.1.distinct.sublist ((drop_sublist _ _).trans (take_sublist _ _))

end Mh40.Marshal
