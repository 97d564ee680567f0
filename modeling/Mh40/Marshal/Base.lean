import Mh40.Lib.Script
import Mh40.Marshal.Types

/-!
# The base of the marshaller and of the unmarshaller

`marshal_base.c`: the disambiguator and the size of an object, `object_tree_traverse`, which calls
back for every member of an object without following its pointers, and the object sets.

* `traversal` is the order in which the members are visited, as a script: a visit for each call of
  `traverse_callback`, a question for each call of `tagged_union_member`. Addresses are relative
  to the object.
* The element loop runs over the mutable member and type descriptor, which
  `update_member_for_union` overwrites.
* The recursion is `ITERATIVE_TRAVERSE` undefined. Its depth is the nesting of types by value,
  less than the number of types in a table without a type that contains itself.
-/

namespace Mh40.Marshal

open Lib

/-! ## Disambiguator and size -/

/-- `UCHAR_MAX`. -/
abbrev ucharMax : ℕ := 255

/-- The final member of a dynamic length type. -/
def TypeDescriptor.dynamicMember (t : TypeDescriptor) : Option MemberDescriptor :=
  t.members.getLast?

/-- What `obj_disambiguator` calls: the callback of the object's own type on the object, else the
one of its parent's type on the parent. -/
def disambiguate (T : TypeTable) (mem : Memory) (own : Option MemberCallback)
    (check : MemberDescriptor → Bool) (callback : TypeDescriptor → Option MemberCallback)
    (obj : Option Addr) (objType : TypeDescriptor) (desc : MemberDescriptor)
    (parent : Option Mob) : Option ℕ :=
  match own with
  | some cb => do
    let dynamicMember ← objType.dynamicMember
    if check dynamicMember then cb mem obj dynamicMember 0 else none
  | none => do
    let parent ← parent
    let parentDynType ← T.desc parent.type
    let cb ← callback parentDynType
    cb mem parent.address desc 0

/-- The assertions on the final member of a type with a dynamic tagged union. -/
def TypeTable.taggedMember (T : TypeTable) (dynamicMember : MemberDescriptor) : Bool :=
  (T.desc dynamicMember.type).any (·.isUnion) && !dynamicMember.isPointer &&
    dynamicMember.arrayElements = 1

/-- `obj_disambiguator`. -/
def objDisambiguator (T : TypeTable) (mem : Memory) (obj : Option Addr) (desc : MemberDescriptor)
    (parent : Option Mob) : Option UInt8 := do
  let objType ← T.desc desc.type
  if objType.dynamicLength then
    let d ← match objType.dynamicType with
      | .taggedUnion =>
        disambiguate T mem objType.taggedUnionMember T.taggedMember (·.taggedUnionMember)
          obj objType desc parent
      | .array =>
        disambiguate T mem objType.arrayElements (fun _ => true) (·.arrayElements)
          obj objType desc parent
    if d ≤ ucharMax then some (UInt8.ofNat d) else none
  else some 0

/-- `obj_size`. The size of the dynamic member is that of its type, also when it is a pointer. -/
def objSize (T : TypeTable) (type : MarshalType) (disambiguator : UInt8) : Option ℕ := do
  let typeDesc ← T.desc type
  if typeDesc.dynamicLength then
    let dynamicMember ← typeDesc.dynamicMember
    let dynamicTypeDesc ← T.desc dynamicMember.type
    match typeDesc.dynamicType with
    | .taggedUnion =>
      if T.taggedMember dynamicMember then
        let taggedMember ← dynamicTypeDesc.members[disambiguator.toNat]?
        let taggedType ← T.desc taggedMember.type
        some (dynamicMember.offset.toNat + taggedType.size.toNat)
      else none
    | .array =>
      some (dynamicMember.offset.toNat + disambiguator.toNat * dynamicTypeDesc.size.toNat)
  else some typeDesc.size.toNat

/-! ## Traversal -/

/-- A `mob_t` in the tree of an object, with its address relative to the object. -/
structure Node where
  offset : ℕ
  type : MarshalType
  disambiguator : UInt8
  deriving Repr, DecidableEq

/-- The arguments of `traverse_callback`. -/
structure Visit where
  offset : ℕ
  descriptor : MemberDescriptor
  type : TypeDescriptor
  parent : Node

/-- A leaf member, with bytes of its own in the stream. -/
def Visit.isLeaf (v : Visit) : Bool := !v.descriptor.isPointer && v.type.members.isEmpty

/-- The arguments of `tagged_union_member`. -/
structure Query where
  parent : Node
  descriptor : MemberDescriptor
  element : ℕ

abbrev Traversal := Script Visit Query

/-- The loop over the elements of one member, with `update_member_for_union`. An array has at
most `ucharMax` elements, which bounds the iterations. -/
def traverseElements (T : TypeTable) (traverse : Node → TypeDescriptor → Traversal) (parent : Node)
    (memberIsPointer memberIsUnion : Bool) (memberSize : ℕ) :
    ℕ → ℕ → MemberDescriptor → TypeDescriptor → ℕ → Traversal
  | 0, _, _, _, _ => .fault
  | gas + 1, element, memberDescriptor, memberType, memberAddr =>
    let body (memberDescriptor : MemberDescriptor) (memberType : TypeDescriptor) : Traversal :=
      .visit ⟨memberAddr, memberDescriptor, memberType, parent⟩
        ((if !memberDescriptor.isPointer && !memberType.members.isEmpty then
            traverse ⟨memberAddr, memberDescriptor.type, 0⟩ memberType
          else .done).andThen
          (traverseElements T traverse parent memberIsPointer memberIsUnion memberSize gas
            (element + 1) memberDescriptor memberType
            (memberAddr + if memberIsPointer then pointerSize else memberSize)))
    if element < memberDescriptor.arrayElements.toNat then
      if memberIsUnion && !memberIsPointer then
        .ask ⟨parent, memberDescriptor, element⟩ fun index =>
          match memberType.members[index]? with
          | none => .fault
          | some alternative =>
            match T.desc alternative.type with
            | none => .fault
            | some alternativeType => body alternative alternativeType
      else body memberDescriptor memberType
    else .done

/-- An array of basic types as one blob, when its size fits the descriptor. -/
def mergeArray (memberDescriptor : MemberDescriptor) (memberType : TypeDescriptor) :
    MemberDescriptor × TypeDescriptor :=
  let totalSize := memberType.size.toNat * memberDescriptor.arrayElements.toNat
  if memberDescriptor.arrayElements > 1 && !memberDescriptor.isPointer && !memberType.isUnion &&
      memberType.members.isEmpty && totalSize ≤ ucharMax then
    ({ memberDescriptor with arrayElements := 1 }, { memberType with size := .ofNat totalSize })
  else (memberDescriptor, memberType)

/-- One member of a node. Only the final member of a dynamic array changes its elements. -/
def traverseMember (T : TypeTable) (traverse : Node → TypeDescriptor → Traversal) (parent : Node)
    (parentType : TypeDescriptor) (isFinal : Bool) (member : MemberDescriptor) : Traversal :=
  match T.desc member.type with
  | none => .fault
  | some memberType =>
    let memberDescriptor :=
      if parentType.dynamicLength && isFinal && parentType.dynamicType = .array then
        { member with arrayElements := parent.disambiguator }
      else member
    let merged := mergeArray memberDescriptor memberType
    traverseElements T traverse parent memberDescriptor.isPointer memberType.isUnion
      merged.2.size.toNat (ucharMax + 1) 0 merged.1 merged.2
      (parent.offset + merged.1.offset.toNat)

def traverseMembers (T : TypeTable) (traverse : Node → TypeDescriptor → Traversal) (parent : Node)
    (parentType : TypeDescriptor) : List MemberDescriptor → Traversal
  | [] => .done
  | member :: rest =>
    (traverseMember T traverse parent parentType rest.isEmpty member).andThen
      (traverseMembers T traverse parent parentType rest)

/-- `object_tree_traverse_impl`, to a nesting of types by value. -/
def objectTreeTraverseImpl (T : TypeTable) : ℕ → Node → TypeDescriptor → Traversal
  | 0, _, _ => .fault
  | nesting + 1, parent, parentType =>
    traverseMembers T (objectTreeTraverseImpl T nesting) parent parentType parentType.members

/-- The nesting of types by value in a table of at most `MARSHAL_TYPES_MAX` types. -/
def nestingMax : ℕ := 255

/-- The members of an object in the order of `object_tree_traverse`. A type without members is
one leaf. -/
def traversal (T : TypeTable) (type : MarshalType) (disambiguator : UInt8) : Traversal :=
  match T.desc type with
  | none => .fault
  | some parentType =>
    if parentType.members.isEmpty then
      .visit ⟨0, .member 0 type, parentType, ⟨0, type, disambiguator⟩⟩ .done
    else objectTreeTraverseImpl T nestingMax ⟨0, type, disambiguator⟩ parentType

/-- `traverse_callbacks_t`. -/
structure TraverseCallbacks (σ : Type) where
  leafMember : Option (Addr → TypeDescriptor → σ → Option (Bool × σ))
  pointerMember : Option (Addr → MemberDescriptor → Mob → σ → Option (Bool × σ))
  sharedMember : Option (Addr → MemberDescriptor → σ → Option (Bool × σ))

/-- The `mob_t` of a node in the tree of the object at `object`. -/
def Node.mob (object : Addr) (n : Node) : Mob :=
  ⟨some (object.shift n.offset), n.type, n.disambiguator⟩

/-- `traverse_callback`. -/
def traverseCallback {σ : Type} (object : Addr) (callbacks : TraverseCallbacks σ) (v : Visit)
    (s : σ) : Option (Bool × σ) :=
  let childAddr := object.shift v.offset
  if !v.descriptor.isPointer then
    match callbacks.leafMember, callbacks.sharedMember with
    | some leaf, _ => if v.type.members.isEmpty then leaf childAddr v.type s else some (true, s)
    | none, some shared =>
      if v.descriptor.isShared then shared childAddr v.descriptor s else some (true, s)
    | none, none => some (true, s)
  else
    match callbacks.pointerMember with
    | some pointer => pointer childAddr v.descriptor (v.parent.mob object) s
    | none => some (true, s)

/-- The call of `tagged_union_member` in `update_member_for_union`. -/
def taggedUnionMember (T : TypeTable) (mem : Memory) (object : Addr) (q : Query) : Option ℕ := do
  let parentType ← T.desc q.parent.type
  let cb ← parentType.taggedUnionMember
  cb mem (some (object.shift q.parent.offset)) q.descriptor q.element

/-- `object_tree_traverse`. `view` is the memory that the client callbacks see. -/
def objectTreeTraverse {σ : Type} (T : TypeTable) (view : σ → Memory)
    (callbacks : TraverseCallbacks σ) (object : Mob) (s : σ) : Option (Bool × σ) :=
  match object.address with
  | none => none
  | some a =>
    (traversal T object.type object.disambiguator).exec (traverseCallback a callbacks)
      (fun q s => taggedUnionMember T (view s) a q) s

/-- The visits of an object in a memory that the callbacks do not change. -/
def objectVisits (T : TypeTable) (mem : Memory) (object : Mob) : Option (List Visit) :=
  object.address.bind fun a =>
    (traversal T object.type object.disambiguator).visits (taggedUnionMember T mem a)

section

variable {T : TypeTable} {mem : Memory} {object : Mob} {σ : Type} {callbacks : TraverseCallbacks σ}

/-- A traversal over a memory that stays as it is calls back for the visits of the object. -/
theorem objectTreeTraverse_eq {a : Addr} {vs : List Visit} (ha : object.address = some a)
    (hvs : objectVisits T mem object = some vs) (s : σ) :
    objectTreeTraverse T (fun _ => mem) callbacks object s =
      forEach (traverseCallback a callbacks) vs s := by
  unfold objectVisits at hvs
  unfold objectTreeTraverse
  rw [ha] at hvs ⊢
  exact Script.exec_eq_forEach (taggedUnionMember T mem a) (fun _ _ => rfl) hvs s

theorem objectVisits_of_traverse {s s' : σ}
    (h : objectTreeTraverse T (fun _ => mem) callbacks object s = some (true, s')) :
    ∃ a vs, object.address = some a ∧ objectVisits T mem object = some vs ∧
      forEach (traverseCallback a callbacks) vs s = some (true, s') := by
  rcases ha : object.address with _ | a
  · simp [objectTreeTraverse, ha] at h
  · obtain ⟨vs, hvs⟩ := Script.visits_of_exec (taggedUnionMember T mem a) (fun _ _ => rfl)
      (by simpa only [objectTreeTraverse, ha] using h)
    have hov : objectVisits T mem object = some vs := by simp [objectVisits, ha, hvs]
    exact ⟨a, vs, rfl, hov, by rw [← objectTreeTraverse_eq ha hov, h]⟩

end

/-! ## Object sets -/

/-- The sets of `marshal_base_t`. -/
structure MarshalBase where
  objectSet : Mobs
  sharedMemberSet : Mobs
  pointerMemberSet : Mobs
  deriving Repr, DecidableEq

/-- `MOB_INDEX_NULL`. -/
abbrev mobIndexNull : ℕ := 0

/-- The NULL object at the start of the object set. -/
def nullObject : Mob := ⟨none, marshalTypesMax, 0⟩

/-- `base_mobs_init`. -/
def baseMobsInit : MarshalBase := ⟨[nullObject], [], []⟩

/-- `register_shared_member`. -/
def registerSharedMember (memberAddress : Addr) (desc : MemberDescriptor) (base : MarshalBase) :
    Option (Bool × MarshalBase) := do
  let (pushed, sharedMemberSet) ← mobsPush base.sharedMemberSet ⟨some memberAddress, desc.type, 0⟩
  if pushed then some (true, { base with sharedMemberSet }) else none

/-- `register_shared_members`. -/
def registerSharedMembers (T : TypeTable) (mem : Memory) (_index : ℕ) (object : Mob)
    (base : MarshalBase) : Option (Bool × MarshalBase) :=
  objectTreeTraverse T (fun _ => mem) ⟨none, none, some registerSharedMember⟩ object base

end Mh40.Marshal
