import Mathlib.Algebra.Order.BigOperators.Group.List
import Mathlib.Algebra.Order.Ring.Int
import Mh40.Marshal.Layout

/-!
# The elements of an object

What `object_tree_traverse` is for, element by element, and when it does that.

* `elementTraversal` is the traversal that the descriptors describe: each member, each of its
  elements one stride behind the one before, a union by the alternative that `tagged_union_member`
  returns for that element, and all elements of the alternative.
* `Visit.elements` are the elements that one call of `traverse_callback` hands over: an array of
  leaf values merged into one blob stands for all its elements.
* `visitsEveryElement_iff`: the calls hand over these elements, each once, and ask for these
  alternatives, each once, exactly when every union by value is a single one with an alternative
  of one element. `update_member_for_union` overwrites the descriptor and the type that drive the
  element loop, so behind the first element the bound of the loop, the members of the union and
  the descriptor for the callback are those of the alternative.

Where they differ is a matter of counting. Each call of `tagged_union_member` is followed by one
visit; in `elementTraversal` it is followed by as many as the alternative has elements. All other
visits are fixed by the types of the nodes.
-/

namespace Mh40.Marshal

open Lib List Option

/-! ## The elements that the descriptors describe -/

/-- An element of a member, with the descriptor of the member. -/
structure Element where
  offset : ℕ
  descriptor : MemberDescriptor
  parent : Node
  deriving DecidableEq

abbrev Elements := Script Element Query

/-- The distance of two elements: a pointer, or the declared type. -/
def elementStride (d : MemberDescriptor) (t : TypeDescriptor) : ℕ :=
  if d.isPointer then pointerSize else t.size.toNat

/-- One element, and what it holds by value. -/
def element (inside : Node → TypeDescriptor → Elements) (parent : Node) (d : MemberDescriptor)
    (t : TypeDescriptor) (offset : ℕ) : Elements :=
  .visit ⟨offset, d, parent⟩
    (if !d.isPointer && !t.members.isEmpty then inside ⟨offset, d.type, 0⟩ t else .done)

/-- All elements of a member at `offset`. -/
def everyElement (inside : Node → TypeDescriptor → Elements) (parent : Node)
    (d : MemberDescriptor) (t : TypeDescriptor) (offset : ℕ) : Elements :=
  .each (fun i => element inside parent d t (offset + i * elementStride d t))
    (List.range d.arrayElements.toNat)

/-- A union by the alternative for it, with all the elements of that. -/
def everyAlternative (T : TypeTable) (inside : Node → TypeDescriptor → Elements) (parent : Node)
    (d : MemberDescriptor) (t : TypeDescriptor) (offset i : ℕ) : Elements :=
  .ask ⟨parent, d, i⟩ fun index =>
    match t.members[index]? with
    | none => .fault
    | some alternative =>
      match T.desc alternative.type with
      | none => .fault
      | some alternativeType =>
        everyElement inside parent alternative alternativeType (offset + i * t.size.toNat)

/-- All elements of one member of a node. -/
def everyMember (T : TypeTable) (inside : Node → TypeDescriptor → Elements) (parent : Node)
    (parentType : TypeDescriptor) (isFinal : Bool) (m : MemberDescriptor) : Elements :=
  match T.desc m.type with
  | none => .fault
  | some t =>
    let d := sizedMember parentType parent.disambiguator isFinal m
    let offset := parent.offset + m.offset.toNat
    if t.isUnion && !m.isPointer then
      .each (everyAlternative T inside parent d t offset) (List.range d.arrayElements.toNat)
    else everyElement inside parent d t offset

def everyMembers (T : TypeTable) (inside : Node → TypeDescriptor → Elements) (parent : Node)
    (parentType : TypeDescriptor) : List MemberDescriptor → Elements
  | [] => .done
  | m :: rest =>
    (everyMember T inside parent parentType rest.isEmpty m).andThen
      (everyMembers T inside parent parentType rest)

/-- All elements in a node, to a nesting of types by value. -/
def everyInside (T : TypeTable) : ℕ → Node → TypeDescriptor → Elements
  | 0, _, _ => .fault
  | nesting + 1, parent, parentType =>
    everyMembers T (everyInside T nesting) parent parentType parentType.members

/-- All elements of an object. A type without members is one element. -/
def elementTraversal (T : TypeTable) (type : MarshalType) (disambiguator : UInt8) : Elements :=
  match T.desc type with
  | none => .fault
  | some parentType =>
    if parentType.members.isEmpty then
      .visit ⟨0, .member 0 type, ⟨0, type, disambiguator⟩⟩ .done
    else everyInside T nestingMax ⟨0, type, disambiguator⟩ parentType

/-- The elements that one visit hands over. The type of a merged array is longer than the type
that its descriptor names. -/
def Visit.elements (T : TypeTable) (v : Visit) : List Element :=
  let size := ((T.desc v.descriptor.type).map (·.size.toNat)).getD 0
  if v.isLeaf && v.type.size.toNat ≠ size then
    let n := v.type.size.toNat / size
    (List.range n).map fun i =>
      ⟨v.offset + i * size, { v.descriptor with arrayElements := .ofNat n }, v.parent⟩
  else [⟨v.offset, v.descriptor, v.parent⟩]

/-- The elements that one call hands over, or the alternative that it asks for. -/
def handed (T : TypeTable) : Visit ⊕ Query → List (Element ⊕ Query)
  | .inl v => (v.elements T).map .inl
  | .inr q => [.inr q]

/-- The calls of `traverse_callback` and of `tagged_union_member` on an object. -/
def objectCalls (T : TypeTable) (mem : Memory) (object : Mob) : Option (List (Visit ⊕ Query)) :=
  object.address.bind fun a =>
    (traversal T object.type object.disambiguator).events (taggedUnionMember T mem a)

/-- The elements of an object and the alternatives to ask for. -/
def objectElements (T : TypeTable) (mem : Memory) (object : Mob) :
    Option (List (Element ⊕ Query)) :=
  object.address.bind fun a =>
    (elementTraversal T object.type object.disambiguator).events (taggedUnionMember T mem a)

/-- The traversal hands over every element once and asks for every alternative once, and for
nothing else. -/
def VisitsEveryElement (T : TypeTable) (mem : Memory) (object : Mob) : Prop :=
  ∃ calls elements, objectCalls T mem object = some calls ∧
    objectElements T mem object = some elements ∧ (calls.flatMap (handed T)).Perm elements

/-- The sizes are those of C types. -/
def TypeTable.Sized (T : TypeTable) : Prop := ∀ t ∈ T, 0 < t.size.toNat

/-- The alternative that the answer names. -/
def chosen (T : TypeTable) (answer : Query → Option ℕ) (q : Query) : Option MemberDescriptor :=
  (T.desc q.descriptor.type).bind fun t => (answer q).bind fun index => t.members[index]?

/-- A single union whose alternative has one element. -/
def Single (T : TypeTable) (answer : Query → Option ℕ) (q : Query) : Prop :=
  q.descriptor.arrayElements = 1 ∧
    ∀ alternative, chosen T answer q = some alternative → alternative.arrayElements = 1

variable {T : TypeTable} {answer : Query → Option ℕ} {parent : Node}
  {traverse : Node → TypeDescriptor → Traversal} {inside : Node → TypeDescriptor → Elements}
  {t : TypeDescriptor} {d : MemberDescriptor} {es : List (Element ⊕ Query)}
  {calls : List (Visit ⊕ Query)} {offset : ℕ}

/-! ## One visit -/

/-- A visit of the type that its descriptor names hands over one element. -/
theorem elements_of_desc (ht : T.desc d.type = some t) :
    Visit.elements T ⟨offset, d, t, parent⟩ = [⟨offset, d, parent⟩] := by
  unfold Visit.elements
  simp [ht]

/-- A merged array hands over all its elements. -/
theorem elements_of_merged (ht : T.desc d.type = some t) (hpos : 0 < t.size.toNat)
    (hleaf : t.members = []) (hp : d.isPointer = false) (hone : 1 < d.arrayElements.toNat)
    (hle : t.size.toNat * d.arrayElements.toNat ≤ ucharMax) :
    Visit.elements T ⟨offset, { d with arrayElements := 1 },
      { t with size := .ofNat (t.size.toNat * d.arrayElements.toNat) }, parent⟩ =
      (List.range d.arrayElements.toNat).map fun i =>
        ⟨offset + i * elementStride d t, d, parent⟩ := by
  have hsize : (UInt8.ofNat (t.size.toNat * d.arrayElements.toNat)).toNat =
      t.size.toNat * d.arrayElements.toNat := by
    rw [UInt8.toNat_ofNat']
    exact Nat.mod_eq_of_lt (Nat.lt_succ_of_le hle)
  have hne : t.size.toNat * d.arrayElements.toNat ≠ t.size.toNat := by
    intro h
    have := Nat.mul_lt_mul_of_pos_left hone hpos
    omega
  unfold Visit.elements
  simp only [ht, map_some, getD_some, hsize, Visit.isLeaf, hp, hleaf]
  rw [if_pos (by simpa using hne), Nat.mul_div_cancel_left _ hpos]
  have hd : { d with arrayElements := .ofNat d.arrayElements.toNat, isPointer := false } = d := by
    rw [← hp]
    simp
  have hstride : elementStride d t = t.size.toNat := by simp [elementStride, hp]
  simp only [hd, hstride]

/-- An array of at most one element is not merged. -/
theorem mergeArray_of_le_one (t : TypeDescriptor) (h : d.arrayElements.toNat ≤ 1) :
    mergeArray d t = (d, t) := by
  have hnot : ¬ d.arrayElements > 1 := fun hlt => by
    have := UInt8.lt_iff_toNat_lt.mp hlt
    exact absurd this (Nat.not_lt.mpr h)
  simp [mergeArray, hnot]

/-! ## The code on single unions -/

/-- On single unions the calls of `c` hand over the elements of `s`, in the same order. -/
def Matches (T : TypeTable) (answer : Query → Option ℕ) (c : Traversal) (s : Elements) : Prop :=
  ∀ es, s.events answer = some es → (∀ q, .inr q ∈ es → Single T answer q) →
    ∃ calls, c.events answer = some calls ∧ calls.flatMap (handed T) = es

theorem Matches.done : Matches T answer .done .done := by
  intro es h _
  cases h
  exact ⟨[], rfl, rfl⟩

theorem Matches.fault {c : Traversal} : Matches T answer c .fault := nofun

theorem Matches.andThen {c c' : Traversal} {s s' : Elements} (h : Matches T answer c s)
    (h' : Matches T answer c' s') : Matches T answer (c.andThen c') (s.andThen s') := by
  intro es hes hsingle
  obtain ⟨ds, ds', hds, hds', rfl⟩ := Script.events_andThen.mp hes
  obtain ⟨calls, hcalls, rfl⟩ := h ds hds fun q hq => hsingle q (mem_append_left _ hq)
  obtain ⟨calls', hcalls', rfl⟩ := h' ds' hds' fun q hq => hsingle q (mem_append_right _ hq)
  exact ⟨calls ++ calls', Script.events_andThen.mpr ⟨calls, calls', hcalls, hcalls', rfl⟩,
    flatMap_append⟩

theorem Matches.visit {c : Traversal} {s : Elements} {v : Visit} {e : Element}
    (hv : v.elements T = [e]) (h : Matches T answer c s) :
    Matches T answer (.visit v c) (.visit e s) := by
  intro es hes hsingle
  obtain ⟨ds, hds, rfl⟩ := map_eq_some_iff.mp hes
  obtain ⟨calls, hcalls, rfl⟩ := h ds hds fun q hq => hsingle q (mem_cons_of_mem _ hq)
  exact ⟨.inl v :: calls, by simp [Script.events, hcalls], by simp [handed, hv]⟩

/-- The loop over the elements of a member that is no union. -/
theorem matches_traverseElements {isUnion : Bool} {gas k n offset : ℕ}
    (hin : ∀ node u, Matches T answer (traverse node u) (inside node u))
    (ht : T.desc d.type = some t) (hu : (isUnion && !d.isPointer) = false)
    (hn : k + n = d.arrayElements.toNat) (hgas : n < gas) :
    Matches T answer
      (traverseElements T traverse parent d.isPointer isUnion t.size.toNat gas k d t
        (offset + k * elementStride d t))
      (.each (fun i => element inside parent d t (offset + i * elementStride d t))
        (List.range' k n)) := by
  induction n generalizing gas k with
  | zero =>
    obtain ⟨gas, rfl⟩ := Nat.exists_eq_add_one.mpr hgas
    unfold traverseElements
    rw [if_neg (by omega)]
    exact .done
  | succ n ih =>
    obtain ⟨gas, rfl⟩ := Nat.exists_eq_add_one.mpr (Nat.zero_lt_of_lt hgas)
    unfold traverseElements
    rw [range'_succ]
    simp only [if_pos (show k < d.arrayElements.toNat by omega), hu, Bool.false_eq_true, if_false]
    have hnext : offset + k * elementStride d t + (if d.isPointer = true then pointerSize
        else t.size.toNat) = offset + (k + 1) * elementStride d t := by
      rw [Nat.succ_mul, Nat.add_assoc]
      rfl
    rw [hnext]
    have hrest := @ih gas (k + 1) (by omega) (by omega)
    refine Matches.visit (elements_of_desc ht) (.andThen ?_ hrest)
    split
    · exact hin _ _
    · exact .done

/-- The elements of an array of leaf values. -/
theorem events_leafElements (offset : ℕ → ℕ) (hleaf : t.members = []) (is : List ℕ) :
    (Script.each (fun i => element inside parent d t (offset i)) is).events answer =
      some (is.map fun i => .inl ⟨offset i, d, parent⟩) := by
  induction is with
  | nil => rfl
  | cons i is ih =>
    refine Script.events_andThen.mpr ⟨[.inl ⟨offset i, d, parent⟩], _, ?_, ih, rfl⟩
    simp [element, hleaf, Script.events]

/-- A blob is one visit, behind which the loop ends. -/
theorem traverseElements_merged {isPointer : Bool} {size offset n : ℕ}
    (hm : mergeArray d t = ({ d with arrayElements := 1 }, { t with size := .ofNat n }))
    (hleaf : t.members = []) :
    traverseElements T traverse parent isPointer false size (ucharMax + 1) 0 (mergeArray d t).1
        (mergeArray d t).2 offset =
      .visit ⟨offset, (mergeArray d t).1, (mergeArray d t).2, parent⟩ .done := by
  rw [hm]
  unfold traverseElements
  simp only [hleaf]
  unfold traverseElements
  simp

/-- A member that is no union by value. -/
theorem matches_everyElement {isUnion : Bool} (hT : T.Sized)
    (hin : ∀ node u, Matches T answer (traverse node u) (inside node u))
    (ht : T.desc d.type = some t) (hunion : t.isUnion = isUnion)
    (hu : (isUnion && !d.isPointer) = false) :
    Matches T answer
      (traverseElements T traverse parent d.isPointer isUnion (mergeArray d t).2.size.toNat
        (ucharMax + 1) 0 (mergeArray d t).1 (mergeArray d t).2 offset)
      (everyElement inside parent d t offset) := by
  unfold everyElement
  rw [range_eq_range']
  have hlt : d.arrayElements.toNat < ucharMax + 1 := d.arrayElements.toNat_lt
  have hloop : Matches T answer
      (traverseElements T traverse parent d.isPointer isUnion t.size.toNat (ucharMax + 1) 0 d t
        (offset + 0 * elementStride d t))
      (.each (fun i => element inside parent d t (offset + i * elementStride d t))
        (List.range' 0 d.arrayElements.toNat)) :=
    matches_traverseElements hin ht hu (Nat.zero_add _) hlt
  rw [Nat.zero_mul, Nat.add_zero] at hloop
  rcases mergeArray_cases d t with hm | ⟨⟨hp, hnot, hleaf⟩, hm, hle⟩
  · rwa [hm]
  · by_cases hone : d.arrayElements.toNat ≤ 1
    · rwa [mergeArray_of_le_one t hone]
    rw [← hunion, hnot, traverseElements_merged hm hleaf, hm]
    intro es hes _
    rw [← range_eq_range', events_leafElements _ hleaf] at hes
    cases hes
    refine ⟨[.inl _], rfl, ?_⟩
    have hpos := hT t (TypeTable.mem_of_desc ht)
    simp only [flatMap_cons, flatMap_nil, append_nil, handed,
      elements_of_merged ht hpos hleaf hp (Nat.lt_of_not_le hone) hle, List.map_map]
    rfl

/-- A single union, of an alternative with one element. -/
theorem matches_everyAlternative {size offset : ℕ}
    (hin : ∀ node u, Matches T answer (traverse node u) (inside node u))
    (ht : T.desc d.type = some t) :
    Matches T answer
      (traverseElements T traverse parent false true size (ucharMax + 1) 0 d t offset)
      (.each (everyAlternative T inside parent d t offset) (List.range d.arrayElements.toNat)) := by
  rcases Nat.eq_zero_or_pos d.arrayElements.toNat with hzero | hpos
  · unfold traverseElements
    rw [hzero, if_neg (Nat.lt_irrefl 0)]
    exact .done
  intro es hes hsingle
  obtain ⟨n, hn⟩ := Nat.exists_eq_add_one.mpr hpos
  rw [hn, range_succ_eq_map] at hes
  obtain ⟨ds, ds', hds, hrest, rfl⟩ := Script.events_andThen.mp hes
  obtain ⟨index, hindex, hds⟩ := bind_eq_some_iff.mp hds
  obtain ⟨bs, hbs, rfl⟩ := map_eq_some_iff.mp hds
  obtain ⟨hone, hchosen⟩ := hsingle ⟨parent, d, 0⟩ (by simp)
  obtain rfl : n = 0 := by rw [hone] at hn; simpa using hn.symm
  cases hrest
  -- one question, and one element of the alternative
  rcases halt : t.members[index]? with _ | alternative
  · simp [halt, Script.events] at hbs
  rcases hv : T.desc alternative.type with _ | u
  · simp [halt, hv, Script.events] at hbs
  have hae : alternative.arrayElements = 1 :=
    hchosen alternative (by simp [chosen, ht, hindex, halt])
  have hend : ∀ addr, traverseElements T traverse parent false true size ucharMax 1 alternative u
      addr = .done := fun addr => by
    unfold traverseElements
    simp [hae]
  have hbody : Matches T answer (visitNested traverse parent offset alternative u)
      (element inside parent alternative u offset) := by
    refine Matches.visit (elements_of_desc hv) ?_
    split
    · exact hin _ _
    · exact .done
  have helement : (element inside parent alternative u offset).events answer = some bs := by
    simpa [halt, hv, everyElement, hae, Script.each] using hbs
  obtain ⟨calls, hcalls, rfl⟩ := hbody bs helement fun q hq =>
    hsingle q (mem_append_left _ (mem_cons_of_mem _ hq))
  refine ⟨.inr ⟨parent, d, 0⟩ :: calls, ?_, by simp [handed]⟩
  unfold traverseElements
  simp only [hn, Nat.zero_add, Nat.zero_lt_one, if_true, Bool.not_false, Bool.and_self,
    Script.events, hindex, bind_some, halt, hv, hend, Script.andThen_done]
  exact map_eq_some_iff.mpr ⟨calls, hcalls, rfl⟩

theorem matches_everyMember (isFinal : Bool) (m : MemberDescriptor) (hT : T.Sized)
    (hin : ∀ node u, Matches T answer (traverse node u) (inside node u)) :
    Matches T answer (traverseMember T traverse parent t isFinal m)
      (everyMember T inside parent t isFinal m) := by
  rcases hu : T.desc m.type with _ | u
  · unfold everyMember
    rw [hu]
    exact .fault
  have htype := (sizedMember_type t parent.disambiguator isFinal m).symm ▸ hu
  have hpointer := sizedMember_isPointer t parent.disambiguator isFinal m
  rw [traverseMember_eq hu]
  unfold everyMember
  simp only [hu]
  generalize sizedMember t parent.disambiguator isFinal m = d at *
  rw [← hpointer]
  by_cases hunion : (u.isUnion && !d.isPointer) = true
  · rw [if_pos hunion]
    rw [Bool.and_eq_true, Bool.not_eq_true'] at hunion
    have hmerged : mergeArray d u = (d, u) := by simp [mergeArray, hunion.1]
    simp only [hmerged, hunion.1, hunion.2]
    exact matches_everyAlternative hin htype
  · rw [if_neg hunion]
    exact matches_everyElement hT hin htype rfl (Bool.not_eq_true _ ▸ hunion)

theorem matches_everyMembers (ms : List MemberDescriptor) (hT : T.Sized)
    (hin : ∀ node u, Matches T answer (traverse node u) (inside node u)) :
    Matches T answer (traverseMembers T traverse parent t ms)
      (everyMembers T inside parent t ms) := by
  induction ms with
  | nil => exact .done
  | cons m rest ih => exact .andThen (matches_everyMember rest.isEmpty m hT hin) ih

theorem matches_everyInside (hT : T.Sized) (nesting : ℕ) (node : Node) (t : TypeDescriptor) :
    Matches T answer (objectTreeTraverseImpl T nesting node t) (everyInside T nesting node t) := by
  induction nesting generalizing node t with
  | zero => exact .fault
  | succ nesting ih => exact matches_everyMembers t.members hT ih

/-- **On single unions the traversal hands over all elements**, in the order of the members. -/
theorem matches_elementTraversal (hT : T.Sized) (type : MarshalType) (disambiguator : UInt8) :
    Matches T answer (traversal T type disambiguator) (elementTraversal T type disambiguator) := by
  unfold traversal elementTraversal
  rcases ht : T.desc type with _ | t
  · exact .fault
  dsimp only
  split
  · exact .visit (elements_of_desc ht) .done
  · exact matches_everyInside hT nestingMax _ t

/-! ## Counting -/

/-- The elements of a member that are no alternatives. -/
def fixedMember (T : TypeTable) (disambiguator : UInt8) (t : TypeDescriptor) (isFinal : Bool)
    (m : MemberDescriptor) : ℕ :=
  match T.desc m.type with
  | none => 0
  | some u =>
    if u.isUnion && !m.isPointer then 0
    else (sizedMember t disambiguator isFinal m).arrayElements.toNat

/-- The elements in a node that are no alternatives. -/
def fixedMembers (T : TypeTable) (disambiguator : UInt8) (t : TypeDescriptor) :
    List MemberDescriptor → ℕ
  | [] => 0
  | m :: rest => fixedMember T disambiguator t rest.isEmpty m + fixedMembers T disambiguator t rest

/-- The elements that one element holds by value and that are no alternatives. -/
def fixedIn (T : TypeTable) (d : MemberDescriptor) : ℕ :=
  if d.isPointer then 0
  else match T.desc d.type with
    | none => 0
    | some t => fixedMembers T 0 t t.members

/-- An element for itself and against those in it; a question against the elements it leads to. -/
def weight (T : TypeTable) (leadsTo : Query → ℕ) : Element ⊕ Query → ℤ
  | .inl e => 1 - fixedIn T e.descriptor
  | .inr q => - leadsTo q

/-- The elements of the alternative that the answer names. -/
def alternatives (T : TypeTable) (answer : Query → Option ℕ) (q : Query) : ℕ :=
  (chosen T answer q).elim 0 (·.arrayElements.toNat)

/-- The weight of a list of elements and questions. -/
def total (T : TypeTable) (leadsTo : Query → ℕ) (es : List (Element ⊕ Query)) : ℤ :=
  (es.map (weight T leadsTo)).sum

@[simp] theorem total_nil (leadsTo : Query → ℕ) : total T leadsTo [] = 0 := rfl

@[simp] theorem total_cons (leadsTo : Query → ℕ) (x : Element ⊕ Query)
    (es : List (Element ⊕ Query)) :
    total T leadsTo (x :: es) = weight T leadsTo x + total T leadsTo es := rfl

@[simp] theorem total_append (leadsTo : Query → ℕ) (es es' : List (Element ⊕ Query)) :
    total T leadsTo (es ++ es') = total T leadsTo es + total T leadsTo es' := by
  simp [total]

/-! ### The elements -/

/-- The elements and questions of a node: their weight is the number of its fixed elements, and
with one element of a union its others are there. -/
structure Described (T : TypeTable) (answer : Query → Option ℕ) (es : List (Element ⊕ Query))
    (n : ℤ) : Prop where
  total : total T (alternatives T answer) es = n
  nonzero : ∀ e, .inl e ∈ es → e.descriptor.arrayElements.toNat ≠ 0
  every : ∀ q, .inr q ∈ es → q.element < q.descriptor.arrayElements.toNat ∧
    ∀ k < q.descriptor.arrayElements.toNat, .inr ⟨q.parent, q.descriptor, k⟩ ∈ es

theorem Described.nil : Described T answer [] 0 := ⟨rfl, nofun, nofun⟩

theorem Described.append {es es' : List (Element ⊕ Query)} {n n' : ℤ}
    (h : Described T answer es n) (h' : Described T answer es' n') :
    Described T answer (es ++ es') (n + n') where
  total := by rw [total_append, h.total, h'.total]
  nonzero e he := (mem_append.mp he).elim (h.nonzero e) (h'.nonzero e)
  every q hq := by
    rcases mem_append.mp hq with hq | hq
    · exact ⟨(h.every q hq).1, fun k hk => mem_append_left _ ((h.every q hq).2 k hk)⟩
    · exact ⟨(h'.every q hq).1, fun k hk => mem_append_right _ ((h'.every q hq).2 k hk)⟩

/-- What holds by value of a node, `inside` describes. -/
def Describes (T : TypeTable) (answer : Query → Option ℕ)
    (inside : Node → TypeDescriptor → Elements) : Prop :=
  ∀ node t es, (inside node t).events answer = some es →
    Described T answer es (fixedMembers T node.disambiguator t t.members)

/-- What an element holds by value, if anything. -/
theorem fixedIn_eq (ht : T.desc d.type = some t) :
    fixedIn T d =
      if !d.isPointer && !t.members.isEmpty then fixedMembers T 0 t t.members else 0 := by
  unfold fixedIn
  rw [ht]
  cases d.isPointer <;> rcases hm : t.members with _ | ⟨m, rest⟩ <;> simp [hm, fixedMembers]

theorem described_element (hin : Describes T answer inside) (ht : T.desc d.type = some t)
    (hd : d.arrayElements.toNat ≠ 0)
    (h : (element inside parent d t offset).events answer = some es) :
    Described T answer es 1 := by
  obtain ⟨bs, hbs, rfl⟩ := map_eq_some_iff.mp h
  have hinside : Described T answer bs (fixedIn T d) := by
    rw [fixedIn_eq ht]
    split at hbs
    · rw [if_pos ‹_›]
      exact hin _ _ _ hbs
    · rw [if_neg ‹_›]
      cases hbs
      exact .nil
  have hself : Described T answer [.inl ⟨offset, d, parent⟩] (1 - fixedIn T d) := by
    refine ⟨by simp [weight], fun e he => ?_, fun q hq => ?_⟩
    · simp only [mem_singleton, Sum.inl.injEq] at he
      exact he ▸ hd
    · simp at hq
  simpa using hself.append hinside

theorem described_everyElement (hin : Describes T answer inside) (ht : T.desc d.type = some t)
    (h : (everyElement inside parent d t offset).events answer = some es) :
    Described T answer es d.arrayElements.toNat := by
  obtain ⟨parts, hparts, rfl⟩ := Script.events_each.mp h
  have hlen : (List.range d.arrayElements.toNat).length = d.arrayElements.toNat :=
    length_range
  have hzero : d.arrayElements.toNat = 0 → List.range d.arrayElements.toNat = [] := fun h => by
    rw [h, range_zero]
  generalize List.range d.arrayElements.toNat = is at *
  rw [← hlen]
  clear hlen h
  induction hparts with
  | nil => exact .nil
  | @cons i part is parts hpart _ ih =>
    have hd : d.arrayElements.toNat ≠ 0 := fun h => by simpa using hzero h
    have := (described_element hin ht hd hpart).append (ih fun h => absurd h hd)
    simpa [Int.add_comm] using this

/-- The parts of a list of scripts are those of its entries. -/
theorem forall₂_mem {α β : Type} {R : α → β → Prop} {as : List α} {bs : List β}
    (h : List.Forall₂ R as bs) :
    (∀ b ∈ bs, ∃ a ∈ as, R a b) ∧ ∀ a ∈ as, ∃ b ∈ bs, R a b := by
  induction h with
  | nil => exact ⟨nofun, nofun⟩
  | @cons a b as bs hab _ ih =>
    constructor
    · refine forall_mem_cons.mpr ⟨⟨a, mem_cons_self, hab⟩, fun b' hb' => ?_⟩
      obtain ⟨a', ha', hr⟩ := ih.1 b' hb'
      exact ⟨a', mem_cons_of_mem _ ha', hr⟩
    · refine forall_mem_cons.mpr ⟨⟨b, mem_cons_self, hab⟩, fun a' ha' => ?_⟩
      obtain ⟨b', hb', hr⟩ := ih.2 a' ha'
      exact ⟨b', mem_cons_of_mem _ hb', hr⟩

section

variable (hin : Describes T answer inside)
include hin

/-- One question, and the elements of the alternative that the answer names. -/
theorem everyAlternative_events {offset i : ℕ} (ht : T.desc d.type = some t)
    (h : (everyAlternative T inside parent d t offset i).events answer = some es) :
    ∃ bs, es = .inr ⟨parent, d, i⟩ :: bs ∧
      Described T answer bs (alternatives T answer ⟨parent, d, i⟩) := by
  obtain ⟨index, hindex, h⟩ := bind_eq_some_iff.mp h
  obtain ⟨bs, hbs, rfl⟩ := map_eq_some_iff.mp h
  refine ⟨bs, rfl, ?_⟩
  rcases halt : t.members[index]? with _ | alternative
  · simp [halt, Script.events] at hbs
  rcases hu : T.desc alternative.type with _ | u
  · simp [halt, hu, Script.events] at hbs
  simp only [halt, hu] at hbs
  have halternatives : alternatives T answer ⟨parent, d, i⟩ = alternative.arrayElements.toNat := by
    simp [alternatives, chosen, ht, hindex, halt]
  rw [halternatives]
  exact described_everyElement hin hu hbs

theorem described_everyAlternative (ht : T.desc d.type = some t)
    (h : (Script.each (everyAlternative T inside parent d t offset)
      (List.range d.arrayElements.toNat)).events answer = some es) :
    Described T answer es 0 := by
  obtain ⟨parts, hparts, rfl⟩ := Script.events_each.mp h
  obtain ⟨hright, hleft⟩ := forall₂_mem hparts
  have hpart : ∀ part ∈ parts, ∃ i < d.arrayElements.toNat, ∃ bs,
      part = .inr ⟨parent, d, i⟩ :: bs ∧
        Described T answer bs (alternatives T answer ⟨parent, d, i⟩) := fun part hmem => by
    obtain ⟨i, hi, hes⟩ := hright part hmem
    exact ⟨i, mem_range.mp hi, everyAlternative_events hin ht hes⟩
  refine ⟨?_, fun e he => ?_, fun q hq => ?_⟩
  · have hzero : ∀ part ∈ parts, total T (alternatives T answer) part = 0 := fun part hmem => by
      obtain ⟨i, _, bs, rfl, hbs⟩ := hpart part hmem
      simp [weight, hbs.total]
    clear h hparts hright hleft hpart
    induction parts with
    | nil => rfl
    | cons part parts ih =>
      rw [flatten_cons, total_append, hzero part mem_cons_self,
        ih fun part' h => hzero part' (mem_cons_of_mem _ h)]
      rfl
  · obtain ⟨part, hmem, he⟩ := mem_flatten.mp he
    obtain ⟨i, _, bs, rfl, hbs⟩ := hpart part hmem
    exact hbs.nonzero e (by simpa using he)
  · obtain ⟨part, hmem, hq⟩ := mem_flatten.mp hq
    obtain ⟨i, hi, bs, rfl, hbs⟩ := hpart part hmem
    rcases mem_cons.mp hq with hq | hq
    · cases hq
      refine ⟨hi, fun k hk => ?_⟩
      obtain ⟨part', hmem', hes⟩ := hleft k (mem_range.mpr hk)
      obtain ⟨_, rfl, _⟩ := everyAlternative_events hin ht hes
      exact mem_flatten.mpr ⟨_, hmem', mem_cons_self⟩
    · refine ⟨(hbs.every q hq).1, fun k hk => mem_flatten.mpr ⟨_, hmem, ?_⟩⟩
      exact mem_cons_of_mem _ ((hbs.every q hq).2 k hk)

theorem described_everyMember {isFinal : Bool} {m : MemberDescriptor}
    (h : (everyMember T inside parent t isFinal m).events answer = some es) :
    Described T answer es (fixedMember T parent.disambiguator t isFinal m) := by
  unfold everyMember at h
  unfold fixedMember
  rcases hu : T.desc m.type with _ | u
  · rw [hu] at h
    cases h
  have htype := (sizedMember_type t parent.disambiguator isFinal m).symm ▸ hu
  simp only [hu] at h ⊢
  split at h
  · rw [if_pos ‹_›]
    exact described_everyAlternative hin htype h
  · rw [if_neg ‹_›]
    exact described_everyElement hin htype h

theorem described_everyMembers {ms : List MemberDescriptor}
    (h : (everyMembers T inside parent t ms).events answer = some es) :
    Described T answer es (fixedMembers T parent.disambiguator t ms) := by
  induction ms generalizing es with
  | nil =>
    cases h
    exact .nil
  | cons m rest ih =>
    obtain ⟨ds, ds', hds, hds', rfl⟩ := Script.events_andThen.mp h
    exact_mod_cast (described_everyMember hin hds).append (ih hds')

end

theorem describes_everyInside (nesting : ℕ) : Describes T answer (everyInside T nesting) := by
  induction nesting with
  | zero => exact fun _ _ _ => nofun
  | succ nesting ih => exact fun _ _ _ h => described_everyMembers ih h

/-! ### The calls -/

/-- The calls for a node: their weight, when each question leads to one element, is the number of
its fixed elements; and each question is followed by a visit of the alternative it chose. -/
structure Called (T : TypeTable) (answer : Query → Option ℕ) (calls : List (Visit ⊕ Query))
    (n : ℤ) : Prop where
  total : total T (fun _ => 1) (calls.flatMap (handed T)) = n
  visited : ∀ q, .inr q ∈ calls → ∃ alternative e, chosen T answer q = some alternative ∧
    .inl e ∈ calls.flatMap (handed T) ∧ e.descriptor = alternative

/-- When each alternative has one element, only first elements are asked for. -/
def AsksFirst (T : TypeTable) (answer : Query → Option ℕ) (calls : List (Visit ⊕ Query)) : Prop :=
  (∀ q, .inr q ∈ calls → ∀ alternative, chosen T answer q = some alternative →
    alternative.arrayElements = 1) → ∀ q, .inr q ∈ calls → q.element = 0

theorem Called.nil : Called T answer [] 0 := ⟨rfl, nofun⟩

theorem AsksFirst.nil : AsksFirst T answer [] := fun _ => nofun

theorem Called.append {calls calls' : List (Visit ⊕ Query)} {n n' : ℤ}
    (h : Called T answer calls n) (h' : Called T answer calls' n') :
    Called T answer (calls ++ calls') (n + n') where
  total := by rw [flatMap_append, total_append, h.total, h'.total]
  visited q hq := by
    rw [flatMap_append]
    rcases mem_append.mp hq with hq | hq
    · obtain ⟨alternative, e, hc, he, hd⟩ := h.visited q hq
      exact ⟨alternative, e, hc, mem_append_left _ he, hd⟩
    · obtain ⟨alternative, e, hc, he, hd⟩ := h'.visited q hq
      exact ⟨alternative, e, hc, mem_append_right _ he, hd⟩

theorem AsksFirst.append {calls calls' : List (Visit ⊕ Query)} (h : AsksFirst T answer calls)
    (h' : AsksFirst T answer calls') : AsksFirst T answer (calls ++ calls') := by
  intro hone q hq
  rcases mem_append.mp hq with hq | hq
  · exact h (fun q hq => hone q (mem_append_left _ hq)) q hq
  · exact h' (fun q hq => hone q (mem_append_right _ hq)) q hq

/-- What the traversal of a node calls. -/
def Calls (T : TypeTable) (answer : Query → Option ℕ)
    (traverse : Node → TypeDescriptor → Traversal) : Prop :=
  ∀ node t calls, (traverse node t).events answer = some calls →
    Called T answer calls (fixedMembers T node.disambiguator t t.members) ∧
      AsksFirst T answer calls

section

variable (hin : Calls T answer traverse)
include hin

/-- A visit, and what the element holds by value. -/
theorem called_visitNested (ht : T.desc d.type = some t)
    (h : (visitNested traverse parent offset d t).events answer = some calls) :
    (Called T answer calls 1 ∧ AsksFirst T answer calls) ∧
      .inl ⟨offset, d, parent⟩ ∈ calls.flatMap (handed T) := by
  obtain ⟨cs, hcs, rfl⟩ := map_eq_some_iff.mp h
  have hinside : Called T answer cs (fixedIn T d) ∧ AsksFirst T answer cs := by
    rw [fixedIn_eq ht]
    split at hcs
    · rw [if_pos ‹_›]
      exact hin _ _ _ hcs
    · rw [if_neg ‹_›]
      cases hcs
      exact ⟨.nil, .nil⟩
  have hv : handed T (.inl ⟨offset, d, t, parent⟩) = [.inl ⟨offset, d, parent⟩] := by
    simp [handed, elements_of_desc ht]
  have hself : Called T answer [.inl ⟨offset, d, t, parent⟩] (1 - fixedIn T d) := by
    refine ⟨?_, fun q hq => by simp at hq⟩
    simp [hv, weight]
  have hasks : AsksFirst T answer [.inl ⟨offset, d, t, parent⟩] := fun _ q hq => by simp at hq
  exact ⟨⟨by simpa using hself.append hinside.1, hasks.append hinside.2⟩, by simp [hv]⟩

/-- The loop over a member that is no union. -/
theorem called_traverseElements {isPointer isUnion : Bool} {size gas k n offset : ℕ}
    (ht : T.desc d.type = some t) (hu : (isUnion && !isPointer) = false)
    (hn : k + n = d.arrayElements.toNat)
    (h : (traverseElements T traverse parent isPointer isUnion size gas k d t offset).events
      answer = some calls) :
    Called T answer calls n ∧ AsksFirst T answer calls := by
  induction gas generalizing k n offset calls with
  | zero => cases h
  | succ gas ih =>
    unfold traverseElements at h
    by_cases hk : k < d.arrayElements.toNat
    · simp only [if_pos hk, hu, Bool.false_eq_true, if_false] at h
      obtain ⟨n, rfl⟩ : ∃ m, n = m + 1 := ⟨n - 1, by omega⟩
      obtain ⟨cs, cs', hcs, hcs', rfl⟩ := Script.events_andThen
        (t := visitNested traverse parent offset d t).mp h
      obtain ⟨⟨hcalled, hasks⟩, _⟩ := called_visitNested hin ht hcs
      obtain ⟨hcalled', hasks'⟩ := ih (k := k + 1) (n := n) (by omega) hcs'
      refine ⟨?_, hasks.append hasks'⟩
      simpa [Int.add_comm] using hcalled.append hcalled'
    · simp only [if_neg hk] at h
      cases h
      obtain rfl : n = 0 := by omega
      exact ⟨.nil, .nil⟩

/-- The loop over a union. It asks on behind the first element only when an alternative has
several. -/
theorem called_union {size gas k offset : ℕ} (ht : T.desc d.type = some t)
    (h : (traverseElements T traverse parent false true size gas k d t offset).events answer =
      some calls) :
    Called T answer calls 0 ∧
      ((k = 0 ∨ d.arrayElements.toNat ≤ k) → AsksFirst T answer calls) := by
  induction gas generalizing k d t offset calls with
  | zero => cases h
  | succ gas ih =>
    unfold traverseElements at h
    by_cases hlt : k < d.arrayElements.toNat
    · simp only [if_pos hlt, Bool.not_false, Bool.and_self, if_true] at h
      obtain ⟨index, hindex, h⟩ := bind_eq_some_iff.mp h
      obtain ⟨bs, hbs, rfl⟩ := map_eq_some_iff.mp h
      rcases halt : t.members[index]? with _ | alternative
      · simp [halt, Script.events] at hbs
      rcases hu : T.desc alternative.type with _ | u
      · simp [halt, hu, Script.events] at hbs
      simp only [halt, hu] at hbs
      obtain ⟨cs, cs', hcs, hcs', rfl⟩ := Script.events_andThen
        (t := visitNested traverse parent offset alternative u).mp hbs
      obtain ⟨⟨hcalled, hasks⟩, hvisit⟩ := called_visitNested hin hu hcs
      obtain ⟨hcalled', hasks'⟩ := ih hu hcs'
      have hchosen : chosen T answer ⟨parent, d, k⟩ = some alternative := by
        simp [chosen, ht, hindex, halt]
      have hnested := hcalled.append hcalled'
      refine ⟨⟨?_, fun q hq => ?_⟩, fun hk hone q hq => ?_⟩
      · have hask : handed T (.inr ⟨parent, d, k⟩) = [.inr ⟨parent, d, k⟩] := rfl
        rw [flatMap_cons, total_append, hnested.total, hask]
        simp [weight]
      · rcases mem_cons.mp hq with hq | hq
        · cases hq
          refine ⟨alternative, ⟨offset, alternative, parent⟩, hchosen, ?_, rfl⟩
          rw [flatMap_cons, flatMap_append]
          exact mem_append_right _ (mem_append_left _ hvisit)
        · obtain ⟨alternative', e, hc, he, hd⟩ := hnested.visited q hq
          exact ⟨alternative', e, hc, mem_append_right _ he, hd⟩
      · rcases mem_cons.mp hq with hq' | hq'
        · cases hq'
          exact hk.resolve_right (Nat.not_le.mpr hlt)
        · have hae := hone ⟨parent, d, k⟩ mem_cons_self alternative hchosen
          have hend : alternative.arrayElements.toNat ≤ k + 1 := by
            rw [hae]
            exact Nat.le_add_left 1 k
          exact (hasks.append (hasks' (.inr hend)))
            (fun q hq => hone q (mem_cons_of_mem _ hq)) q hq'
    · simp only [if_neg hlt] at h
      cases h
      exact ⟨.nil, fun _ => .nil⟩

end

/-- A blob weighs as many elements as it was merged from. -/
theorem called_merged {v : Visit} (ht : T.desc d.type = some t) (hleaf : t.members = [])
    (is : List ℕ) (stride : ℕ)
    (hv : v.elements T = is.map fun i => ⟨offset + i * stride, d, parent⟩) :
    Called T answer [.inl v] is.length ∧ AsksFirst T answer [.inl v] := by
  refine ⟨⟨?_, fun q hq => by simp at hq⟩, fun _ q hq => by simp at hq⟩
  have hfixed : fixedIn T d = 0 := by
    rw [fixedIn_eq ht]
    simp [hleaf]
  simp only [flatMap_cons, flatMap_nil, append_nil, handed, hv]
  clear hv
  induction is with
  | nil => rfl
  | cons i is ih =>
    simp only [map_cons, total_cons, ih, weight, hfixed]
    simp [Int.add_comm]

theorem called_traverseMember {isFinal : Bool} {m : MemberDescriptor} (hT : T.Sized)
    (hin : Calls T answer traverse)
    (h : (traverseMember T traverse parent t isFinal m).events answer = some calls) :
    Called T answer calls (fixedMember T parent.disambiguator t isFinal m) ∧
      AsksFirst T answer calls := by
  rcases hu : T.desc m.type with _ | u
  · unfold traverseMember at h
    simp [hu, Script.events] at h
  have htype := (sizedMember_type t parent.disambiguator isFinal m).symm ▸ hu
  have hpointer := sizedMember_isPointer t parent.disambiguator isFinal m
  rw [traverseMember_eq hu] at h
  unfold fixedMember
  simp only [hu]
  generalize sizedMember t parent.disambiguator isFinal m = d at *
  rw [← hpointer] at h ⊢
  by_cases hunion : (u.isUnion && !d.isPointer) = true
  · rw [if_pos hunion]
    rw [Bool.and_eq_true, Bool.not_eq_true'] at hunion
    have hmerged : mergeArray d u = (d, u) := by simp [mergeArray, hunion.1]
    simp only [hmerged, hunion.1, hunion.2] at h
    obtain ⟨hcalled, hasks⟩ := called_union hin htype h
    exact ⟨hcalled, hasks (.inl rfl)⟩
  rw [if_neg hunion]
  rw [Bool.not_eq_true] at hunion
  rcases mergeArray_cases d u with hm | ⟨⟨hp, hnot, hleaf⟩, hm, hle⟩
  · simp only [hm] at h
    exact called_traverseElements hin htype hunion (Nat.zero_add _) h
  by_cases hone : d.arrayElements.toNat ≤ 1
  · simp only [mergeArray_of_le_one u hone] at h
    exact called_traverseElements hin htype hunion (Nat.zero_add _) h
  · simp only [hnot, traverseElements_merged hm hleaf] at h
    cases h
    have hv := @elements_of_merged T parent u d (parent.offset + m.offset.toNat) htype
      (hT u (TypeTable.mem_of_desc htype)) hleaf hp (Nat.lt_of_not_le hone) hle
    rw [hm]
    simpa using called_merged htype hleaf _ _ hv

theorem called_traverseMembers {ms : List MemberDescriptor} (hT : T.Sized)
    (hin : Calls T answer traverse)
    (h : (traverseMembers T traverse parent t ms).events answer = some calls) :
    Called T answer calls (fixedMembers T parent.disambiguator t ms) ∧
      AsksFirst T answer calls := by
  induction ms generalizing calls with
  | nil =>
    cases h
    exact ⟨.nil, .nil⟩
  | cons m rest ih =>
    obtain ⟨cs, cs', hcs, hcs', rfl⟩ := Script.events_andThen.mp h
    obtain ⟨hcalled, hasks⟩ := called_traverseMember hT hin hcs
    obtain ⟨hcalled', hasks'⟩ := ih hcs'
    exact ⟨by exact_mod_cast hcalled.append hcalled', hasks.append hasks'⟩

theorem calls_objectTreeTraverseImpl (hT : T.Sized) (nesting : ℕ) :
    Calls T answer (objectTreeTraverseImpl T nesting) := by
  induction nesting with
  | zero => exact fun _ _ _ => nofun
  | succ nesting ih => exact fun _ _ _ h => called_traverseMembers hT ih h

/-- The calls for an object weigh as much as its elements. -/
theorem called_traversal {type : MarshalType} {disambiguator : UInt8} (hT : T.Sized)
    (h : (traversal T type disambiguator).events answer = some calls)
    (hes : (elementTraversal T type disambiguator).events answer = some es) :
    ∃ n, Called T answer calls n ∧ AsksFirst T answer calls ∧ Described T answer es n := by
  unfold traversal at h
  unfold elementTraversal at hes
  rcases ht : T.desc type with _ | t
  · simp [ht, Script.events] at h
  simp only [ht] at h hes
  split at h
  · rw [if_pos ‹_›] at hes
    cases h
    cases hes
    have hv := @elements_of_desc T ⟨0, type, disambiguator⟩ t (.member 0 type) 0 ht
    refine ⟨1 - fixedIn T (.member 0 type), ⟨?_, by simp⟩, fun _ => by simp, ?_,
      by simp [MemberDescriptor.member], by simp⟩
    · simp [handed, hv, weight]
    · simp [weight]
  · rw [if_neg ‹_›] at hes
    obtain ⟨hcalled, hasks⟩ := calls_objectTreeTraverseImpl hT nestingMax _ _ _ h
    exact ⟨_, hcalled, hasks, describes_everyInside nestingMax _ _ _ hes⟩

theorem total_le_total {f g : Query → ℕ} (hle : ∀ q, .inr q ∈ es → f q ≤ g q) :
    total T g es ≤ total T f es := by
  induction es with
  | nil => exact Int.le_refl _
  | cons x es ih =>
    have hrest := ih fun q hq => hle q (mem_cons_of_mem _ hq)
    cases x with
    | inl e => exact Int.add_le_add_left hrest _
    | inr q =>
      have := hle q mem_cons_self
      simp only [total_cons, weight]
      omega

/-- Questions that lead to no fewer elements, and to as many in all, lead to as many each. -/
theorem eq_of_total_eq {f g : Query → ℕ} (hle : ∀ q, .inr q ∈ es → f q ≤ g q)
    (h : total T f es = total T g es) :
    ∀ q, .inr q ∈ es → f q = g q := by
  induction es with
  | nil => exact fun q hq => by simp at hq
  | cons x es ih =>
    have hle' : ∀ q, .inr q ∈ es → f q ≤ g q := fun q hq => hle q (mem_cons_of_mem _ hq)
    have hrest := total_le_total (T := T) hle'
    cases x with
    | inl e =>
      intro q hq
      exact ih hle' (Int.add_left_cancel h) q (by simpa using hq)
    | inr q₀ =>
      have hq0 := hle q₀ mem_cons_self
      simp only [total_cons, weight] at h
      intro q hq
      rcases mem_cons.mp hq with hq | hq
      · cases hq
        omega
      · exact ih hle' (by omega) q hq

theorem mem_handed_iff {q : Query} :
    .inr q ∈ calls.flatMap (handed T) ↔ .inr q ∈ calls := by
  rw [mem_flatMap]
  constructor
  · rintro ⟨v | q', hc, hq⟩
    · simp [handed] at hq
    · simp only [handed, mem_singleton, Sum.inr.injEq] at hq
      exact hq ▸ hc
  · exact fun h => ⟨_, h, mem_singleton_self _⟩

/-- The calls can be the elements only when each alternative has one. -/
theorem single_of_perm {n : ℤ} (hcalled : Called T answer calls n)
    (hasks : AsksFirst T answer calls) (hdescribed : Described T answer es n)
    (hperm : (calls.flatMap (handed T)).Perm es) :
    ∀ q, .inr q ∈ es → Single T answer q := by
  have hmem : ∀ q, .inr q ∈ es ↔ .inr q ∈ calls := fun q => hperm.mem_iff.symm.trans mem_handed_iff
  -- every question leads to an element, and by the weights to one
  have hpos : ∀ q, .inr q ∈ es → 1 ≤ alternatives T answer q := fun q hq => by
    obtain ⟨alternative, e, hchosen, he, rfl⟩ := hcalled.visited q ((hmem q).mp hq)
    have := hdescribed.nonzero e (hperm.mem_iff.mp he)
    simp only [alternatives, hchosen, elim_some]
    omega
  have htotal : total T (fun _ => 1) es = total T (alternatives T answer) es :=
    ((hperm.map _).sum_eq.symm.trans hcalled.total).trans hdescribed.total.symm
  have halternative : ∀ q, .inr q ∈ es → ∀ alternative, chosen T answer q = some alternative →
      alternative.arrayElements = 1 := fun q hq alternative hchosen => by
    have hone := eq_of_total_eq hpos htotal q hq
    simp only [alternatives, hchosen, elim_some] at hone
    exact UInt8.toNat_inj.mp hone.symm
  -- so the loop over a union ends behind its first element
  have hfirst := hasks fun q hq => halternative q ((hmem q).mpr hq)
  intro q hq
  obtain ⟨hlt, hevery⟩ := hdescribed.every q hq
  refine ⟨UInt8.toNat_inj.mp (Nat.le_antisymm (Nat.le_of_not_lt fun htwo => ?_) ?_),
    halternative q hq⟩
  · exact absurd (hfirst _ ((hmem _).mp (hevery 1 htwo))) Nat.one_ne_zero
  · exact Nat.succ_le_of_lt (Nat.zero_lt_of_lt hlt)

/-- **When the traversal visits every element.** -/
theorem visitsEveryElement_iff (T : TypeTable) (mem : Memory) (object : Mob) (a : Addr)
    (es : List (Element ⊕ Query)) (hT : T.Sized) (ha : object.address = some a)
    (hes : objectElements T mem object = some es) :
    VisitsEveryElement T mem object ↔
      ∀ q, .inr q ∈ es → Single T (taggedUnionMember T mem a) q := by
  have hcalls : objectCalls T mem object =
      (traversal T object.type object.disambiguator).events (taggedUnionMember T mem a) := by
    unfold objectCalls
    rw [ha]
    rfl
  have helements : (elementTraversal T object.type object.disambiguator).events
      (taggedUnionMember T mem a) = some es := by
    unfold objectElements at hes
    rwa [ha] at hes
  constructor
  · rintro ⟨calls, es', hc, hes', hperm⟩
    obtain rfl : es' = es := Option.some.inj (hes'.symm.trans hes)
    obtain ⟨n, hcalled, hasks, hdescribed⟩ :=
      called_traversal hT (hcalls.symm.trans hc) helements
    exact single_of_perm hcalled hasks hdescribed hperm
  · intro hsingle
    obtain ⟨calls, hc, hflat⟩ :=
      matches_elementTraversal hT object.type object.disambiguator es helements hsingle
    exact ⟨calls, es, hcalls.trans hc, hes, hflat ▸ .refl _⟩

/-- A byte; a word; a union of four bytes and a word; a structure of two tags and two unions; a
structure of one tag and one union. -/
def unionTable : TypeTable :=
  let tag : MemberCallback := fun mem object _ i =>
    object.map fun a => (mem.byte (a.shift i)).toNat
  [.basic 1, .basic 4,
    { TypeDescriptor.struct 4 [{ MemberDescriptor.member 0 0 with arrayElements := 4 },
        .member 0 1] with isUnion := true },
    { TypeDescriptor.struct 12 [{ MemberDescriptor.member 0 0 with arrayElements := 2 },
        { MemberDescriptor.member 4 2 with arrayElements := 2 }] with
      taggedUnionMember := some tag },
    { TypeDescriptor.struct 8 [.member 0 0, .member 4 2] with taggedUnionMember := some tag }]

/-- An object whose bytes are all `tag`. -/
def taggedBytes (tag : UInt8) : Memory := [⟨12, fun _ => tag, fun _ => none⟩]

theorem unionTable_sized : unionTable.Sized := by
  unfold TypeTable.Sized unionTable
  decide

/-- A tag that says word, and the word. -/
theorem visitsEveryElement_iff_word :
    VisitsEveryElement unionTable (taggedBytes 1) ⟨some ⟨0, 0⟩, 4, 0⟩ := by
  refine (visitsEveryElement_iff unionTable (taggedBytes 1) ⟨some ⟨0, 0⟩, 4, 0⟩ ⟨0, 0⟩
    [.inl ⟨0, .member 0 0, ⟨0, 4, 0⟩⟩, .inr ⟨⟨0, 4, 0⟩, .member 4 2, 0⟩,
      .inl ⟨4, .member 0 1, ⟨0, 4, 0⟩⟩] unionTable_sized rfl rfl).mpr fun q hq => ?_
  obtain rfl : q = ⟨⟨0, 4, 0⟩, .member 4 2, 0⟩ := by simpa using hq
  refine ⟨rfl, fun alternative h => ?_⟩
  have hchosen : some (MemberDescriptor.member 0 1) = some alternative := h
  cases hchosen
  rfl

/-- Of two unions only the first is visited; a union that holds four bytes is a fault. -/
theorem unionArray_not_visitsEveryElement :
    unionTable.Sized ∧
      ((objectElements unionTable (taggedBytes 1) ⟨some ⟨0, 0⟩, 3, 0⟩).isSome = true ∧
        ¬ VisitsEveryElement unionTable (taggedBytes 1) ⟨some ⟨0, 0⟩, 3, 0⟩) ∧
      ((objectElements unionTable (taggedBytes 0) ⟨some ⟨0, 0⟩, 4, 0⟩).isSome = true ∧
        ¬ VisitsEveryElement unionTable (taggedBytes 0) ⟨some ⟨0, 0⟩, 4, 0⟩) := by
  refine ⟨unionTable_sized, ⟨rfl, ?_⟩, ⟨rfl, ?_⟩⟩
  · rintro ⟨calls, elements, hcalls, helements, hperm⟩
    have hfour : (objectCalls unionTable (taggedBytes 1) ⟨some ⟨0, 0⟩, 3, 0⟩).map
        (fun calls => (calls.flatMap (handed unionTable)).length) = some 4 := by rfl
    have hsix : (objectElements unionTable (taggedBytes 1) ⟨some ⟨0, 0⟩, 3, 0⟩).map
        List.length = some 6 := by rfl
    rw [hcalls, Option.map_some, Option.some.injEq, hperm.length_eq] at hfour
    rw [helements, Option.map_some, hfour] at hsix
    cases hsix
  · rintro ⟨calls, elements, hcalls, _⟩
    have hfault : objectCalls unionTable (taggedBytes 0) ⟨some ⟨0, 0⟩, 4, 0⟩ = none := by rfl
    rw [hfault] at hcalls
    cases hcalls

end Mh40.Marshal
