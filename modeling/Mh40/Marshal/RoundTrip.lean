import Mh40.Marshal.Graph
import Mh40.Marshal.Rebuild
import Mh40.Marshal.Sizes

/-!
# The round trip

`marshal` on the root of an object graph and `unmarshal` on the bytes that it writes.

* `Isomorphic`: the copies have the leaf values of the objects, and pointers to the copies of what
  the pointers of the objects refer to.
* `roundTrips_iff`: the graph is rebuilt exactly when the client has a disambiguator for each NULL
  pointer, and `obj_size` has room for the pointers of the objects of a dynamic length.

The first condition fails for a NULL pointer to a type whose own callback does not take a NULL
object: `obj_disambiguator` calls it before `mobs_push` looks at the address. The second fails for
a final member that is a pointer, or an array of pointers, to a type smaller than a pointer:
`obj_size` counts the size of the type.
-/

namespace Mh40.Marshal

open Lib Memory List Option

/-- The type tables of the library, with their callbacks. -/
structure WellFormed (T : TypeTable) : Prop where
  client : WellBehaved T
  unions : UnionsSingle T
  layout : SoundLayout T
  unshared : T.hasSharedObjects = false

/-- The parts of the object at `a` that the table declares. -/
def DeclaredIn (T : TypeTable) (mem : Memory) (a : Addr) (o : Mob) (p : Part) : Prop :=
  Declares T (taggedUnionMember T mem a) ⟨0, o.type, o.disambiguator⟩ p

/-- `copy` maps the objects to objects in `heap` with the same leaf values and the same
pointers. -/
structure Isomorphic (T : TypeTable) (mem : Memory) (objects : Finset Mob) (heap : Memory)
    (copy : Mob → Mob) : Prop where
  address : ∀ o ∈ objects, (copy o).address.isSome
  type : ∀ o ∈ objects, (copy o).type = o.type ∧ (copy o).disambiguator = o.disambiguator
  injective : ∀ o ∈ objects, ∀ o' ∈ objects, (copy o).address = (copy o').address → o = o'
  leaves : ∀ o ∈ objects, ∀ a b, o.address = some a → (copy o).address = some b →
    ∀ offset size, DeclaredIn T mem a o (.leaf offset size) →
      SameBytes mem (a.shift offset) heap (b.shift offset) size
  pointers : ∀ o ∈ objects, ∀ a b, o.address = some a → (copy o).address = some b →
    ∀ offset type, DeclaredIn T mem a o (.pointer offset type) →
      (mem.readPointer (a.shift offset) = some none ∧
        heap.readPointer (b.shift offset) = some none) ∨
      ∃ r ∈ objects, r.type = type ∧ mem.readPointer (a.shift offset) = some r.address ∧
        heap.readPointer (b.shift offset) = some (copy r).address

/-- `marshal` writes the graph into every buffer that is big enough, and `unmarshal` rebuilds it
over every heap, from all the bytes. -/
def RoundTrips (T : TypeTable) (mem : Memory) (root : Mob) (objects : Finset Mob) : Prop :=
  ∃ addr bs, root.address = some addr ∧ ∀ space, bs.length ≤ space →
    ∃ m, marshal T mem (marshalSetBuffer marshalInit space) addr root.type = some (true, m) ∧
      m.written = bs ∧
    ∀ heap, ∃ root' u, unmarshal T (unmarshalSetBuffer (unmarshalInit heap) bs) =
        some (some root', u) ∧ unmarshalConsumed u = bs.length ∧
      ∃ copy, copy root = root' ∧ Isomorphic T mem objects u.heap copy

/-- The blocks of the objects of a dynamic length have room for their pointers. -/
def PointersFit (T : TypeTable) (mem : Memory) (objects : Finset Mob) : Prop :=
  ∀ o ∈ objects, ∀ t, T.desc o.type = some t → t.dynamicLength = true →
    ∀ size, objSize T o.type o.disambiguator = some size →
      ∀ s ∈ objectSlots T mem 0 o, s.visit.offset + pointerSize ≤ size

variable {T : TypeTable} {mem : Memory} {root : Mob} {objects : Finset Mob} {base : MarshalBase}
  {heap : Memory} {block : ℕ} {o : Mob}

/-! ## The stream -/

/-- The index that the stream has for a pointer member. -/
def slotIndex (T : TypeTable) (mem : Memory) (base : MarshalBase) (s : PointerSlot) : UInt8 :=
  UInt8.ofNat (((s.referent T mem).bind (referredIndex base)).getD 0)

theorem chunks_of_forall {chunk : Mob → Option (List UInt8)} (set : Mobs)
    (h : ∀ o ∈ set, (chunk o).isSome) : ∃ cs, chunks chunk set = some cs := by
  induction set with
  | nil => exact ⟨[], rfl⟩
  | cons o set ih =>
    obtain ⟨ho, hset⟩ := forall_mem_cons.mp h
    obtain ⟨c, hc⟩ := isSome_iff_exists.mp ho
    obtain ⟨cs, hcs⟩ := ih hset
    exact ⟨c :: cs, by simp [chunks, hc, hcs]⟩

/-- The chunks of pointer members whose referents have indexes. -/
theorem chunks_originals {slots : List PointerSlot}
    (h : ∀ s ∈ slots, ∃ r i, s.referent T mem = some r ∧ referredIndex base r = some i) :
    chunks (indexChunk mem base) (slots.map (·.original)) =
      some (slots.map fun s => [slotIndex T mem base s]) := by
  induction slots with
  | nil => rfl
  | cons s slots ih =>
    obtain ⟨⟨r, i, hr, hi⟩, hslots⟩ := forall_mem_cons.mp h
    obtain ⟨d, hread, _, hd⟩ := referent_eq_some_iff.mp hr
    have htype : r.type = s.visit.descriptor.type := by rw [hd]
    have hcongr : ∀ set, mobsHasObject set { s.original with address := r.address } =
        mobsHasObject set r := fun set => mobsHasObject_congr rfl htype.symm
    have hindex : referredIndex base { s.original with address := r.address } = some i := by
      rw [← hi]
      simp only [referredIndex, hcongr]
    have haddr : s.original.address = some s.source := rfl
    have hchunk : indexChunk mem base s.original = some [slotIndex T mem base s] := by
      simp [indexChunk, haddr, hread, hindex, slotIndex, hr, hi]
    simp [chunks, hchunk, ih hslots]

/-- The stream of a registered graph, `values` being the chunks of its objects. -/
def stream (T : TypeTable) (mem : Memory) (base : MarshalBase) (values : List (List UInt8)) :
    List UInt8 :=
  values.flatten ++ marshalTypesMax ::
    (pointerSlots T mem 0 (base.objectSet.drop 1)).map (slotIndex T mem base)

theorem pointerSlots_block (block : ℕ) (os : Mobs) {β : Type} (f : PointerSlot → β)
    (hf : ∀ (s : PointerSlot) block, f { s with block } = f s) :
    (pointerSlots T mem block os).map f = (pointerSlots T mem 0 os).map f := by
  have hall : ∀ block block', (pointerSlots T mem block os).map f =
      (pointerSlots T mem block' os).map f := by
    induction os with
    | nil => exact fun _ _ => rfl
    | cons o os ih =>
      intro block block'
      simp only [pointerSlots, map_append, ih (block + 1) (block' + 1)]
      congr 1
      rw [objectSlots_block block, objectSlots_block block']
      simp only [List.map_map]
      congr 1
      funext s
      simp only [Function.comp, hf]
  exact hall block 0

/-- `marshal` on the root of a graph is the registration, then the writing. -/
theorem ObjectGraph.marshal_eq (hg : ObjectGraph T mem root objects) {addr : Addr}
    (haddr : root.address = some addr) (space : ℕ) :
    marshal T mem (marshalSetBuffer marshalInit space) addr root.type =
      (registerObjects T mem 1 (rootBase root)).bind fun base =>
        marshalValuesState T mem { marshalSetBuffer marshalInit space with
          base, state := .marshalValues } := by
  have hroot : root ∈ objects := (hg.reachable root).mpr .refl
  obtain ⟨c, hc⟩ := isSome_iff_exists.mp (hg.readable root hroot)
  obtain ⟨t, ht, _⟩ := bind_eq_some_iff.mp hc
  have htype : root.type.toNat < T.length := (List.getElem?_eq_some_iff.mp ht).1
  have hmob : (⟨some addr, root.type, root.disambiguator⟩ : Mob) = root := by rw [← haddr]
  have hd := hg.rootDisambiguator
  rw [haddr] at hd
  have hpush : mobsPush [nullObject] root = some (true, [nullObject, root]) := by
    simp [mobsPush, mobsHasObject, nullObject, haddr, mobsPushUnique, mobsMaxObjects]
  have hstate : (marshalSetBuffer marshalInit space).state = .registerPointers := rfl
  have hset : (marshalSetBuffer marshalInit space).base.objectSet = [nullObject] := rfl
  simp only [marshal, if_pos htype, hstate, registerPointersState, hd, hset, hmob, hpush,
    bind_eq_bind, bind_some, if_true]
  rfl

/-- **`marshal` writes the stream of a registered graph.** -/
theorem marshalValuesState_of_registered (hg : ObjectGraph T mem root objects)
    (h : Registered T mem (Reachable T mem root) 1 block (rootBase root) base) :
    ∃ values, chunks (objectChunk T mem) (base.objectSet.drop 1) = some values ∧
      ∀ space, (stream T mem base values).length ≤ space →
        ∃ m, marshalValuesState T mem { marshalSetBuffer marshalInit space with
          base, state := .marshalValues } = some (true, m) ∧ m.written = stream T mem base values := by
  obtain ⟨values, hvalues⟩ := chunks_of_forall (base.objectSet.drop 1) fun o ho =>
      show (objectChunk T mem o).isSome from hg.readable o ((hg.reachable o).mpr (h.found o ho))
  have hindexes : chunks (indexChunk mem base) base.pointerMemberSet =
      some ((pointerSlots T mem 0 (base.objectSet.drop 1)).map fun s => [slotIndex T mem base s]) := by
    have hp := h.pointers
    simp only [rootBase, baseMobsInit, nil_append] at hp
    rw [hp, chunks_originals, ← pointerSlots_block block]
    · exact fun _ _ => rfl
    · intro s hs
      obtain ⟨r, i, hr, hi⟩ := h.referred s hs
      exact ⟨r, i, hr, by simp [referredIndex, hi]⟩
  have hflat : (values ++ [marshalTypesMax] :: (pointerSlots T mem 0 (base.objectSet.drop 1)).map
      fun s => [slotIndex T mem base s]).flatten = stream T mem base values := by
    rw [flatten_append, flatten_cons, ← flatMap_def, ← map_eq_flatMap]
    rfl
  refine ⟨values, hvalues, fun space hspace => ?_⟩
  let m : Marshaller := { marshalSetBuffer marshalInit space with base, state := .marshalValues }
  have hbound := h.bounded
  have hspec := marshalValuesState_spec (T := T) (m := m) rfl
    ⟨fun _ => by simp [m, marshalSetBuffer, marshalInit]; omega, ?_⟩ (Nat.zero_le _) rfl hvalues
    hindexes rfl
  · rw [hflat, if_pos (by simpa [m, marshalSetBuffer] using hspace)] at hspec
    exact ⟨_, hspec, rfl⟩
  · have hpointers := hg.pointers_length_le
      (h.distinct.nodup.sublist (drop_sublist 1 base.objectSet)) h.found block
    have hp := congrArg List.length h.pointers
    simp only [rootBase, baseMobsInit, nil_append, length_map] at hp
    simp only [m, marshalSetBuffer, marshalInit]
    omega

/-! ## The objects of the stream -/

theorem getElem?_copies (block : ℕ) (os : Mobs) (k : ℕ) :
    (copies block os)[k]? = (os[k]?).map (copyMob (block + k)) := by
  induction os generalizing block k with
  | nil => rfl
  | cons o os ih =>
    rcases k with _ | k
    · rfl
    · simp only [copies, getElem?_cons_succ, ih]
      rw [Nat.add_assoc, Nat.add_comm 1]

theorem length_copies (block : ℕ) (os : Mobs) : (copies block os).length = os.length := by
  induction os generalizing block with
  | nil => rfl
  | cons o os ih => simp [copies, ih]

theorem mem_pointerSlots_iff {os : Mobs} {s : PointerSlot} :
    s ∈ pointerSlots T mem block os ↔
      ∃ (k : ℕ) (o : Mob), os[k]? = some o ∧ s ∈ objectSlots T mem (block + k) o := by
  induction os generalizing block with
  | nil => simp [pointerSlots]
  | cons o os ih =>
    rw [pointerSlots, mem_append, ih]
    constructor
    · rintro (h | ⟨k, o', ho', hs⟩)
      · exact ⟨0, o, rfl, h⟩
      · exact ⟨k + 1, o', ho', by rwa [Nat.add_assoc, Nat.add_comm 1] at hs⟩
    · rintro ⟨_ | k, o', ho', hs⟩
      · cases ho'
        exact .inl hs
      · exact .inr ⟨k, o', ho', by rwa [Nat.add_assoc, Nat.add_comm 1]⟩

/-- The pointer members of the copies have different addresses. -/
theorem nodup_cells {os : Mobs} (h : ∀ o ∈ os, ((objectSlots T mem 0 o).map (·.visit.offset)).Nodup) :
    ((pointerSlots T mem block os).map (·.cell)).Nodup := by
  induction os generalizing block with
  | nil => exact List.Pairwise.nil
  | cons o os ih =>
    obtain ⟨ho, hos⟩ := forall_mem_cons.mp h
    rw [pointerSlots, map_append]
    refine nodup_append.mpr ⟨?_, ih hos, ?_⟩
    · have hcell : (objectSlots T mem block o).map (·.cell) =
          ((objectSlots T mem 0 o).map (·.visit.offset)).map fun i => (⟨block, 0 + i⟩ : Addr) := by
        rw [objectSlots_block block]
        simp only [List.map_map]
        rfl
      rw [hcell]
      refine ho.map fun i j hij => ?_
      simpa using hij
    · intro c hc c' hc' heq
      obtain ⟨s, hs, rfl⟩ := List.mem_map.mp hc
      obtain ⟨s', hs', rfl⟩ := List.mem_map.mp hc'
      obtain ⟨k, o', _, hs'⟩ := mem_pointerSlots_iff.mp hs'
      rw [objectSlots_block] at hs hs'
      obtain ⟨s1, _, rfl⟩ := List.mem_map.mp hs
      obtain ⟨s2, _, rfl⟩ := List.mem_map.mp hs'
      have := congrArg Addr.block heq
      simp only [PointerSlot.cell, Addr.shift_block] at this
      omega

/-- Each object of the graph has got its disambiguator from `obj_disambiguator`. -/
theorem ObjectGraph.disambiguator (hg : ObjectGraph T mem root objects) (ho : o ∈ objects) :
    ∃ desc parent, desc.type = o.type ∧
      objDisambiguator T mem o.address desc parent = some o.disambiguator := by
  rcases Relation.ReflTransGen.cases_tail ((hg.reachable o).mp ho) with rfl | ⟨_, _, hp⟩
  · exact ⟨_, _, rfl, hg.rootDisambiguator⟩
  · obtain ⟨_, _, s, _, hr⟩ := hp
    obtain ⟨d, _, hd, heq⟩ := referent_eq_some_iff.mp hr
    refine ⟨s.visit.descriptor, _, (congrArg Mob.type heq).symm, hd.trans ?_⟩
    exact congrArg some (congrArg Mob.disambiguator heq).symm

theorem disambiguated_of_objDisambiguator {desc : MemberDescriptor} {parent : Option Mob}
    (htype : desc.type = o.type)
    (h : objDisambiguator T mem o.address desc parent = some o.disambiguator) :
    Disambiguated T o := by
  intro t ht hfixed
  simp only [objDisambiguator, htype, ht, hfixed, bind_eq_bind, bind_some,
    Bool.false_eq_true, if_false, some.injEq] at h
  exact h.symm

theorem ObjectGraph.address (hg : ObjectGraph T mem root objects) (ho : o ∈ objects) :
    ∃ a, o.address = some a := by
  obtain ⟨c, hc⟩ := isSome_iff_exists.mp (hg.readable o ho)
  simp only [objectChunk, bind_eq_bind, bind_eq_some_iff] at hc
  obtain ⟨_, _, a, ha, _⟩ := hc
  exact ⟨a, ha⟩

/-- What an object of the graph has: its visits, and a size with room for its leaf values. -/
theorem ObjectGraph.fits (hT : WellFormed T) (hg : ObjectGraph T mem root objects)
    (ho : o ∈ objects) : ∃ t a vs size, T.desc o.type = some t ∧ o.address = some a ∧
      objectVisits T mem o = some vs ∧ objSize T o.type o.disambiguator = some size ∧
      PointersApart vs ∧ ∀ v ∈ vs, v.descriptor.isPointer = false ∨ t.dynamicLength = false →
        v.offset + v.extent ≤ size := by
  obtain ⟨c, hc⟩ := isSome_iff_exists.mp (hg.readable o ho)
  simp only [objectChunk, bind_eq_bind, bind_eq_some_iff] at hc
  obtain ⟨t, ht, a, ha, vs, hvs, _⟩ := hc
  obtain ⟨desc, parent, htype, hd⟩ := hg.disambiguator ho
  obtain ⟨size, hsize, hapart, hfits⟩ := fits_of_objectVisits hT.layout hT.unions ht
    (hg.structures o ho t ht) ha hvs htype hd
  exact ⟨t, a, vs, size, ht, ha, hvs, hsize, hapart, hfits⟩

/-- Nothing keeps the objects of a registered graph from being copied. -/
theorem ObjectGraph.not_stuck (hT : WellFormed T) (hg : ObjectGraph T mem root objects)
    (h : Registered T mem (Reachable T mem root) 1 block (rootBase root) base) {u : Unmarshaller}
    (hobjects : u.base.objectSet = [nullObject]) (hpointers : u.base.pointerMemberSet = []) :
    ¬Stuck T mem (base.objectSet.drop 1) u := by
  rintro ⟨o, ho, vs, s, hvs, hun, hlen, hslots⟩
  obtain ⟨t, a, vs', size, ht, ha, hvs', hsize, _, hfits⟩ :=
    hg.fits hT ((hg.reachable o).mpr (h.found o ho))
  rw [hvs] at hvs'
  cases hvs'
  have hbound := h.bounded
  have hcount := hg.pointers_length_le (h.distinct.nodup.sublist (drop_sublist 1 base.objectSet))
    h.found u.heap.length
  cases hun with
  | size hnone =>
    rw [hsize] at hnone
    cases hnone
  | @member size' past v rest hsize' hall hbad =>
    rw [hsize] at hsize'
    cases hsize'
    rcases hbad with ⟨hleaf, hlt⟩ | ⟨hp, hfull⟩
    · have hnot : v.descriptor.isPointer = false := by
        simp only [Visit.isLeaf, Bool.and_eq_true, Bool.not_eq_true'] at hleaf
        exact hleaf.1
      have := hfits v (by simp [← hall]) (.inl hnot)
      rw [Visit.extent, hnot] at this
      exact absurd this (Nat.not_le.mpr hlt)
    · have := hslots ⟨s.heap.length, 0⟩
      rw [← hall, pointerMobs_append] at this
      simp only [pointerMobs, length_append, length_map, hp, filter_cons_of_pos,
        length_cons] at this hfull
      rw [hpointers, length_nil] at this
      omega
  | full hfull =>
    have := h.start_le
    rw [hobjects] at hlen
    simp only [length_singleton, length_drop] at hlen
    omega

/-! ## The pointers of the stream -/

/-- The unmarshaller has copied the values of the objects. -/
structure CopiedValues (T : TypeTable) (mem : Memory) (base : MarshalBase) (heap : Memory)
    (u : Unmarshaller) : Prop where
  objectSet : u.base.objectSet = nullObject :: copies heap.length (base.objectSet.drop 1)
  pointers : u.base.pointerMemberSet =
    (pointerSlots T mem heap.length (base.objectSet.drop 1)).map (·.copy)
  copied : ∀ (k : ℕ) o, (base.objectSet.drop 1)[k]? = some o →
    CopiedAt T mem o u.heap (heap.length + k)

/-- The copy of an object: the block that its place in the set is for. -/
def copyIn (base : MarshalBase) (block : ℕ) (o : Mob) : Mob :=
  copyMob (block + ((mobsHasObject base.objectSet o).getD 0 - 1)) o

section

variable {heap : Memory} {u : Unmarshaller}

theorem copyIn_of_getElem? {block k : ℕ} {o : Mob} (hd : Distinct base.objectSet)
    (ho : (base.objectSet.drop 1)[k]? = some o) : copyIn base block o = copyMob (block + k) o := by
  rw [getElem?_drop, Nat.add_comm] at ho
  rw [copyIn, hd.index ho o.matches_refl]
  simp

/-- An index of the stream refers to the copy of what the pointer member refers to. -/
theorem Registered.refers (hg : ObjectGraph T mem root objects) {block : ℕ}
    (h : Registered T mem (Reachable T mem root) 1 block (rootBase root) base)
    (hu : CopiedValues T mem base heap u) {s : PointerSlot}
    (hs : s ∈ pointerSlots T mem block (base.objectSet.drop 1)) :
    ∃ r r', s.referent T mem = some r ∧ Refers u.base s (slotIndex T mem base s) r' ∧
      (r.address = none ∧ r'.address = none ∨
        r ∈ objects ∧ r'.address = (copyIn base heap.length r).address) := by
  obtain ⟨r, i, hr, hi⟩ := h.referred s hs
  obtain ⟨d, _, _, hrd⟩ := referent_eq_some_iff.mp hr
  have htype : r.type = s.visit.descriptor.type := by rw [hrd]
  obtain ⟨⟨o, ho, hm⟩, _⟩ := mobsHasObject_eq_some_iff.mp hi
  have hlt : i < base.objectSet.length := (List.getElem?_eq_some_iff.mp ho).1
  have hbound := h.bounded
  have hindex : (slotIndex T mem base s).toNat = i := by
    simp only [slotIndex, hr, referredIndex, hi, bind_some, getD_some,
      UInt8.toNat_ofNat']
    exact Nat.mod_eq_of_lt (by simp only [mobsMaxObjects] at hbound; omega)
  have hlen : u.base.objectSet.length = base.objectSet.length := by
    have := h.start_le
    rw [hu.objectSet, length_cons, length_copies, length_drop]
    omega
  have href : referredObject u.base (slotIndex T mem base s).toNat = u.base.objectSet[i]? := by
    rw [hindex, referredObject, if_neg (by omega)]
    rfl
  rcases i with _ | i
  · rw [h.null] at ho
    cases ho
    refine ⟨r, nullObject, hr, ⟨?_, .inl rfl⟩, .inl ⟨hm.1, rfl⟩⟩
    rw [href, hu.objectSet]
    rfl
  · have hdrop : (base.objectSet.drop 1)[i]? = some o := by
      rw [getElem?_drop, Nat.add_comm, ho]
    have hmem : o ∈ objects := (hg.reachable o).mpr (h.found o (mem_of_getElem? hdrop))
    obtain ⟨a, ha⟩ := hg.address hmem
    have hrtype : o.type = r.type := by
      rcases hm.2 with ht | hn
      · exact ht
      · rw [hm.1, ha] at hn
        cases hn
    have hr' : r ∈ objects := by
      obtain ⟨k, o0, ho0, hs0⟩ := mem_pointerSlots_iff.mp hs
      refine (hg.reachable r).mpr ((h.found o0 (mem_of_getElem? ho0)).tail ⟨?_, _, s, hs0, hr⟩)
      rw [hm.1, ha]
      rfl
    obtain rfl : r = o := hg.keyed r hr' o hmem hm.1 hrtype.symm
    refine ⟨r, copyMob (heap.length + i) r, hr, ⟨?_, .inr htype.symm⟩, .inr ⟨hr', ?_⟩⟩
    · rw [href, hu.objectSet, getElem?_cons_succ, getElem?_copies, hdrop]
      rfl
    · rw [copyIn_of_getElem? h.distinct hdrop]

/-- The pointers of the objects lie in their blocks exactly when the pointers fit. -/
theorem pointersFit_iff (hT : WellFormed T) (hg : ObjectGraph T mem root objects)
    (h : Registered T mem (Reachable T mem root) 1 heap.length (rootBase root) base)
    (hu : CopiedValues T mem base heap u) :
    PointersFit T mem objects ↔ ∀ s ∈ pointerSlots T mem heap.length (base.objectSet.drop 1),
      u.heap.Holds s.cell pointerSize := by
  have hcell : ∀ (k : ℕ) o (s : PointerSlot) size, (base.objectSet.drop 1)[k]? = some o →
      objSize T o.type o.disambiguator = some size →
      (u.heap.Holds (PointerSlot.cell { s with block := heap.length + k }) pointerSize ↔
        s.visit.offset + pointerSize ≤ size) := by
    intro k o s size ho hsize
    obtain ⟨_, _, blk, _, _, hblk, hsize', _⟩ := hu.copied k o ho
    rw [hsize] at hsize'
    cases hsize'
    simp only [Holds, PointerSlot.cell, Addr.shift_block, Addr.shift_offset, Nat.zero_add, hblk,
      some.injEq, exists_eq_left']
  constructor
  · intro hfit s hs
    obtain ⟨k, o, ho, hs⟩ := mem_pointerSlots_iff.mp hs
    rw [objectSlots_block] at hs
    obtain ⟨s0, hs0, rfl⟩ := List.mem_map.mp hs
    have hmem : o ∈ objects := (hg.reachable o).mpr (h.found o (mem_of_getElem? ho))
    obtain ⟨t, a, vs, size, ht, ha, hvs, hsize, _, hfits⟩ := hg.fits hT hmem
    refine (hcell k o s0 size ho hsize).mpr ?_
    by_cases hdyn : t.dynamicLength = true
    · exact hfit o hmem t ht hdyn size hsize s0 hs0
    · rw [objectSlots_eq 0 ha hvs] at hs0
      obtain ⟨v, hv, rfl⟩ := List.mem_map.mp hs0
      obtain ⟨hv, hp⟩ := mem_filter.mp hv
      have := hfits v hv (.inr (by simpa using hdyn))
      rwa [Visit.extent, if_pos hp] at this
  · intro hall o ho t _ _ size hsize s hs
    obtain ⟨k, hk⟩ := mem_iff_getElem?.mp (hg.mem_registered h ho)
    refine (hcell k o s size hk hsize).mp (hall _ (mem_pointerSlots_iff.mpr ⟨k, o, hk, ?_⟩))
    rw [objectSlots_block]
    exact List.mem_map_of_mem hs

end

theorem sameBytes_part {a b : Addr} {n i k : ℕ} (h : SameBytes mem a heap b n) (hle : i + k ≤ n) :
    SameBytes mem (a.shift i) heap (b.shift i) k := by
  obtain ⟨⟨blk, hblk, hfit⟩, ⟨blk', hblk', hfit'⟩, hbytes⟩ := sameBytes_iff.mp h
  refine sameBytes_iff.mpr ⟨⟨blk, hblk, ?_⟩, ⟨blk', hblk', ?_⟩, fun j hj => ?_⟩
  · simp only [Addr.shift_offset]
    omega
  · simp only [Addr.shift_offset]
    omega
  · rw [Addr.shift_shift, Addr.shift_shift]
    exact hbytes (i + j) (by omega)

/-- **The copies are isomorphic to the graph.** -/
theorem isomorphic_of_pointersCopied (hT : WellFormed T) (hg : ObjectGraph T mem root objects)
    {u u' : Unmarshaller}
    (h : Registered T mem (Reachable T mem root) 1 heap.length (rootBase root) base)
    (hu : CopiedValues T mem base heap u)
    (hp : PointersCopied (pointerSlots T mem heap.length (base.objectSet.drop 1))
      ((pointerSlots T mem heap.length (base.objectSet.drop 1)).map (slotIndex T mem base)) [] u u') :
    Isomorphic T mem objects u'.heap (copyIn base heap.length) := by
  have hplace : ∀ o ∈ objects, ∃ k : ℕ, (base.objectSet.drop 1)[k]? = some o ∧
      copyIn base heap.length o = copyMob (heap.length + k) o := by
    intro o ho
    obtain ⟨k, hk⟩ := mem_iff_getElem?.mp (hg.mem_registered h ho)
    exact ⟨k, hk, copyIn_of_getElem? h.distinct hk⟩
  refine ⟨fun _ _ => rfl, fun _ _ => ⟨rfl, rfl⟩, ?_, ?_, ?_⟩
  · intro o ho o' ho' heq
    obtain ⟨k, hk, hc⟩ := hplace o ho
    obtain ⟨k', hk', hc'⟩ := hplace o' ho'
    rw [hc, hc'] at heq
    have hkk : k = k' := by simpa [copyMob] using heq
    rw [hkk, hk'] at hk
    exact (some.inj hk).symm
  · intro o ho a b ha hb offset size hd
    obtain ⟨k, hk, hc⟩ := hplace o ho
    obtain ⟨a', vs, blk, ha', hvs, _, _, hsame⟩ := hu.copied k o hk
    rw [ha] at ha'
    cases ha'
    rw [hc] at hb
    cases hb
    obtain ⟨v, hv, hleaf, hlo, hhi⟩ := covered_of_objectVisits hT.unions ha hvs hd
    obtain ⟨hm, hm', hbytes⟩ := sameBytes_iff.mp (hsame v hv hleaf)
    have hsame' : SameBytes mem (a.shift v.offset) u'.heap
        ((⟨heap.length + k, 0⟩ : Addr).shift v.offset) v.type.size.toNat :=
      sameBytes_iff.mpr ⟨hm, (hp.holds _ _).mpr hm', fun i hi => by rw [hp.byte, hbytes i hi]⟩
    have := sameBytes_part hsame' (i := offset - v.offset) (k := size) (by omega)
    rwa [Addr.shift_shift, Addr.shift_shift, Nat.add_sub_cancel' hlo] at this
  · intro o ho a b ha hb offset type hd
    obtain ⟨k, hk, hc⟩ := hplace o ho
    obtain ⟨a', vs, blk, ha', hvs, _⟩ := hu.copied k o hk
    rw [ha] at ha'
    cases ha'
    rw [hc] at hb
    cases hb
    obtain ⟨v, hv, hpointer, rfl, rfl⟩ := covered_of_objectVisits hT.unions ha hvs hd
    have hs : (⟨a, heap.length + k, v⟩ : PointerSlot) ∈
        pointerSlots T mem heap.length (base.objectSet.drop 1) := by
      refine mem_pointerSlots_iff.mpr ⟨k, o, hk, ?_⟩
      rw [objectSlots_eq _ ha hvs]
      exact List.mem_map_of_mem (mem_filter.mpr ⟨hv, hpointer⟩)
    obtain ⟨r, r', hr, href, hcase⟩ := h.refers hg hu hs
    obtain ⟨d, hread, _, hrd⟩ := referent_eq_some_iff.mp hr
    obtain ⟨j, hj⟩ := mem_iff_getElem?.mp hs
    have hwritten := hp.pointer j _ (slotIndex T mem base ⟨a, heap.length + k, v⟩) r' hj
      (by rw [getElem?_map, hj]; rfl) href
    rcases hcase with ⟨hnull, hnull'⟩ | ⟨hmem, hcopy⟩
    · rw [hnull] at hread
      rw [hnull'] at hwritten
      exact .inl ⟨hread, hwritten⟩
    · rw [hcopy] at hwritten
      exact .inr ⟨r, hmem, by rw [hrd], hread, hwritten⟩

/-- **`unmarshal` rebuilds the graph from its stream when the pointers fit**, and else it faults. -/
theorem unmarshal_of_registered (hT : WellFormed T) (hg : ObjectGraph T mem root objects)
    {values : List (List UInt8)}
    (h : Registered T mem (Reachable T mem root) 1 heap.length (rootBase root) base)
    (hvalues : chunks (objectChunk T mem) (base.objectSet.drop 1) = some values) :
    PointersFit T mem objects ∧ (∃ u, unmarshal T (unmarshalSetBuffer (unmarshalInit heap)
        (stream T mem base values)) = some (some (copyMob heap.length root), u) ∧
      unmarshalConsumed u = (stream T mem base values).length ∧
      Isomorphic T mem objects u.heap (copyIn base heap.length)) ∨
    ¬PointersFit T mem objects ∧ unmarshal T (unmarshalSetBuffer (unmarshalInit heap)
      (stream T mem base values)) = none := by
  let os := base.objectSet.drop 1
  let slots := pointerSlots T mem heap.length os
  let u0 := unmarshalSetBuffer (unmarshalInit heap) (stream T mem base values)
  have hobjects : ∀ o ∈ os, o ∈ objects := fun o ho => (hg.reachable o).mpr (h.found o ho)
  have hbound := h.bounded
  have hlen : os.length < mobsMaxObjects + 1 := by
    simp only [os, length_drop]
    omega
  have hdata : u0.buf.drop u0.outdex =
      values.flatten ++ marshalTypesMax :: slots.map (slotIndex T mem base) := by
    have hslots : slots.map (slotIndex T mem base) =
        (pointerSlots T mem 0 os).map (slotIndex T mem base) :=
      pointerSlots_block heap.length os (slotIndex T mem base) fun _ _ => rfl
    rw [hslots]
    rfl
  -- the objects
  rcases unmarshalValuesLoop_copies (u := u0) os hT.client (fun o ho => by
      obtain ⟨desc, parent, htype, hd⟩ := hg.disambiguator (hobjects o ho)
      exact disambiguated_of_objDisambiguator htype hd) hvalues hdata hlen with
    ⟨u1, hloop, hvc⟩ | ⟨_, hstuck⟩
  case inr => exact absurd hstuck (hg.not_stuck hT h rfl rfl)
  obtain ⟨v, hv⟩ : ∃ v, v = { u1 with state := .unmarshalPointerIndexes } := ⟨_, rfl⟩
  have hu : CopiedValues T mem base heap v := by
    rw [hv]
    exact ⟨hvc.objectSet, hvc.pointers, hvc.copied⟩
  have hnext : v.nextIndex = 0 := by
    rw [hv]
    exact hvc.nextIndex
  have hcall : unmarshal T u0 = unmarshalPointerIndexesState v := by
    have hstate : u0.state = .unmarshalValues := rfl
    have hshared : registerUnmarshalledShared T u1 = some u1 := by
      simp [registerUnmarshalledShared, hT.unshared]
    simp [unmarshal, hstate, unmarshalValuesState, unmarshalValues, hloop, hshared, hv]
  -- the pointers
  have hcells : (slots.map (·.cell)).Nodup := by
    refine nodup_cells fun o ho => ?_
    obtain ⟨_, a, vs, _, _, ha, hvs, _, hapart, _⟩ := hg.fits hT (hobjects o ho)
    rw [objectSlots_eq 0 ha hvs, List.map_map]
    exact pairwise_map.mpr hapart
  have hslotsLen : slots.length < mobsMaxObjects + 1 := by
    have := hg.pointers_length_le (h.distinct.nodup.sublist (drop_sublist 1 base.objectSet))
      h.found heap.length
    exact Nat.lt_succ_of_le this
  have hpointers := pointerIndexes_copies (u := v) slots (slots.map (slotIndex T mem base))
    (mobsMaxObjects + 1) 0 [] hu.pointers hcells (length_map _) (fun k s i hs hi => by
      rw [getElem?_map, hs] at hi
      cases hi
      obtain ⟨_, r', _, href, _⟩ := h.refers hg hu (mem_of_getElem? hs)
      exact ⟨r', href⟩) (by rw [append_nil, hv]; exact hvc.data)
      (by rw [hv]; exact hvc.inside) hslotsLen
  have hiff := pointersFit_iff hT hg h hu
  rcases hpointers with ⟨u2, hiter, hp⟩ | ⟨hnone, s, hs, hholds⟩
  · left
    have hroot : mobsGetObject u2.base.objectSet u2.rootIndex = some (copyMob heap.length root) := by
      have hindex : u2.rootIndex = 1 := by
        rw [hp.rootIndex, hv]
        exact hvc.rootIndex
      obtain ⟨more, hmore⟩ := h.objects
      rw [hindex, hp.base, hu.objectSet, ← hmore]
      rfl
    have hiso := isomorphic_of_pointersCopied hT hg h hu hp
    refine ⟨hiff.mpr fun s hs => ?_, { u2 with
      state := .unmarshalValues, nextIndex := 0, rootIndex := u2.base.objectSet.length,
      base.pointerMemberSet := [] }, ?_, ?_, hiso⟩
    · obtain ⟨k, hk⟩ := mem_iff_getElem?.mp hs
      obtain ⟨_, r', _, href, _⟩ := h.refers hg hu hs
      have hread := hp.pointer k s (slotIndex T mem base s) r' hk
        (by rw [getElem?_map, hk]; rfl) href
      rw [← hp.holds]
      obtain ⟨blk, hblk, _⟩ := map_eq_some_iff.mp hread
      exact ⟨blk, access_eq_some_iff.mp hblk⟩
    · show unmarshal T u0 = _
      rw [hcall]
      simp only [unmarshalPointerIndexesState, mobsIterate, hnext, hiter, bind_eq_bind,
        bind_some, if_true, hroot]
    · have hbuf : u2.buf = stream T mem base values := by
        rw [hp.buf, hv]
        exact hvc.buf
      have hend := congrArg List.length hp.data
      have hin := hp.inside
      rw [length_drop, length_nil, hbuf] at hend
      rw [hbuf] at hin
      show u2.outdex = _
      omega
  · right
    refine ⟨fun hfit => hholds (hiff.mp hfit s hs), ?_⟩
    show unmarshal T u0 = _
    rw [hcall]
    simp only [unmarshalPointerIndexesState, mobsIterate, hnext, hnone, bind_eq_bind,
      bind_none]

/-- **The round trip.** A graph is rebuilt exactly when its NULL pointers have disambiguators and
the blocks of its objects have room for their pointers. -/
theorem roundTrips_iff (hT : WellFormed T) (hg : ObjectGraph T mem root objects) :
    RoundTrips T mem root objects ↔
      NullsDisambiguated T mem objects ∧ PointersFit T mem objects := by
  obtain ⟨addr, haddr⟩ := hg.address ((hg.reachable root).mpr .refl)
  rcases hg.registerObjects_cases hT.unshared 0 with ⟨hnulls, base, hreg, h⟩ | ⟨hnulls, hnone⟩
  · obtain ⟨values, hvalues, hwrite⟩ := marshalValuesState_of_registered hg h
    have hmarshal : ∀ space, marshal T mem (marshalSetBuffer marshalInit space) addr root.type =
        marshalValuesState T mem { marshalSetBuffer marshalInit space with
          base, state := .marshalValues } := fun space => by
      rw [hg.marshal_eq haddr, hreg, Option.bind_some]
    have hblock : ∀ heap : Memory,
        Registered T mem (Reachable T mem root) 1 heap.length (rootBase root) base := by
      intro heap
      rcases hg.registerObjects_cases hT.unshared heap.length with ⟨_, base', hreg', h'⟩ | ⟨hnot, _⟩
      · rw [hreg] at hreg'
        cases hreg'
        exact h'
      · exact absurd hnulls hnot
    constructor
    · rintro ⟨addr', bs, haddr', htrip⟩
      rw [haddr] at haddr'
      cases haddr'
      refine ⟨hnulls, ?_⟩
      -- a buffer that is big enough for both
      obtain ⟨m, hm, hbs, hun⟩ := htrip (max bs.length (stream T mem base values).length)
        (Nat.le_max_left _ _)
      obtain ⟨m', hm', hstream⟩ := hwrite _ (Nat.le_max_right bs.length _)
      rw [hmarshal, hm'] at hm
      cases hm
      obtain ⟨root', u, hu, _⟩ := hun []
      rcases unmarshal_of_registered hT hg (hblock []) hvalues with ⟨hfit, _⟩ | ⟨_, hnone⟩
      · exact hfit
      · rw [← hbs, hstream, hnone] at hu
        cases hu
    · rintro ⟨_, hfit⟩
      refine ⟨addr, stream T mem base values, haddr, fun space hspace => ?_⟩
      obtain ⟨m, hm, hstream⟩ := hwrite space hspace
      refine ⟨m, by rw [hmarshal, hm], hstream, fun heap => ?_⟩
      rcases unmarshal_of_registered hT hg (hblock heap) hvalues with ⟨_, u, hu, hend, hiso⟩ | ⟨hnot, _⟩
      · refine ⟨_, u, hu, hend, copyIn base heap.length, ?_, hiso⟩
        refine copyIn_of_getElem? (k := 0) h.distinct ?_
        obtain ⟨more, hmore⟩ := h.objects
        rw [← hmore]
        rfl
      · exact absurd hfit hnot
  · constructor
    · rintro ⟨addr', bs, haddr', htrip⟩
      obtain ⟨m, hm, _⟩ := htrip bs.length (Nat.le_refl _)
      rw [haddr] at haddr'
      cases haddr'
      rw [hg.marshal_eq haddr, hnone] at hm
      cases hm
    · exact fun hcond => absurd hcond.1 hnulls

/-! ## A table with dynamic arrays -/

/-- The number of elements in the first byte of the object. -/
def firstByte : MemberCallback := fun mem object _ _ => do
  let a ← object
  let bs ← mem.readBytes a 1
  bs.head?.map (·.toNat)

/-- A byte and as many bytes as it says. -/
def arrayType : TypeDescriptor :=
  ⟨[.member 0 0, ⟨1, 0, 0, false, false⟩], none, none, 1, false, true, .array, none, some firstByte⟩

/-- A byte, a pointer to such an array and two pointers to such structures. -/
def linkType : TypeDescriptor := .struct 16 [.member 0 0, .pointer 4 1, ⟨8, 2, 2, true, false⟩]

def arrayTable : TypeTable := [.basic 1, arrayType, linkType]

theorem arrayTable_wellFormed : WellFormed arrayTable where
  client := wellBehaved_of_no_unions (by decide) (by
    simp [arrayTable, arrayType, linkType, TypeDescriptor.basic, TypeDescriptor.struct])
  unions := {
    member := by
      intro t _ i m u _ _ hu hunion
      have hmem := TypeTable.mem_of_desc hu
      simp only [arrayTable, mem_cons, not_mem_nil, or_false] at hmem
      rcases hmem with rfl | rfl | rfl <;> cases hunion
    alternative := by
      simp [arrayTable, arrayType, linkType, TypeDescriptor.basic, TypeDescriptor.struct] }
  layout := {
    held := by
      simp [arrayTable, arrayType, linkType, TypeTable.desc, TypeDescriptor.basic,
        TypeDescriptor.struct, MemberDescriptor.member, MemberDescriptor.pointer]
    inside := by
      simp [arrayTable, arrayType, linkType, extent, stride, pointerSize, TypeTable.desc,
        TypeDescriptor.basic, TypeDescriptor.struct, MemberDescriptor.member,
        MemberDescriptor.pointer]
    behind := by
      intro t ht hdyn
      simp only [arrayTable, mem_cons, not_mem_nil, or_false] at ht
      rcases ht with rfl | rfl | rfl
      · cases hdyn
      · refine ⟨[.member 0 0], ⟨1, 0, 0, false, false⟩, rfl, ?_⟩
        simp [arrayTable, extent, stride, TypeTable.desc, TypeDescriptor.basic,
          MemberDescriptor.member]
      · cases hdyn
    tagged := by
      simp [arrayTable, arrayType, linkType, TypeDescriptor.basic, TypeDescriptor.struct]
    apart := by
      simp [arrayTable, arrayType, linkType, extent, stride, pointerSize, TypeTable.desc,
        TypeDescriptor.basic, TypeDescriptor.struct, MemberDescriptor.member,
        MemberDescriptor.pointer]
    alternatives := by
      simp [arrayTable, arrayType, linkType, TypeDescriptor.basic, TypeDescriptor.struct] }
  unshared := rfl

/-- Two structures that point at each other, the first also at itself and the second at NULL, and
the array that both point at. -/
def linkMemory : Memory :=
  [⟨16, fun _ => 7, fun i =>
      if i = 4 then some ⟨2, 0⟩ else if i = 8 then some ⟨1, 0⟩ else some ⟨0, 0⟩⟩,
   ⟨16, fun _ => 9, fun i =>
      if i = 4 then some ⟨2, 0⟩ else if i = 8 then some ⟨0, 0⟩ else none⟩,
   ⟨3, fun i => if i = 0 then 2 else 5, fun _ => none⟩]

def linkRoot : Mob := ⟨some ⟨0, 0⟩, 2, 0⟩

def linkObjects : Finset Mob := {linkRoot, ⟨some ⟨1, 0⟩, 2, 0⟩, ⟨some ⟨2, 0⟩, 1, 2⟩}

theorem linkMemory_graph : ObjectGraph arrayTable linkMemory linkRoot linkObjects where
  rootAddress := rfl
  rootDisambiguator := by decide
  reachable := by
    refine mem_iff_reachable (by decide) (by decide) fun o ho => ?_
    have hstep : ∀ o ∈ linkObjects, o = linkRoot ∨ o ∈ successors arrayTable linkMemory linkRoot := by
      decide
    rcases hstep o ho with rfl | ho
    · exact .refl
    · exact .single (pointsTo_iff.mpr ho)
  objects_le := by decide
  pointers_le := by decide
  keyed := by decide
  readable := by decide
  targets := by decide
  structures := by
    intro o _ t ht
    have hmem := TypeTable.mem_of_desc ht
    simp only [arrayTable, mem_cons, not_mem_nil, or_false] at hmem
    rcases hmem with rfl | rfl | rfl <;> rfl

theorem roundTrips_iff_links : RoundTrips arrayTable linkMemory linkRoot linkObjects := by
  refine (roundTrips_iff arrayTable_wellFormed linkMemory_graph).mpr ⟨?_, ?_⟩
  · unfold NullsDisambiguated
    decide
  · -- the array is the only object of a dynamic length, and it has no pointers
    have harray : ∀ o ∈ linkObjects, (arrayTable.desc o.type).any (·.dynamicLength) = true →
        (objectSlots arrayTable linkMemory 0 o).isEmpty = true := by decide
    intro o ho t ht hdyn size _ s hs
    have hempty := harray o ho (by rw [ht]; exact hdyn)
    rw [List.isEmpty_iff.mp hempty] at hs
    cases hs

/-- A structure with NULL pointers only. -/
def nullMemory : Memory := [⟨16, fun _ => 7, fun _ => none⟩]

/-- **The NULL pointer to an array.** The client's callback is called on it. -/
theorem nullArray_not_roundTrips :
    WellFormed arrayTable ∧ ObjectGraph arrayTable nullMemory linkRoot {linkRoot} ∧
      ¬RoundTrips arrayTable nullMemory linkRoot {linkRoot} := by
  have hgraph : ObjectGraph arrayTable nullMemory linkRoot {linkRoot} := {
    rootAddress := rfl
    rootDisambiguator := by decide
    reachable := by
      refine mem_iff_reachable (by decide) (by decide) fun o ho => ?_
      rw [Finset.mem_singleton.mp ho]
      exact .refl
    objects_le := by decide
    pointers_le := by decide
    keyed := by decide
    readable := by decide
    targets := by decide
    structures := by
      intro o _ t ht
      have hmem := TypeTable.mem_of_desc ht
      simp only [arrayTable, List.mem_cons, List.not_mem_nil, or_false] at hmem
      rcases hmem with rfl | rfl | rfl <;> rfl }
  refine ⟨arrayTable_wellFormed, hgraph, ?_⟩
  rintro ⟨addr, bs, haddr, htrip⟩
  obtain ⟨m, hm, _⟩ := htrip bs.length (Nat.le_refl _)
  have hnone : registerObjects arrayTable nullMemory 1 (rootBase linkRoot) = none := by decide
  rw [hgraph.marshal_eq haddr, hnone] at hm
  cases hm

end Mh40.Marshal
