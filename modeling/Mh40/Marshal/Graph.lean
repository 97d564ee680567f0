import Mathlib
import Mh40.Marshal.Register
import Mh40.Marshal.Chunks

/-!
# Object graphs

The objects that a root reaches through pointer members, and how `marshal` registers them.

* `ObjectGraph`: a graph in the reach of the library, with the memory that it lies in.
* `ObjectGraph.registerObjects_cases`: all its objects are registered, each once, exactly when the
  NULL pointers among its members have disambiguators.
-/

namespace Mh40.Marshal

open Lib List Option

/-- The objects that the root reaches, and the root. -/
def Reachable (T : TypeTable) (mem : Memory) (root : Mob) : Mob → Prop :=
  Relation.ReflTransGen (PointsTo T mem) root

/-- `objects` are the objects that `root` reaches, all of them readable in `mem`. -/
structure ObjectGraph (T : TypeTable) (mem : Memory) (root : Mob) (objects : Finset Mob) : Prop where
  rootAddress : root.address.isSome
  rootDisambiguator :
    objDisambiguator T mem root.address (.member 0 root.type) none = some root.disambiguator
  reachable : ∀ o, o ∈ objects ↔ Reachable T mem root o
  objects_le : objects.card ≤ mobsMaxObjects - 1
  pointers_le : ∑ o ∈ objects, (objectSlots T mem 0 o).length ≤ mobsMaxObjects
  /-- An object has one length, whichever member refers to it. -/
  keyed : ∀ o ∈ objects, ∀ o' ∈ objects, o.address = o'.address → o.type = o'.type → o = o'
  readable : ∀ o ∈ objects, (objectChunk T mem o).isSome
  /-- Pointer members can be read, and what they refer to has a length. -/
  targets : ∀ o ∈ objects, ∀ s ∈ objectSlots T mem 0 o, (mem.readPointer s.source).isSome ∧
    (mem.readPointer s.source ≠ some none → (s.referent T mem).isSome)
  /-- A union is a member of a structure, which knows the active alternative. -/
  structures : ∀ o ∈ objects, ∀ t, T.desc o.type = some t → t.isUnion = false

/-- The client gives a disambiguator for each NULL pointer. -/
def NullsDisambiguated (T : TypeTable) (mem : Memory) (objects : Finset Mob) : Prop :=
  ∀ o ∈ objects, ∀ s ∈ objectSlots T mem 0 o, mem.readPointer s.source = some none →
    (objDisambiguator T mem none s.visit.descriptor (some (s.visit.parent.mob s.object))).isSome

variable {T : TypeTable} {mem : Memory} {root : Mob} {objects : Finset Mob} {base : MarshalBase}
  {os : Mobs} {o : Mob}

/-! ## Blocks do not matter -/

theorem objectSlots_block (block : ℕ) (o : Mob) :
    objectSlots T mem block o = (objectSlots T mem 0 o).map fun s => { s with block } := by
  unfold objectSlots
  split <;> simp

theorem referent_block (block : ℕ) (s : PointerSlot) :
    ({ s with block } : PointerSlot).referent T mem = s.referent T mem := rfl

theorem mem_pointerSlots (block : ℕ) {s : PointerSlot} (ho : o ∈ os)
    (hs : s ∈ objectSlots T mem 0 o) : ∃ block', { s with block := block' } ∈
      pointerSlots T mem block os := by
  induction os generalizing block with
  | nil => cases ho
  | cons o' os ih =>
    rcases mem_cons.mp ho with rfl | ho
    · refine ⟨block, mem_append_left _ ?_⟩
      rw [objectSlots_block]
      exact List.mem_map_of_mem hs
    · obtain ⟨block', hb⟩ := ih (block + 1) ho
      exact ⟨block', mem_append_right _ hb⟩

theorem length_pointerSlots_eq_sum (block : ℕ) (os : Mobs) :
    (pointerSlots T mem block os).length = (os.map fun o => (objectSlots T mem 0 o).length).sum := by
  induction os generalizing block with
  | nil => rfl
  | cons o os ih =>
    rw [pointerSlots, length_append, ih, objectSlots_block]
    simp

/-- The objects that the pointer members of `o` refer to. -/
def successors (T : TypeTable) (mem : Memory) (o : Mob) : Mobs :=
  ((objectSlots T mem 0 o).filterMap (·.referent T mem)).filter (·.address.isSome)

theorem pointsTo_iff {o r : Mob} : PointsTo T mem o r ↔ r ∈ successors T mem o := by
  rw [successors, mem_filter, mem_filterMap]
  constructor
  · rintro ⟨hr, block, s, hs, href⟩
    rw [objectSlots_block] at hs
    obtain ⟨s', hs', rfl⟩ := List.mem_map.mp hs
    exact ⟨⟨s', hs', href⟩, hr⟩
  · rintro ⟨⟨s, hs, href⟩, hr⟩
    exact ⟨hr, 0, s, hs, href⟩

/-- A set of reachable objects that is closed under their pointers holds all reachable ones. -/
theorem mem_iff_reachable (hroot : root ∈ objects)
    (hclosed : ∀ o ∈ objects, ∀ r ∈ successors T mem o, r ∈ objects)
    (hreach : ∀ o ∈ objects, Reachable T mem root o) (o : Mob) :
    o ∈ objects ↔ Reachable T mem root o := by
  refine ⟨hreach o, fun h => ?_⟩
  induction h with
  | refl => exact hroot
  | tail _ hp ih => exact hclosed _ ih _ (pointsTo_iff.mp hp)

/-! ## What a graph has room for -/

/-- The set before the iteration: NULL and the root. -/
def rootBase (root : Mob) : MarshalBase := { baseMobsInit with objectSet := [nullObject, root] }

theorem Distinct.nodup {set : Mobs} (h : Distinct set) : set.Nodup := by
  refine Pairwise.imp (fun hne heq => hne ?_) h
  rw [heq]
  exact Mob.matches_refl _

theorem ObjectGraph.length_le (hg : ObjectGraph T mem root objects) (os : Mobs) (hd : os.Nodup)
    (hos : ∀ o ∈ os, Reachable T mem root o) : os.length ≤ mobsMaxObjects - 1 := by
  rw [← toFinset_card_of_nodup hd]
  refine (Finset.card_le_card fun o ho => ?_).trans hg.objects_le
  exact (hg.reachable o).mpr (hos o (List.mem_toFinset.mp ho))

theorem ObjectGraph.pointers_length_le (hg : ObjectGraph T mem root objects) (hd : os.Nodup)
    (hos : ∀ o ∈ os, Reachable T mem root o) (block : ℕ) :
    (pointerSlots T mem block os).length ≤ mobsMaxObjects := by
  rw [length_pointerSlots_eq_sum, ← sum_toFinset _ hd]
  refine (Finset.sum_le_sum_of_subset fun o ho => ?_).trans hg.pointers_le
  exact (hg.reachable o).mpr (hos o (List.mem_toFinset.mp ho))

theorem closed_reachable : ClosedUnderPointers T mem (Reachable T mem root) :=
  fun _ _ h hp => h.tail hp

theorem ObjectGraph.registering (hg : ObjectGraph T mem root objects) :
    Registering T mem (Reachable T mem root) 1 (rootBase root) (rootBase root) [] where
  objects := prefix_refl _
  shared := rfl
  pointers := (append_nil _).symm
  null := rfl
  distinct := by
    refine pairwise_pair.mpr fun h => ?_
    have := h.1
    have haddr := hg.rootAddress
    rw [this] at haddr
    cases haddr
  start_le := by simp [rootBase]
  bounded := by simp [rootBase, mobsMaxObjects]
  found := by
    intro o ho
    rw [mem_singleton.mp ho]
    exact .refl
  referred := fun _ hs => absurd hs not_mem_nil

/-- A pointer member that cannot be registered is NULL without a disambiguator. -/
theorem ObjectGraph.not_nullsDisambiguated (hg : ObjectGraph T mem root objects) {block : ℕ}
    (hos : ∀ o' ∈ os ++ [o], Reachable T mem root o') (hd : Distinct (os ++ [o]))
    (h : Unregistrables T mem (Reachable T mem root) 1 (rootBase root)
      (pointerSlots T mem block os) (block + os.length) o) : ¬NullsDisambiguated T mem objects := by
  have ho : o ∈ objects := (hg.reachable o).mpr (hos o (by simp))
  cases h with
  | visits hnone =>
    obtain ⟨c, hc⟩ := isSome_iff_exists.mp (hg.readable o ho)
    simp only [objectChunk, bind_eq_bind, bind_eq_some_iff] at hc
    obtain ⟨_, _, _, _, vs, hvs, _⟩ := hc
    exact absurd hvs (hnone vs)
  | @member base past rest s hslots hreg hbad =>
    obtain ⟨s', hs', rfl⟩ : ∃ s' ∈ objectSlots T mem 0 o, { s' with block := block + os.length } = s := by
      rw [objectSlots_block] at hslots
      refine List.mem_map.mp ?_
      rw [← hslots]
      simp
    cases hbad with
    | referent hnone =>
      obtain ⟨hread, hsome⟩ := hg.targets o ho s' hs'
      obtain ⟨referred, hr⟩ := isSome_iff_exists.mp hread
      rw [referent_block] at hnone
      rcases referred with _ | r
      · intro hnulls
        have hd := hnulls o ho s' hs' hr
        simp only [PointerSlot.referent, hr, bind_eq_bind, bind_some,
          bind_eq_none_iff] at hnone
        obtain ⟨d, hd⟩ := isSome_iff_exists.mp hd
        exact absurd (hnone d hd) (by simp)
      · rw [hnone] at hsome
        exact absurd (hsome (by rw [hr]; simp)) (by simp)
    | @objects r href hnone hfull =>
      exfalso
      have hr : Reachable T mem root r := closed_reachable o r (hos o (by simp))
        ⟨hreg.null_found hnone, 0, s', hs', href⟩
      have hlen := hg.length_le (base.objectSet.drop 1 ++ [r])
        ((hreg.distinct.snoc hnone).nodup.sublist
          ((drop_sublist 1 _).append (Sublist.refl [r])))
        (fun o' ho' => by
          rcases mem_append.mp ho' with ho' | ho'
          · exact hreg.found o' ho'
          · rwa [mem_singleton.mp ho'])
      simp only [length_append, length_drop, length_singleton] at hlen
      omega
    | pointers hfull =>
      exfalso
      have hlen := hg.pointers_length_le hd.nodup hos block
      rw [pointerSlots_append, length_append] at hlen
      have hpast : past.length < (objectSlots T mem (block + os.length) o).length := by
        rw [← hslots]
        simp
      have hpms := congrArg List.length hreg.pointers
      simp only [rootBase, baseMobsInit, nil_append, length_map, length_append] at hpms
      simp only [pointerSlots, append_nil] at hlen
      omega

/-! ## Registration -/

theorem referent_eq_some_iff {s : PointerSlot} {r : Mob} :
    s.referent T mem = some r ↔ ∃ d, mem.readPointer s.source = some r.address ∧
      objDisambiguator T mem r.address s.visit.descriptor (some (s.visit.parent.mob s.object)) =
        some d ∧ r = ⟨r.address, s.visit.descriptor.type, d⟩ := by
  simp only [PointerSlot.referent, bind_eq_bind, bind_eq_some_iff]
  constructor
  · rintro ⟨referred, hr, d, hd, h⟩
    cases h
    exact ⟨d, hr, hd, rfl⟩
  · rintro ⟨d, hr, hd, heq⟩
    exact ⟨r.address, hr, d, hd, heq ▸ rfl⟩

/-- All objects of the graph are registered. -/
theorem ObjectGraph.mem_registered (hg : ObjectGraph T mem root objects) {block : ℕ}
    (h : Registered T mem (Reachable T mem root) 1 block (rootBase root) base) (ho : o ∈ objects) :
    o ∈ base.objectSet.drop 1 := by
  have hroot : root ∈ base.objectSet.drop 1 := by
    obtain ⟨more, hmore⟩ := h.objects
    rw [← hmore]
    simp [rootBase]
  have hall : ∀ o, Reachable T mem root o → o ∈ base.objectSet.drop 1 := by
    intro o hr
    induction hr with
    | refl => exact hroot
    | @tail o r hro hp ih =>
      have hr := hro.tail hp
      obtain ⟨hsome, block', s, hs, href⟩ := hp
      rw [objectSlots_block] at hs
      obtain ⟨s', hs', rfl⟩ := List.mem_map.mp hs
      obtain ⟨block'', hmem⟩ := mem_pointerSlots block ih hs'
      obtain ⟨r', i, href', hi⟩ := h.referred _ hmem
      rw [referent_block] at href href'
      rw [href] at href'
      cases href'
      obtain ⟨⟨o', ho', hm⟩, _⟩ := mobsHasObject_eq_some_iff.mp hi
      have hmem' : o' ∈ base.objectSet.drop 1 := by
        rcases i with _ | i
        · rw [h.null] at ho'
          cases ho'
          have := hm.1
          rw [this] at hsome
          cases hsome
        · exact mem_iff_getElem?.mpr ⟨i, by rw [getElem?_drop, Nat.add_comm, ho']⟩
      have heq : r = o' := by
        refine hg.keyed r ((hg.reachable r).mpr hr) o'
          ((hg.reachable o').mpr (h.found o' hmem')) hm.1 ?_
        rcases hm.2 with ht | hn
        · exact ht.symm
        · rw [hn] at hsome
          cases hsome
      rwa [heq]
  exact hall o ((hg.reachable o).mp ho)

/-- **All objects of a graph are registered when the NULL pointers have disambiguators**, and else
the registration faults. -/
theorem ObjectGraph.registerObjects_cases (hg : ObjectGraph T mem root objects)
    (hshared : T.hasSharedObjects = false) (block : ℕ) :
    NullsDisambiguated T mem objects ∧ (∃ base,
      registerObjects T mem 1 (rootBase root) = some base ∧
      Registered T mem (Reachable T mem root) 1 block (rootBase root) base) ∨
      ¬NullsDisambiguated T mem objects ∧ registerObjects T mem 1 (rootBase root) = none := by
  rcases iteration_registers closed_reachable hg.registering block with
    ⟨base, hiter, hreg⟩ | ⟨hnone, os, o, hos, hd, hbad⟩
  · left
    refine ⟨fun o ho s hs hnull => ?_, base, ?_, hreg⟩
    · obtain ⟨block', hmem⟩ := mem_pointerSlots block (hg.mem_registered hreg ho) hs
      obtain ⟨r, i, href, _⟩ := hreg.referred _ hmem
      obtain ⟨d, hr, hd, _⟩ := referent_eq_some_iff.mp href
      have haddr : some none = some r.address := hnull.symm.trans hr
      rw [← some.inj haddr] at hd
      exact isSome_iff_exists.mpr ⟨d, hd⟩
    · simp [registerObjects, hiter, registerShared, hshared]
  · exact .inr ⟨hg.not_nullsDisambiguated hos hd hbad, by simp [registerObjects, hnone]⟩

end Mh40.Marshal
