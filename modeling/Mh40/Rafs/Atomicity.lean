import Mh40.Rafs.CrashSafe
import Mh40.Rafs.SectorMap

/-!
# A loss of power while a file is closed, opened or removed

`Rafs_DoClose`, `rafs_doOpenRead` and `Rafs_DoRemove` write one entry of the primary table and then
the same entry of the secondary. A loss of power between two of these writes leaves the slot in two
minds, and `Rafs_CheckDirectoryEntries` settles it at the next mount, with two gaps: it stops at the
first slot whose first characters are both erased, although the allocator never hands such a slot
out again when a byte of it is written; and it does not look at the access counts.

* `FileOp` — the three operations with their writes;
* `Agree` — tables that agree, with what earlier losses of power may have left in them;
* `Atomic` — what the next mount shall find;
* `Settled` — the condition, `crash_atomic_iff` that it is the exact one.
-/

namespace Mh40.Rafs

open Lib.Flash List Option

/-! ## The operations -/

/-- The operations that write the directory: the close of a file that was open for writing, with
its finished entry and its slot, the open for reading, and the removal. -/
inductive FileOp where
  | close (fileDirEntry : Dirent) (directoryIndex : ℕ)
  | openRead (filename : Fin 16 → BitVec 8)
  | remove (filename : Fin 16 → BitVec 8)

namespace FileOp

/-- The slot that the operation writes. -/
def slot (v : Volume) : FileOp → Option ℕ
  | .close _ n => some n
  | .openRead filename | .remove filename =>
    findDirEntryByFilename (v.now .priFat) v.freeDirSlot filename

/-- The access count that an open for reading leaves. -/
def accessed (d : Dirent) : BitVec 16 := d.accessCount <<< 1

/-- The writes of `Rafs_DoClose`, `rafs_doOpenRead` and `Rafs_DoRemove` to the slot `n`. -/
def writes (v : Volume) (n : ℕ) : FileOp → Volume
  | .close d _ => (v.dirEntryWrite .priFat d n).dirEntryWrite .secFat d n
  | .openRead _ =>
    let count := accessed (v.now .priFat n)
    (v.dirEntryWriteMember .priFat (.accessPart count) n).dirEntryWriteMember .secFat
      (.accessPart count) n
  | .remove _ =>
    (v.dirEntryWriteMember .priFat (.firstPart 0) n).dirEntryWriteMember .secFat (.firstPart 0) n

end FileOp

/-- The flash that a loss of power leaves after `m` of the writes. -/
def imageAfter (v : Volume) (m : ℕ) : Option Fats := v.flash.images.reverse[m]?

/-! ## Tables that agree -/

/-- The entries of a slot tell the same, and hold the same when they tell of a file. -/
structure SlotAgrees (pri sec : Dirent) : Prop where
  type : classifyDirent pri.first = classifyDirent sec.first
  known : classifyDirent pri.first ≠ .unknown
  file : classifyDirent pri.first = .file → pri = sec

/-- Both tables in use up to slot `k`: the slots below hold something in the primary (a file, a
deleted one, or what was left of a file that was never closed), the slots from `k` on are erased. -/
structure Agree (k : ℕ) (f : Fats) : Prop where
  bound : 0 < k ∧ k ≤ maxDirEntries
  root : ∀ id, f id rootDirentNumber = getInitialRoot id
  used : ∀ i, 0 < i → i < k → SlotAgrees (f .priFat i) (f .secFat i) ∧ f .priFat i ≠ ⊤
  free : ∀ i, k ≤ i → i < maxDirEntries → ∀ id, f id i = ⊤

/-- Some of the entry was written, but not its first character. -/
def PartlyWritten (d : Dirent) : Prop := classifyDirent d.first = .erased ∧ d ≠ ⊤

/-- The entry but for its access count. -/
def Dirent.unaccessed (d : Dirent) : Dirent := { d with accessCount := 0 }

/-- The file of the operation is completely there or not at all. -/
def FileOp.Whole (f : Fats) (n : ℕ) (w : Fats) : FileOp → Prop
  | .close d _ => (∀ id, w id n = d) ∨ ∀ id, classifyDirent (w id n).first = .erased
  | .openRead _ => ∀ id, (w id n).unaccessed = (f .priFat n).unaccessed
  | .remove _ => (∀ id, w id n = f .priFat n) ∨ ∀ id, classifyDirent (w id n).first = .deleted

/-- What the next mount shall make of the image `g` that was left of the tables `f`. -/
def Atomic (qsort : Qsort) (f g : Fats) (op : FileOp) (n : ℕ) : Prop :=
  ∃ w k, checkIntegrity qsort (.boot g) = some (.ok, w) ∧ Agree k w.now ∧
    (∀ i, i ≠ n → ∀ id, w.now id i = f id i) ∧ op.Whole f n w.now ∧
    ∀ numBlocks m slot sequence,
      scanDirectory numBlocks (w.now .priFat) w.sequenceNumber = some (m, slot, sequence) →
      ∀ i id, 0 < i → i < maxDirEntries → PartlyWritten (w.now id i) → i < slot

section

local instance neZero_filename : NeZero 16 := ⟨by decide⟩

/-- The operation is one that the file system makes: a close writes the entry of a valid name to
the slot that was handed out for it, the names of the others are valid. -/
def FileOp.Valid (k : ℕ) : FileOp → Prop
  | .close d n => n = k ∧ n < maxDirEntries ∧ classifyDirent d.first = .file ∧ d.filename 15 = 0
  | .openRead filename | .remove filename => classifyDirent (filename 0) = .file

end

/-- The crash points that the check settles: a close that has marked the primary and not the
secondary, or a removal between the tables, with no slot before it whose first character is erased;
an open for reading between the tables, when the access count has no bit left to lose. -/
def FileOp.Settled (f : Fats) (n m : ℕ) : FileOp → Prop
  | .close _ _ => m = 2 ∨ m = 3 → ∀ i, 0 < i → i < n → classifyDirent (f .priFat i).first ≠ .erased
  | .openRead _ => m = 1 → (f .priFat n).accessCount = 0
  | .remove _ => m = 1 → ∀ i, 0 < i → i < n → classifyDirent (f .priFat i).first ≠ .erased

/-! ## The check of the entries -/

section Check

variable {f : Fats} {v : Volume}

/-- The first characters of the slot tell the same. -/
def TypeAgrees (f : Fats) (i : ℕ) : Prop :=
  classifyDirent (f .priFat i).first = classifyDirent (f .secFat i).first ∧
    classifyDirent (f .priFat i).first ≠ .unknown

/-- The check passes over slots in use that agree. -/
theorem check_pass {ds es : List ℕ} (h : ∀ i ∈ ds, TypeAgrees v.now i)
    (hused : ∀ i ∈ ds, classifyDirent (v.now .priFat i).first ≠ .erased) :
    checkDirectoryEntriesFrom (ds ++ es) v = checkDirectoryEntriesFrom es v := by
  induction ds with
  | nil => rfl
  | cons d ds ih =>
    obtain ⟨hty, hkn⟩ := h d mem_cons_self
    have he := hused d mem_cons_self
    have ih := ih (fun i hi => h i (mem_cons_of_mem _ hi))
      fun i hi => hused i (mem_cons_of_mem _ hi)
    rw [cons_append, checkDirectoryEntriesFrom]
    simp only [← hty]
    cases hc : classifyDirent (v.now .priFat d).first with
    | unknown => exact absurd hc hkn
    | erased => exact absurd hc he
    | file => simp [ih]
    | deleted => simp [ih]

/-- It changes nothing when every slot agrees. -/
theorem check_quiet {ds : List ℕ} (h : ∀ i ∈ ds, TypeAgrees v.now i) :
    checkDirectoryEntriesFrom ds v = (.ok, v) := by
  induction ds with
  | nil => rfl
  | cons d ds ih =>
    obtain ⟨hty, hkn⟩ := h d mem_cons_self
    have ih := ih fun i hi => h i (mem_cons_of_mem _ hi)
    rw [checkDirectoryEntriesFrom]
    simp only [← hty]
    cases hc : classifyDirent (v.now .priFat d).first with
    | unknown => exact absurd hc hkn
    | erased => simp
    | file => simp [ih]
    | deleted => simp [ih]

/-- It goes no further than a slot with both first characters erased. -/
theorem check_stops {ds es : List ℕ} (h : ∀ i ∈ ds, TypeAgrees v.now i)
    (herased : ∃ i ∈ ds, classifyDirent (v.now .priFat i).first = .erased) :
    checkDirectoryEntriesFrom (ds ++ es) v = (.ok, v) := by
  induction ds with
  | nil => simp at herased
  | cons d ds ih =>
    obtain ⟨hty, hkn⟩ := h d mem_cons_self
    rw [cons_append, checkDirectoryEntriesFrom]
    simp only [← hty]
    cases hc : classifyDirent (v.now .priFat d).first with
    | unknown => exact absurd hc hkn
    | erased => simp
    | file | deleted =>
      have herased : ∃ i ∈ ds, classifyDirent (v.now .priFat i).first = .erased := by
        obtain ⟨i, hi, he⟩ := herased
        rcases mem_cons.mp hi with rfl | hi
        · rw [hc] at he
          cases he
        · exact ⟨i, hi, he⟩
      simp [ih (fun i hi => h i (mem_cons_of_mem _ hi)) herased]

/-- With both roots in place the check is that of the entries. -/
theorem checkIntegrity_of_roots (qsort : Qsort)
    (h : ∀ id, f id rootDirentNumber = getInitialRoot id) :
    checkIntegrity qsort (.boot f) = some (checkDirectoryEntries (.boot f)) := by
  have : checkFileAllocationTables qsort (.boot f) = some (true, .boot f) :=
    if_pos ⟨h .priFat, h .secFat⟩
  rw [checkIntegrity, this, map_some, if_pos rfl]

end Check

/-! ## One slot in two minds -/

/-- The tables with the two entries of one slot replaced. -/
def setSlot (f : Fats) (n : ℕ) (pri sec : Dirent) : Fats := fun id i =>
  if i = n then (match id with | .priFat => pri | .secFat => sec) else f id i

section Slots

variable {f : Fats} {n k : ℕ} {p s : Dirent}

@[simp] theorem setSlot_pri : setSlot f n p s .priFat n = p := by simp [setSlot]

@[simp] theorem setSlot_sec : setSlot f n p s .secFat n = s := by simp [setSlot]

theorem setSlot_of_ne {i : ℕ} (h : i ≠ n) (id : BlockId) : setSlot f n p s id i = f id i := if_neg h

theorem setSlot_self (f : Fats) (n : ℕ) : setSlot f n (f .priFat n) (f .secFat n) = f := by
  funext id i
  by_cases h : i = n
  · subst h
    cases id <;> simp
  · exact if_neg h

theorem apply_program_pri (x : Dirent) :
    (Op.program .priFat n x).apply (setSlot f n p s) = setSlot f n (p ⊓ x) s := by
  funext id i
  by_cases h : i = n
  · subst h
    cases id with
    | priFat => simp
    | secFat => rw [apply_program_of_ne (by decide)]; simp
  · rw [apply_program_cell_ne _ h, setSlot_of_ne h, setSlot_of_ne h]

theorem apply_program_sec (x : Dirent) :
    (Op.program .secFat n x).apply (setSlot f n p s) = setSlot f n p (s ⊓ x) := by
  funext id i
  by_cases h : i = n
  · subst h
    cases id with
    | priFat => rw [apply_program_of_ne (by decide)]; simp
    | secFat => simp
  · rw [apply_program_cell_ne _ h, setSlot_of_ne h, setSlot_of_ne h]

theorem Agree.typeAgrees (h : Agree k f) {i : ℕ} (h0 : 0 < i) (hi : i < maxDirEntries) :
    TypeAgrees f i := by
  by_cases hik : i < k
  · exact ⟨(h.used i h0 hik).1.type, (h.used i h0 hik).1.known⟩
  · have hfree := h.free i (not_lt.mp hik) hi
    rw [TypeAgrees, hfree, hfree]
    exact ⟨rfl, by decide⟩

theorem Agree.root_setSlot (h : Agree k f) (h0 : 0 < n) (id : BlockId) :
    setSlot f n p s id rootDirentNumber = getInitialRoot id := by
  rw [setSlot_of_ne (by unfold rootDirentNumber; omega), h.root]

/-- The slots that the check visits, split at `n`. -/
theorem slots_split (h0 : 0 < n) (hn : n < maxDirEntries) :
    List.range' 1 (maxDirEntries - 1)
      = List.range' 1 (n - 1) ++ n :: List.range' (n + 1) (maxDirEntries - 1 - n) := by
  have hcons : n :: List.range' (n + 1) (maxDirEntries - 1 - n)
      = List.range' n (maxDirEntries - n) := by
    rw [show maxDirEntries - n = maxDirEntries - 1 - n + 1 by omega, range'_succ]
  rw [hcons, show List.range' n (maxDirEntries - n)
      = List.range' (1 + 1 * (n - 1)) (maxDirEntries - n) by rw [one_mul, Nat.add_sub_cancel' h0],
    range'_append, show n - 1 + (maxDirEntries - n) = maxDirEntries - 1 by omega]

/-- A slot that still agrees is left as it is. -/
theorem checkIntegrity_quiet (qsort : Qsort) (h : Agree k f) (h0 : 0 < n)
    (hty : classifyDirent p.first = classifyDirent s.first) (hkn : classifyDirent p.first ≠ .unknown) :
    checkIntegrity qsort (.boot (setSlot f n p s)) = some (.ok, .boot (setSlot f n p s)) := by
  rw [checkIntegrity_of_roots qsort (h.root_setSlot h0), checkDirectoryEntries, check_quiet]
  intro i hi
  rw [mem_range'_1] at hi
  by_cases hin : i = n
  · subst hin
    simpa [TypeAgrees, Volume.now, Volume.boot, Log.start] using ⟨hty, hkn⟩
  · have := h.typeAgrees (i := i) (by omega) (by omega)
    simpa [TypeAgrees, Volume.now, Volume.boot, Log.start, setSlot_of_ne hin] using this

/-- Behind a slot with erased first characters nothing is repaired. -/
theorem checkIntegrity_blocked (qsort : Qsort) (h : Agree k f) (h0 : 0 < n) (hn : n < maxDirEntries)
    (herased : ∃ i, 0 < i ∧ i < n ∧ classifyDirent (f .priFat i).first = .erased) :
    checkIntegrity qsort (.boot (setSlot f n p s)) = some (.ok, .boot (setSlot f n p s)) := by
  rw [checkIntegrity_of_roots qsort (h.root_setSlot h0), checkDirectoryEntries, slots_split h0 hn,
    check_stops]
  · intro i hi
    rw [mem_range'_1] at hi
    have := h.typeAgrees (i := i) (by omega) (by omega)
    simpa [TypeAgrees, Volume.now, Volume.boot, Log.start, setSlot_of_ne (show i ≠ n by omega)]
      using this
  · obtain ⟨i, hi0, hin, he⟩ := herased
    refine ⟨i, by rw [mem_range'_1]; omega, ?_⟩
    simpa [Volume.now, Volume.boot, Log.start, setSlot_of_ne (show i ≠ n by omega)] using he

/-- The first slot in two minds is repaired from the primary, and it is the only one. -/
theorem checkIntegrity_repaired (qsort : Qsort) (h : Agree k f) (h0 : 0 < n)
    (hn : n < maxDirEntries)
    (hused : ∀ i, 0 < i → i < n → classifyDirent (f .priFat i).first ≠ .erased)
    (hminds : classifyDirent p.first = .file ∧ classifyDirent s.first = .erased ∨
      classifyDirent p.first = .deleted ∧ classifyDirent s.first = .file) :
    ∃ w, checkIntegrity qsort (.boot (setSlot f n p s)) = some (.ok, w) ∧
      w.now = setSlot f n p
        (if classifyDirent p.first = .file then s ⊓ p else s ⊓ .firstPart p.first) := by
  have hpre : ∀ i ∈ List.range' 1 (n - 1), i ≠ n ∧ TypeAgrees f i ∧
      classifyDirent (f .priFat i).first ≠ .erased := by
    intro i hi
    rw [mem_range'_1] at hi
    exact ⟨by omega, h.typeAgrees (by omega) (by omega), hused i (by omega) (by omega)⟩
  have hpost : ∀ i ∈ List.range' (n + 1) (maxDirEntries - 1 - n), i ≠ n ∧ TypeAgrees f i := by
    intro i hi
    rw [mem_range'_1] at hi
    exact ⟨by omega, h.typeAgrees (by omega) (by omega)⟩
  have hrest : ∀ {w : Volume} {x : Dirent}, w.now = setSlot f n p x →
      checkDirectoryEntriesFrom (List.range' (n + 1) (maxDirEntries - 1 - n)) w = (.ok, w) := by
    intro w x hw
    refine check_quiet fun i hi => ?_
    obtain ⟨hin, hag⟩ := hpost i hi
    rwa [TypeAgrees, hw, setSlot_of_ne hin, setSlot_of_ne hin]
  have hnow : (Volume.boot (setSlot f n p s)).now = setSlot f n p s := rfl
  rw [checkIntegrity_of_roots qsort (h.root_setSlot h0), checkDirectoryEntries, slots_split h0 hn,
    check_pass (fun i hi => ?_) (fun i hi => ?_)]
  · rw [checkDirectoryEntriesFrom]
    simp only [hnow, setSlot_pri, setSlot_sec]
    rcases hminds with ⟨hp, hs⟩ | ⟨hp, hs⟩
    · set w := (Volume.boot (setSlot f n p s)).dirEntryWrite .secFat p n with hw
      have hwnow : w.now = setSlot f n p (s ⊓ p) := by
        have h1 := apply_program_sec (f := f) (n := n) (p := p) (s := s) p.dataPart
        have h2 := apply_program_sec (f := f) (n := n) (p := p) (s := s ⊓ p.dataPart)
          (.firstPart p.first)
        rw [inf_assoc, Dirent.dataPart_inf_firstPart, ← h1] at h2
        exact h2
      refine ⟨w, ?_, by rw [if_pos hp, hwnow]⟩
      simp [hp, hs, hrest hwnow]
    · set w := (Volume.boot (setSlot f n p s)).dirEntryWriteMember .secFat (.firstPart p.first) n
        with hw
      have hwnow : w.now = setSlot f n p (s ⊓ .firstPart p.first) := apply_program_sec _
      refine ⟨w, ?_, by rw [hp, if_neg (by decide), hwnow]⟩
      simp [hp, hs, hrest hwnow]
  · rw [TypeAgrees, hnow, setSlot_of_ne (hpre i hi).1, setSlot_of_ne (hpre i hi).1]
    exact (hpre i hi).2.1
  · rw [hnow, setSlot_of_ne (hpre i hi).1]
    exact (hpre i hi).2.2

end Slots

/-! ## What the check makes of each crash point -/

section Outcomes

variable {f : Fats} {n k : ℕ} {p s : Dirent} {w : Volume}

theorem SlotAgrees.refl {d : Dirent} (h : classifyDirent d.first ≠ .unknown) : SlotAgrees d d :=
  ⟨rfl, h, fun _ => rfl⟩

theorem Agree.slotAgrees (h : Agree k f) {i : ℕ} (h0 : 0 < i) (hi : i < maxDirEntries) :
    SlotAgrees (f .priFat i) (f .secFat i) := by
  by_cases hik : i < k
  · exact (h.used i h0 hik).1
  · have hfree := h.free i (not_lt.mp hik) hi
    rw [hfree, hfree]
    exact .refl (by decide)

theorem Agree.setSlot_used (h : Agree k f) (h0 : 0 < n) (hn : n < k) (hs : SlotAgrees p s)
    (hp : p ≠ ⊤) : Agree k (setSlot f n p s) where
  bound := h.bound
  root := h.root_setSlot h0
  used i hi hik := by
    by_cases hin : i = n
    · subst hin
      simpa using ⟨hs, hp⟩
    · rw [setSlot_of_ne hin, setSlot_of_ne hin]
      exact h.used i hi hik
  free i hki hi id := by
    rw [setSlot_of_ne (by omega)]
    exact h.free i hki hi id

theorem Agree.setSlot_next (h : Agree k f) (hk : k < maxDirEntries) (hs : SlotAgrees p s)
    (hp : p ≠ ⊤) : Agree (k + 1) (setSlot f k p s) where
  bound := ⟨Nat.succ_pos k, hk⟩
  root := h.root_setSlot h.bound.1
  used i hi hik := by
    by_cases hin : i = k
    · subst hin
      simpa using ⟨hs, hp⟩
    · rw [setSlot_of_ne hin, setSlot_of_ne hin]
      exact h.used i hi (by omega)
  free i hki hi id := by
    rw [setSlot_of_ne (by omega)]
    exact h.free i (by omega) hi id

/-- The scan hands out an erased slot, or none. -/
theorem scanDirectoryFrom_slot {fat : ℕ → Dirent} {ds : List ℕ} {m m' : SectorMap} {slot slot' : ℕ}
    {sequence sequence' : BitVec 16}
    (h : scanDirectoryFrom fat ds m slot sequence = some (m', slot', sequence')) :
    slot' = slot ∨ fat slot' = ⊤ := by
  induction ds generalizing m sequence with
  | nil =>
    obtain ⟨-, h⟩ := Prod.mk.inj (some.inj h)
    exact .inl (Prod.mk.inj h).1.symm
  | cons d ds ih =>
    rw [scanDirectoryFrom] at h
    by_cases he : isErasedData (fat d)
    · rw [if_pos he] at h
      obtain ⟨-, h⟩ := Prod.mk.inj (some.inj h)
      rw [← (Prod.mk.inj h).1]
      exact .inr (by simpa [isErasedData] using he)
    · rw [if_neg he] at h
      by_cases hd : isDeletedEntry (fat d)
      · rw [if_pos hd] at h
        exact ih h
      · rw [if_neg hd] at h
        simp only [bind_eq_bind, bind_eq_some_iff] at h
        obtain ⟨⟨ok, m₁⟩, -, h⟩ := h
        cases ok with
        | true => exact ih h
        | false =>
          obtain ⟨-, h⟩ := Prod.mk.inj (some.inj h)
          exact .inl (Prod.mk.inj h).1.symm

/-- A slot of which anything was written lies below the slot that the scan hands out. -/
theorem partlyWritten_lt_freeDirSlot (h : Agree k w.now) {numBlocks slot : ℕ} {m : SectorMap}
    {sequence : BitVec 16}
    (hscan : scanDirectory numBlocks (w.now .priFat) w.sequenceNumber = some (m, slot, sequence))
    {i : ℕ} {id : BlockId} (hi : i < maxDirEntries) (hp : PartlyWritten (w.now id i)) :
    i < slot := by
  have hik : i < k := by
    by_contra hki
    exact hp.2 (h.free i (not_lt.mp hki) hi id)
  simp only [scanDirectory, bind_eq_bind, bind_eq_some_iff] at hscan
  obtain ⟨⟨_, m₁⟩, -, ⟨_, m₂⟩, -, hfrom⟩ := hscan
  rcases scanDirectoryFrom_slot hfrom with rfl | htop
  · exact hi
  · by_contra hlt
    rcases Nat.eq_zero_or_pos slot with rfl | hpos
    · have hroot := h.root .priFat
      rw [rootDirentNumber, htop] at hroot
      have := congrArg Dirent.first hroot
      rw [first_getInitialRoot] at this
      exact absurd this (by decide)
    · exact (h.used slot hpos (by omega)).2 htop

theorem atomic_of_check {qsort : Qsort} {g : Fats} {op : FileOp}
    (hw : checkIntegrity qsort (.boot g) = some (.ok, w)) (hnow : w.now = setSlot f n p s)
    (hagree : Agree k w.now) (hwhole : op.Whole f n (setSlot f n p s)) : Atomic qsort f g op n :=
  ⟨w, k, hw, hagree, fun i hi id => by rw [hnow, setSlot_of_ne hi], hnow ▸ hwhole,
    fun _ _ _ _ hscan _ _ _ hi hp => partlyWritten_lt_freeDirSlot hagree hscan hi hp⟩

theorem not_atomic_of_check {qsort : Qsort} {g : Fats} {op : FileOp}
    (hw : checkIntegrity qsort (.boot g) = some (.ok, w)) (hnow : w.now = setSlot f n p s)
    (h0 : 0 < n) (hn : n < maxDirEntries) (hs : ¬SlotAgrees p s) : ¬Atomic qsort f g op n := by
  rintro ⟨w', k', hw', hagree, -⟩
  rw [hw] at hw'
  obtain rfl := (Prod.mk.inj (some.inj hw')).2
  have := hagree.slotAgrees h0 hn
  rw [hnow] at this
  exact hs (by simpa using this)

end Outcomes

/-! ## The three operations -/

section Operations

variable {f g : Fats} {n k m slot : ℕ} {sequence : BitVec 16} {d a : Dirent} (qsort : Qsort)
  {filename : Fin 16 → BitVec 8}

theorem Dirent.dataPart_inf_self (d : Dirent) : d.dataPart ⊓ d = d := by
  calc d.dataPart ⊓ d = d.dataPart ⊓ (d.dataPart ⊓ .firstPart d.first) := by
        rw [Dirent.dataPart_inf_firstPart]
    _ = d := by rw [← inf_assoc, inf_idem, Dirent.dataPart_inf_firstPart]

/-- The images of a close: nothing, the data, the entry of the primary, then the same of the
secondary. -/
theorem close_images (hfree : ∀ id, f id n = ⊤)
    (hg : imageAfter (FileOp.writes ⟨.start f, slot, sequence⟩ n (.close d n)) m = some g) :
    (m = 0 ∧ g = setSlot f n ⊤ ⊤) ∨ (m = 1 ∧ g = setSlot f n d.dataPart ⊤) ∨
      (m = 2 ∧ g = setSlot f n d ⊤) ∨ (m = 3 ∧ g = setSlot f n d d.dataPart) ∨
      (m = 4 ∧ g = setSlot f n d d) := by
  have h0 : setSlot f n ⊤ ⊤ = f := by
    have := setSlot_self f n
    rwa [hfree, hfree] at this
  have h1 : (Op.program .priFat n d.dataPart).apply f = setSlot f n d.dataPart ⊤ := by
    rw [← h0, apply_program_pri, top_inf_eq, h0]
  have h2 : (Op.program .priFat n (.firstPart d.first)).apply (setSlot f n d.dataPart ⊤)
      = setSlot f n d ⊤ := by
    rw [apply_program_pri, Dirent.dataPart_inf_firstPart]
  have h3 : (Op.program .secFat n d.dataPart).apply (setSlot f n d ⊤)
      = setSlot f n d d.dataPart := by
    rw [apply_program_sec, top_inf_eq]
  have h4 : (Op.program .secFat n (.firstPart d.first)).apply (setSlot f n d d.dataPart)
      = setSlot f n d d := by
    rw [apply_program_sec, Dirent.dataPart_inf_firstPart]
  have himages : (FileOp.writes ⟨.start f, slot, sequence⟩ n (.close d n)).flash.images.reverse
      = [f, setSlot f n d.dataPart ⊤, setSlot f n d ⊤, setSlot f n d d.dataPart,
        setSlot f n d d] := by
    rw [← h4, ← h3, ← h2, ← h1]
    rfl
  rw [imageAfter, himages] at hg
  match m, hg with
  | 0, hg => exact .inl ⟨rfl, (some.inj hg).symm.trans h0.symm⟩
  | 1, hg => exact .inr (.inl ⟨rfl, (some.inj hg).symm⟩)
  | 2, hg => exact .inr (.inr (.inl ⟨rfl, (some.inj hg).symm⟩))
  | 3, hg => exact .inr (.inr (.inr (.inl ⟨rfl, (some.inj hg).symm⟩)))
  | 4, hg => exact .inr (.inr (.inr (.inr ⟨rfl, (some.inj hg).symm⟩)))

/-- The images of an operation that writes the same `x` over the entry of both tables. -/
theorem both_images (ha : ∀ id, f id n = a) {x : Dirent}
    (hg : imageAfter (((⟨.start f, slot, sequence⟩ : Volume).dirEntryWriteMember .priFat x
      n).dirEntryWriteMember .secFat x n) m = some g) :
    (m = 0 ∧ g = setSlot f n a a) ∨ (m = 1 ∧ g = setSlot f n (a ⊓ x) a) ∨
      (m = 2 ∧ g = setSlot f n (a ⊓ x) (a ⊓ x)) := by
  have h0 : setSlot f n a a = f := by
    have := setSlot_self f n
    rwa [ha, ha] at this
  have h1 : (Op.program .priFat n x).apply f = setSlot f n (a ⊓ x) a := by
    rw [← h0, apply_program_pri, h0]
  have h2 : (Op.program .secFat n x).apply (setSlot f n (a ⊓ x) a)
      = setSlot f n (a ⊓ x) (a ⊓ x) := apply_program_sec x
  have himages : (((⟨.start f, slot, sequence⟩ : Volume).dirEntryWriteMember .priFat x
      n).dirEntryWriteMember .secFat x n).flash.images.reverse
      = [f, setSlot f n (a ⊓ x) a, setSlot f n (a ⊓ x) (a ⊓ x)] := by
    rw [← h2, ← h1]
    rfl
  rw [imageAfter, himages] at hg
  match m, hg with
  | 0, hg => exact .inl ⟨rfl, (some.inj hg).symm.trans h0.symm⟩
  | 1, hg => exact .inr (.inl ⟨rfl, (some.inj hg).symm⟩)
  | 2, hg => exact .inr (.inr ⟨rfl, (some.inj hg).symm⟩)

theorem close_atomic_iff (h : Agree k f) (hk : k < maxDirEntries)
    (hfile : classifyDirent d.first = .file) (hnul : d.filename 15 = 0)
    (hg : imageAfter (FileOp.writes ⟨.start f, slot, sequence⟩ k (.close d k)) m = some g) :
    Atomic qsort f g (.close d k) k ↔ (FileOp.close d k).Settled f k m := by
  have h0 := h.bound.1
  have hfree := h.free k le_rfl hk
  have htop : classifyDirent (⊤ : Dirent).first = .erased := by decide
  have hdata : classifyDirent d.dataPart.first = .erased := by rw [Dirent.first_dataPart]; decide
  have hd : d ≠ ⊤ := by
    rintro rfl
    rw [htop] at hfile
    cases hfile
  have hdataTop : d.dataPart ≠ ⊤ := by
    intro he
    have h15 : d.dataPart.filename 15 = d.filename 15 := by simp [Dirent.dataPart]
    rw [he, hnul] at h15
    exact absurd h15 (by decide)
  -- the two crash points with the primary marked and the secondary not
  have hminds : ∀ s, classifyDirent s.first = .erased → s ⊓ d = d → g = setSlot f k d s →
      (Atomic qsort f g (.close d k) k ↔
        ∀ i, 0 < i → i < k → classifyDirent (f .priFat i).first ≠ .erased) := by
    rintro s hs hsd rfl
    constructor
    · intro hat
      by_contra hblocked
      push Not at hblocked
      refine not_atomic_of_check (checkIntegrity_blocked qsort h h0 hk hblocked) rfl h0 hk ?_ hat
      intro hag
      have := hag.type
      rw [hfile, hs] at this
      cases this
    · intro hused
      obtain ⟨w, hw, hnow⟩ := checkIntegrity_repaired qsort h h0 hk hused (.inl ⟨hfile, hs⟩)
      rw [if_pos hfile, hsd] at hnow
      refine atomic_of_check hw hnow (hnow ▸ h.setSlot_next hk (.refl (by simp [hfile])) hd) ?_
      exact .inl fun id => by cases id <;> simp
  have himages := close_images hfree hg
  clear hg
  rcases himages with ⟨rfl, rfl⟩ | ⟨rfl, rfl⟩ | ⟨rfl, hg⟩ | ⟨rfl, hg⟩ | ⟨rfl, rfl⟩
  · have hf : setSlot f k ⊤ ⊤ = f := by
      have := setSlot_self f k
      rwa [hfree, hfree] at this
    refine iff_of_true ?_ (by simp [FileOp.Settled])
    refine atomic_of_check (checkIntegrity_quiet qsort h h0 rfl (by decide)) rfl (k := k) ?_ ?_
    · rw [hf]
      exact h
    · exact .inr fun id => by cases id <;> simpa using htop
  · refine iff_of_true ?_ (by simp [FileOp.Settled])
    have hkn : classifyDirent d.dataPart.first ≠ .unknown := by rw [hdata]; decide
    have hag : SlotAgrees d.dataPart ⊤ :=
      ⟨by rw [hdata, htop], hkn, fun h => by rw [hdata] at h; cases h⟩
    refine atomic_of_check (checkIntegrity_quiet qsort h h0 hag.type hkn) rfl
      (h.setSlot_next hk hag hdataTop) (.inr fun id => ?_)
    cases id with
    | priFat => rw [setSlot_pri, hdata]
    | secFat => rw [setSlot_sec, htop]
  · rw [hminds ⊤ htop (top_inf_eq d) hg]
    simp [FileOp.Settled]
  · rw [hminds d.dataPart hdata d.dataPart_inf_self hg]
    simp [FileOp.Settled]
  · refine iff_of_true ?_ (by simp [FileOp.Settled])
    refine atomic_of_check (checkIntegrity_quiet qsort h h0 rfl (by simp [hfile])) rfl
      (h.setSlot_next hk (.refl (by simp [hfile])) hd) ?_
    exact .inl fun id => by cases id <;> simp

/-- What is found by its name is a file below the slots that are free. -/
theorem file_of_found (h : Agree k f) (hslot : slot ≤ maxDirEntries)
    (hname : classifyDirent (filename 0) = .file)
    (hfound : findDirEntryByFilename (f .priFat) slot filename = some n) :
    0 < n ∧ n < k ∧ n < maxDirEntries ∧ classifyDirent (f .priFat n).first = .file ∧
      ∀ id, f id n = f .priFat n := by
  have hmem := mem_of_find?_eq_some hfound
  have hsame := find?_some hfound
  rw [mem_range'_1] at hmem
  have hn : n < maxDirEntries := by
    have : n < 1 + (slot - 1) := hmem.2
    omega
  have hfirst : (f .priFat n).first = filename 0 :=
    of_decide_eq_true hsame 0 fun j hj => absurd hj (Fin.not_lt_zero j)
  have hfile : classifyDirent (f .priFat n).first = .file := by rw [hfirst, hname]
  have hnk : n < k := by
    by_contra hnk
    rw [h.free n (not_lt.mp hnk) hn] at hfile
    exact absurd hfile (by decide)
  refine ⟨hmem.1, hnk, hn, hfile, fun id => ?_⟩
  cases id with
  | priFat => rfl
  | secFat => exact ((h.used n hmem.1 hnk).1.file hfile).symm

/-- Shifting a count of accesses changes it unless no bit is left. -/
theorem and_shiftLeft_eq_self (x : BitVec 16) : x &&& x <<< 1 = x ↔ x = 0 := by
  constructor
  · intro h
    have hbit : ∀ i, x.getLsbD i = false := by
      intro i
      induction i with
      | zero =>
        have := congrArg (fun y => y.getLsbD 0) h
        simpa using this.symm
      | succ i ih =>
        have := congrArg (fun y => y.getLsbD (i + 1)) h
        simpa [ih] using this.symm
    exact BitVec.eq_of_getLsbD_eq fun i _ => by simp [hbit]
  · rintro rfl
    rfl

theorem inf_accessPart (a : Dirent) (c : BitVec 16) :
    a ⊓ .accessPart c = { a with accessCount := a.accessCount &&& c } := by
  refine Dirent.ext (funext fun i => ?_) ?_ ?_ ?_ (funext fun i => ?_) <;>
    simp [Dirent.min_def, Dirent.and, Dirent.accessPart, Dirent.erased, Inode.and, Inode.unused]

theorem openRead_atomic_iff (h : Agree k f) (h0 : 0 < n) (hnk : n < k) (hn : n < maxDirEntries)
    (hfile : classifyDirent (f .priFat n).first = .file) (ha : ∀ id, f id n = f .priFat n)
    (hg : imageAfter (FileOp.writes ⟨.start f, slot, sequence⟩ n (.openRead filename)) m = some g) :
    Atomic qsort f g (.openRead filename) n ↔ (FileOp.openRead filename).Settled f n m := by
  set x := Dirent.accessPart (FileOp.accessed (f .priFat n)) with hx
  have hfirst : (f .priFat n ⊓ x).first = (f .priFat n).first := by
    rw [hx, inf_accessPart]
    rfl
  have hun : (f .priFat n ⊓ x).unaccessed = (f .priFat n).unaccessed := by
    rw [hx, inf_accessPart]
    rfl
  have hkn : classifyDirent (f .priFat n).first ≠ .unknown := by rw [hfile]; decide
  have htop : ∀ d : Dirent, d.first = (f .priFat n).first → d ≠ ⊤ := by
    rintro d hd rfl
    rw [← hd] at hfile
    exact absurd hfile (by decide)
  have hkx : classifyDirent (f .priFat n ⊓ x).first ≠ .unknown := by rwa [hfirst]
  have himages := both_images (x := x) ha hg
  clear hg
  rcases himages with ⟨rfl, rfl⟩ | ⟨rfl, rfl⟩ | ⟨rfl, rfl⟩
  · refine iff_of_true ?_ (by simp [FileOp.Settled])
    refine atomic_of_check (checkIntegrity_quiet qsort h h0 rfl hkn) rfl
      (h.setSlot_used h0 hnk (.refl hkn) (htop _ rfl)) fun id => ?_
    cases id <;> simp
  · have hquiet := checkIntegrity_quiet (p := f .priFat n ⊓ x) (s := f .priFat n) qsort h h0
      (by rw [hfirst]) (by rwa [hfirst])
    have hiff : f .priFat n ⊓ x = f .priFat n ↔ (f .priFat n).accessCount = 0 := by
      rw [← and_shiftLeft_eq_self, hx, inf_accessPart]
      constructor
      · intro he
        exact congrArg Dirent.accessCount he
      · intro he
        exact Dirent.ext rfl rfl rfl he rfl
    simp only [FileOp.Settled, true_imp_iff]
    rw [← hiff]
    constructor
    · intro hat
      by_contra hne
      refine not_atomic_of_check hquiet rfl h0 hn (fun hag => hne ?_) hat
      exact hag.file (by rw [hfirst, hfile])
    · intro he
      refine atomic_of_check hquiet rfl (h.setSlot_used h0 hnk ?_ (htop _ hfirst)) fun id => ?_
      · rw [he]
        exact .refl hkn
      · cases id with
        | priFat => rw [setSlot_pri, hun]
        | secFat => rw [setSlot_sec]
  · refine iff_of_true ?_ (by simp [FileOp.Settled])
    refine atomic_of_check (checkIntegrity_quiet qsort h h0 rfl hkx) rfl
      (h.setSlot_used h0 hnk (.refl hkx) (htop _ hfirst)) fun id => ?_
    cases id with
    | priFat => rw [setSlot_pri, hun]
    | secFat => rw [setSlot_sec, hun]

theorem remove_atomic_iff (h : Agree k f) (h0 : 0 < n) (hnk : n < k) (hn : n < maxDirEntries)
    (hfile : classifyDirent (f .priFat n).first = .file) (ha : ∀ id, f id n = f .priFat n)
    (hg : imageAfter (FileOp.writes ⟨.start f, slot, sequence⟩ n (.remove filename)) m = some g) :
    Atomic qsort f g (.remove filename) n ↔ (FileOp.remove filename).Settled f n m := by
  set x := f .priFat n ⊓ Dirent.firstPart 0 with hx
  have hfirst : x.first = 0 := by simp [hx]
  have hdel : classifyDirent x.first = .deleted := by rw [hfirst]; rfl
  have hkn : classifyDirent (f .priFat n).first ≠ .unknown := by rw [hfile]; decide
  have hkx : classifyDirent x.first ≠ .unknown := by rw [hdel]; decide
  have htop : f .priFat n ≠ ⊤ := by
    intro he
    rw [he] at hfile
    exact absurd hfile (by decide)
  have hxtop : x ≠ ⊤ := by
    intro he
    rw [he] at hfirst
    exact absurd hfirst (by decide)
  have himages := both_images ha hg
  clear hg
  rcases himages with ⟨rfl, rfl⟩ | ⟨rfl, rfl⟩ | ⟨rfl, rfl⟩
  · refine iff_of_true ?_ (by simp [FileOp.Settled])
    refine atomic_of_check (checkIntegrity_quiet qsort h h0 rfl hkn) rfl
      (h.setSlot_used h0 hnk (.refl hkn) htop) (.inl fun id => ?_)
    cases id <;> simp
  · simp only [FileOp.Settled, true_imp_iff]
    constructor
    · intro hat
      by_contra hblocked
      push Not at hblocked
      refine not_atomic_of_check (checkIntegrity_blocked qsort h h0 hn hblocked) rfl h0 hn ?_ hat
      intro hag
      have := hag.type
      rw [← hx, hdel, hfile] at this
      cases this
    · intro hused
      obtain ⟨w, hw, hnow⟩ := checkIntegrity_repaired qsort h h0 hn hused (.inr ⟨hdel, hfile⟩)
      rw [hdel, if_neg (by decide), hfirst] at hnow
      refine atomic_of_check hw hnow (hnow ▸ h.setSlot_used h0 hnk (.refl hkx) hxtop)
        (.inr fun id => ?_)
      cases id with
      | priFat => rw [setSlot_pri, hdel]
      | secFat => rw [setSlot_sec, ← hx, hdel]
  · refine iff_of_true ?_ (by simp [FileOp.Settled])
    refine atomic_of_check (checkIntegrity_quiet qsort h h0 rfl hkx) rfl
      (h.setSlot_used h0 hnk (.refl hkx) hxtop) (.inr fun id => ?_)
    cases id with
    | priFat => rw [setSlot_pri, ← hx, hdel]
    | secFat => rw [setSlot_sec, ← hx, hdel]

end Operations

/-- **The crash points of a close, an open for reading and a removal.** From tables that agree, and
after any number of the writes, the next mount finds the operation done or not done, everything else
as it was, the tables in agreement and no slot that was written free, if and only if the crash point
is settled. -/
theorem crash_atomic_iff (qsort : Qsort) {k n m : ℕ} {f g : Fats} (op : FileOp) (slot : ℕ)
    (sequence : BitVec 16) (h : Agree k f) (hop : op.Valid k) (hslot : slot ≤ maxDirEntries)
    (hn : op.slot ⟨.start f, slot, sequence⟩ = some n)
    (hg : imageAfter (op.writes ⟨.start f, slot, sequence⟩ n) m = some g) :
    Atomic qsort f g op n ↔ op.Settled f n m := by
  cases op with
  | close d i =>
    obtain rfl : i = n := Option.some.inj hn
    obtain ⟨rfl, hk, hfile, hnul⟩ := hop
    exact close_atomic_iff qsort h hk hfile hnul hg
  | openRead filename =>
    obtain ⟨h0, hnk, hnm, hfile, ha⟩ := file_of_found h hslot hop hn
    exact openRead_atomic_iff qsort h h0 hnk hnm hfile ha hg
  | remove filename =>
    obtain ⟨h0, hnk, hnm, hfile, ha⟩ := file_of_found h hslot hop hn
    exact remove_atomic_iff qsort h h0 hnk hnm hfile ha hg

/-! ## The crash points that are not settled -/

/-- The tables that hold a directory agree. -/
theorem Consistent.agree {D : Directory} {f : Fats} (h : Consistent D f) :
    Agree (D.entries.length + 1) f where
  bound := ⟨Nat.succ_pos _, D.length_lt⟩
  root := h.root
  used i h0 hi := by
    obtain ⟨i, rfl⟩ : ∃ j, i = j + 1 := ⟨i - 1, by omega⟩
    have hlt : i < D.entries.length := by omega
    have hmem := getElem_mem hlt
    have hslot : ∀ id, f id (i + 1) = D.entries[i] := fun id => by
      rw [h.entries id i (by have := D.length_lt; omega), getD_eq_getElem _ _ hlt]
    rw [hslot, hslot]
    refine ⟨.refl ?_, fun he => ?_⟩
    · rcases D.classified _ hmem with h | h <;> rw [h] <;> decide
    · have := D.not_erased hmem
      rw [he] at this
      exact absurd this (by decide)
  free i hi hlt id := by
    obtain ⟨i, rfl⟩ : ∃ j, i = j + 1 := ⟨i - 1, by omega⟩
    rw [h.entries id i (by omega)]
    exact getD_eq_default _ _ (by omega)

/-- The entry of a new file. -/
def newFile : Dirent where
  filename := charArray "notes.txt"
  fileSize := 100
  sequenceCount := 8
  accessCount := 0xFFFF
  inodes := ![⟨8, 1⟩, .unused, .unused]

/-- The loss of power after the entry of the primary is written is settled at the next mount. -/
theorem close_sampleDirectory :
    Atomic .stable sampleDirectory.fats
      ((Op.program .priFat 4 (.firstPart newFile.first)).apply
        ((Op.program .priFat 4 newFile.dataPart).apply sampleDirectory.fats))
      (.close newFile 4) 4 := by
  refine (crash_atomic_iff .stable (m := 2) (.close newFile 4) 5 8
    (consistent_fats sampleDirectory).agree ⟨rfl, by decide, by decide, by decide⟩ (by decide) rfl
    rfl).mpr ?_
  intro _ i h0 hi
  obtain rfl | rfl | rfl : i = 1 ∨ i = 2 ∨ i = 3 := by omega
  all_goals decide

/-- An empty directory, and what a loss of power after the first write of a close leaves of it. -/
def partlyWrittenFats : Fats :=
  setSlot (Directory.fats ⟨[], by decide, by simp⟩) 1 newFile.dataPart ⊤

/-- Behind a slot that an earlier loss of power left partly written, the close of the next file is
not atomic: the primary has the file, the secondary never gets it. -/
theorem not_atomic_behindPartlyWritten :
    Agree 2 partlyWrittenFats ∧ (FileOp.close newFile 2).Valid 2 ∧
      imageAfter (FileOp.writes ⟨.start partlyWrittenFats, 3, 8⟩ 2 (.close newFile 2)) 2
        = some (setSlot partlyWrittenFats 2 newFile ⊤) ∧
      ¬Atomic .stable partlyWrittenFats (setSlot partlyWrittenFats 2 newFile ⊤)
        (.close newFile 2) 2 := by
  have hagree : Agree 2 partlyWrittenFats :=
    (consistent_fats ⟨[], by decide, by simp⟩).agree.setSlot_next (k := 1) (by decide)
      ⟨by decide, by decide, by decide⟩ (by decide)
  refine ⟨hagree, ⟨rfl, by decide, by decide, by decide⟩, ?_, ?_⟩
  · have hself : partlyWrittenFats = setSlot partlyWrittenFats 2 ⊤ ⊤ :=
      (setSlot_self partlyWrittenFats 2).symm
    have himage : (Op.program .priFat 2 (.firstPart newFile.first)).apply
        ((Op.program .priFat 2 newFile.dataPart).apply (setSlot partlyWrittenFats 2 ⊤ ⊤))
        = setSlot partlyWrittenFats 2 newFile ⊤ := by
      rw [apply_program_pri, top_inf_eq, apply_program_pri, Dirent.dataPart_inf_firstPart]
    rw [← himage, ← hself]
    rfl
  · refine not_atomic_of_check (checkIntegrity_blocked .stable hagree (by decide) (by decide)
      ⟨1, by decide, by decide, by decide⟩) rfl (by decide) (by decide) fun h => ?_
    exact absurd h.type (by decide)

end Mh40.Rafs
