import Mh40.Rafs.Capacity
import Mh40.Rafs.Reading

/-!
# What a close leaves

`Rafs_DoWrite` goes on to the next extent only when it has a byte for it, and `Rafs_DoClose` cuts
the last extent to the blocks that hold the end of the file. So the entry of a file that was written
and closed is a `ClosedFile`.

* `doCloseEntry` — the entry that `Rafs_DoClose` writes;
* `Filled` — a file that is being written, `growing_writes` that writes keep it;
* `closed_of_writeNew` — any writes to a new file and a close leave a closed file.
-/

namespace Mh40.Rafs

open List Option

variable {info : PartitionInfo} {m : SectorMap} {file : OpenFile} {d : Dirent} {es : List Inode}
  {e : Inode}

/-- The entry that `Rafs_DoClose` writes for a file that was open for writing. -/
def doCloseEntry (info : PartitionInfo) (d : Dirent) (file : OpenFile) : Dirent :=
  let blocks := file.extentPosition / info.blockSize +
    if file.extentPosition % info.blockSize ≠ 0 then 1 else 0
  { d with
    inodes := Function.update file.inodes file.currentInode
      { file.inodes file.currentInode with length := blocks.setWidth 16 }
    fileSize := file.filePosition }

/-- The entry of a file while it is open for writing. -/
def OpenFile.entry (d : Dirent) (file : OpenFile) : Dirent := { d with inodes := file.inodes }

/-- A file that is being written, and gets the extents `es` when it needs them. -/
structure Filled (info : PartitionInfo) (d : Dirent) (file : OpenFile) (es : List Inode) : Prop where
  offered : ∀ e ∈ es, isValidInode e = true
  valid : ∀ i ≤ file.currentInode, isValidInode (file.inodes i) = true
  unused : ∀ i, file.currentInode < i → file.inodes i = .unused
  total : bytesBefore info (file.entry d) file.currentInode +
    info.size (file.inodes file.currentInode) + (es.map info.size).sum < 2 ^ 32
  extent_le : file.extentPosition.toNat ≤ info.size (file.inodes file.currentInode)
  position : file.filePosition.toNat =
    bytesBefore info (file.entry d) file.currentInode + file.extentPosition.toNat

theorem inode?_fin (i : Fin 3) : d.inode? i = some (d.inodes i) := dif_pos i.isLt

theorem extentSize_fin (i : Fin 3) : extentSize info d i = info.size (d.inodes i) := by
  rw [extentSize, inode?_fin]
  rfl

theorem bytesBefore_congr {d d' : Dirent} {n : ℕ}
    (h : ∀ i : Fin 3, i.val < n → d.inodes i = d'.inodes i) :
    bytesBefore info d n = bytesBefore info d' n := by
  induction n with
  | zero => rfl
  | succ n ih =>
    have hlast : extentSize info d n = extentSize info d' n := by
      unfold extentSize Dirent.inode?
      split_ifs with hn
      · rw [h ⟨n, hn⟩ (Nat.lt_succ_self n)]
      · rfl
    rw [bytesBefore, bytesBefore, hlast, ih fun i hi => h i (Nat.lt_succ_of_lt hi)]

theorem isValidInode_iff : isValidInode e = true ↔ e ≠ .unused ∧ e.length ≠ 0 := by
  simp only [isValidInode, isUnusedInode, isDeletedInode, Bool.not_eq_true', Bool.or_eq_false_iff,
    Bool.and_eq_false_iff, beq_eq_false_iff_ne]
  tauto

theorem size_pos_of_valid (hblock : info.blockSize ≠ 0) (h : isValidInode e = true) :
    0 < info.size e := by
  obtain ⟨-, hlen⟩ := isValidInode_iff.mp h
  exact Nat.mul_pos (Nat.pos_of_ne_zero fun h0 => hlen (BitVec.eq_of_toNat_eq h0))
    (Nat.pos_of_ne_zero fun h0 => hblock (BitVec.eq_of_toNat_eq h0))

section

variable (h : Filled info d file es)
include h

theorem Filled.advance (len : BitVec 32)
    (hlen : file.extentPosition.toNat + len.toNat ≤ info.size (file.inodes file.currentInode)) :
    Filled info d (file.advance len) es ∧
      (file.advance len).extentPosition.toNat = file.extentPosition.toNat + len.toNat := by
  have htotal := h.total
  have hposition := h.position
  have hep := toNat_add_of_le hlen (by omega)
  have hfp : (file.filePosition + len).toNat = file.filePosition.toNat + len.toNat :=
    toNat_add_of_le (n := bytesBefore info (file.entry d) file.currentInode +
      info.size (file.inodes file.currentInode)) (by omega) (by omega)
  refine ⟨⟨h.offered, h.valid, h.unused, h.total, ?_, ?_⟩, hep⟩
  · exact hep.trans_le hlen
  · refine hfp.trans ?_
    rw [hposition, Nat.add_assoc, ← hep]
    rfl

theorem Filled.size_lt :
    info.size (file.inodes file.currentInode) < 2 ^ 32 := by
  have := h.total
  omega

theorem Filled.fill :
    Filled info d (file.advance (info.bytes (file.inodes file.currentInode) -
        file.extentPosition)) es ∧
      (file.advance (info.bytes (file.inodes file.currentInode) -
        file.extentPosition)).extentPosition.toNat =
          info.size (file.inodes file.currentInode) := by
  have hle := h.extent_le
  have hfree := toNat_extentFree h.size_lt hle
  obtain ⟨hadvance, hep⟩ := h.advance (info.bytes (file.inodes file.currentInode) -
    file.extentPosition) (by omega)
  exact ⟨hadvance, by omega⟩

theorem Filled.size_pos (hblock : info.blockSize ≠ 0) :
    0 < info.size (file.inodes file.currentInode) := size_pos_of_valid hblock (h.valid _ le_rfl)

end

/-- The file at the start of an extent that it is given. -/
def OpenFile.into (file : OpenFile) (next : Fin 3) (e : Inode) : OpenFile :=
  { file with
    currentInode := next
    inodes := Function.update file.inodes next e
    extentPosition := 0 }

theorem into_inode (file : OpenFile) (next : Fin 3) (e : Inode) :
    (file.into next e).inodes (file.into next e).currentInode = e := Function.update_self ..

theorem Filled.into (h : Filled info d file (e :: es)) (next : Fin 3)
    (hnext : next.val = file.currentInode.val + 1)
    (hfull : file.extentPosition.toNat = info.size (file.inodes file.currentInode)) :
    Filled info d (file.into next e) es := by
  have hbefore : bytesBefore info ((file.into next e).entry d) next =
      bytesBefore info (file.entry d) file.currentInode +
        info.size (file.inodes file.currentInode) := by
    have hcongr : bytesBefore info ((file.into next e).entry d) (file.currentInode.val + 1) =
        bytesBefore info (file.entry d) (file.currentInode.val + 1) :=
      bytesBefore_congr fun i hi => Function.update_of_ne (fun he => by rw [he] at hi; omega) _ _
    rw [hnext, hcongr, bytesBefore, extentSize_fin]
    rfl
  have hsum := h.total
  rw [map_cons, sum_cons] at hsum
  refine ⟨fun x hx => h.offered x (mem_cons_of_mem _ hx), fun i hi => ?_, fun i hi => ?_, ?_,
    Nat.zero_le _, ?_⟩
  · change isValidInode (Function.update file.inodes next e i) = true
    by_cases he : i = next
    · rw [he, Function.update_self]
      exact h.offered e mem_cons_self
    · rw [Function.update_of_ne he]
      refine h.valid i (Fin.le_def.mpr ?_)
      have h1 : i.val ≤ next.val := hi
      have h2 : i.val ≠ next.val := fun hv => he (Fin.ext hv)
      omega
  · change Function.update file.inodes next e i = .unused
    have h1 : next.val < i.val := hi
    rw [Function.update_of_ne (fun he => by rw [he] at h1; omega)]
    exact h.unused i (Fin.lt_def.mpr (by omega))
  · have hcur : (file.into next e).currentInode = next := rfl
    rw [into_inode, hcur, hbefore]
    omega
  · change file.filePosition.toNat = bytesBefore info ((file.into next e).entry d) next + 0
    rw [hbefore, h.position, hfull]
    rfl

/-- A file that is open for writing on a map, with a byte in every extent but the first. -/
def Growing (info : PartitionInfo) (d : Dirent) (file : OpenFile) (m : SectorMap) : Prop :=
  ∃ k es, file.currentInode.val + k = 2 ∧ Offers (file.inodes file.currentInode) k m es ∧
    Filled info d file es ∧ (0 < file.currentInode.val → 0 < file.extentPosition.toNat)

theorem writeLoop_growing {k extents : ℕ} {remaining written : BitVec 32} {w : Written}
    (hblock : info.blockSize ≠ 0) (hcur : file.currentInode.val + k = 2)
    (hoffers : Offers (file.inodes file.currentInode) k m es) (hfilled : Filled info d file es)
    (hbyte : 0 < file.currentInode.val → 0 < file.extentPosition.toNat ∨ 0 < remaining.toNat)
    (hw : writeLoop info extents remaining written file m = some w) :
    Growing info d w.file w.map := by
  induction extents generalizing k remaining written file m es with
  | zero => exact absurd hw (some_ne_none _).symm
  | succ extents ih =>
    have hle := hfilled.extent_le
    by_cases hroom : remaining.toNat ≤ info.size (file.inodes file.currentInode) -
        file.extentPosition.toNat
    · rw [writeLoop_within hfilled.size_lt hle hroom] at hw
      obtain rfl := some.inj hw
      obtain ⟨hadvance, hep⟩ := hfilled.advance remaining (by omega)
      exact ⟨k, es, hcur, hoffers, hadvance, fun hpos => by have := hbyte hpos; dsimp only; omega⟩
    obtain ⟨hadvance, hend⟩ := hfilled.fill
    have hfull : Growing info d (file.advance (info.bytes (file.inodes file.currentInode) -
        file.extentPosition)) m :=
      ⟨k, es, hcur, hoffers, hadvance, fun _ => hend ▸ hfilled.size_pos hblock⟩
    rw [writeLoop_beyond hfilled.size_lt hle (not_le.mp hroom)] at hw
    unfold OpenFile.current at hw
    by_cases hmore : file.currentInode.val < maxInodes - 1
    · obtain _ | k := k
      · unfold maxInodes at hmore
        omega
      obtain ⟨ok, filled, hadd, hes⟩ := id hoffers
      rw [dif_pos hmore, hadd] at hw
      cases es with
      | nil =>
        obtain ⟨hfind, ok', hremove⟩ := hes
        simp [hfind, hremove] at hw
        rw [← hw]
        exact hfull
      | cons e es =>
        obtain ⟨hfind, hne, hnext⟩ := hes
        simp only [hfind, bind_eq_bind, bind_some] at hw
        rw [if_neg (fun h0 => hne h0.2)] at hw
        have hinto := hadvance.into ⟨file.currentInode.val + 1, by omega⟩ rfl hend
        refine ih (k := k) ?_ ?_ hinto (fun _ => .inr ?_) hw
        · change file.currentInode.val + 1 + k = 2
          omega
        · rw [into_inode]
          exact hnext
        · have hfree := toNat_extentFree hfilled.size_lt hle
          rw [BitVec.toNat_sub_of_le (BitVec.le_def.mpr (by omega))]
          omega
    · rw [dif_neg hmore] at hw
      obtain rfl := some.inj hw
      exact hfull

theorem growing_writes {ns : List (BitVec 32)} {results : List WriteResult} {file' : OpenFile}
    (hblock : info.blockSize ≠ 0) (h : Growing info d file m)
    (hw : writes info ns file m = some (results, file')) : ∃ m', Growing info d file' m' := by
  induction ns generalizing file m results with
  | nil =>
    rw [writes, some.injEq, Prod.mk.injEq] at hw
    exact ⟨m, hw.2 ▸ h⟩
  | cons n ns ih =>
    obtain ⟨k, es, hcur, hoffers, hfilled, hbyte⟩ := h
    rw [writes] at hw
    simp only [bind_eq_bind, bind_eq_some_iff] at hw
    obtain ⟨w, hdo, ⟨results', file''⟩, hrest, hend⟩ := hw
    obtain ⟨-, rfl⟩ := Prod.mk.inj (some.inj hend)
    exact ih (writeLoop_growing hblock hcur hoffers hfilled (fun hpos => .inl (hbyte hpos)) hdo)
      hrest

theorem growing_new (hm : m.numBlocks = info.numBlocks) (h : Scannable m)
    (hfind : findLongestFreeExtent m = some e) : Growing info d (newOpenFile e) m := by
  have hheld := h.toHeld
  obtain ⟨x, xs, hcons⟩ := exists_cons_of_ne_nil (extents_ne_nil h.runs_ne_nil)
  obtain ⟨b, hb, -, hsort⟩ := hheld.findLongest (hcons ▸ mem_cons_self : x ∈ m.extents)
  obtain rfl : e = b := some.inj (hfind.symm.trans hb)
  have hunused : ∀ y ∈ m.extents, y ≠ .unused := by
    rintro y hy rfl
    exact (h.held Inode.unused.range ((h.isRun_iff _).mp (hheld.isRun hy))).2.2 rfl
  have hvalid : ∀ y ∈ sortInodes m.extents, isValidInode y = true := by
    intro y hy
    have hmem := (sortInodes_perm _).mem_iff.mp hy
    exact isValidInode_iff.mpr ⟨hunused y hmem, hheld.length_pos hmem⟩
  have hlt := sum_take_lt hheld hm h.inside maxInodes
  rw [hsort] at hlt hvalid
  rw [show maxInodes = 2 + 1 from rfl, take_succ_cons, map_cons, sum_cons] at hlt
  refine ⟨2, _, rfl, offers_sorted hheld hunused hsort, ⟨?_, ?_, ?_, ?_, Nat.zero_le _, rfl⟩,
    fun h0 => absurd h0 (Nat.lt_irrefl _)⟩
  · exact fun y hy => hvalid y (mem_cons_of_mem _ (mem_of_mem_take hy))
  · intro i hi
    obtain rfl : i = 0 := Fin.le_zero_iff.mp hi
    exact hvalid e mem_cons_self
  · intro i hi
    match i, hi with
    | 1, _ => rfl
    | 2, _ => rfl
  · exact (Nat.zero_add _).symm ▸ hlt

/-! ## The close -/

/-- The blocks that `a` bytes take, rounded up. -/
theorem toNat_blocks {a b : BitVec 32} (hb : b ≠ 0) :
    ∃ n, (a / b + if a % b ≠ 0 then 1 else 0 : BitVec 32).toNat = n ∧
      a.toNat ≤ n * b.toNat ∧ n * b.toNat < a.toNat + b.toNat := by
  have hpos : 0 < b.toNat := Nat.pos_of_ne_zero fun h0 => hb (BitVec.eq_of_toNat_eq h0)
  have hmod := Nat.mod_lt a.toNat hpos
  have hdiv := Nat.div_add_mod' a.toNat b.toNat
  have ha := a.isLt
  refine ⟨_, rfl, ?_⟩
  have hzero : a % b = 0 ↔ a.toNat % b.toNat = 0 := by
    rw [← BitVec.toNat_umod]
    exact ⟨fun h => by rw [h]; rfl, fun h => BitVec.eq_of_toNat_eq h⟩
  by_cases hrest : a % b ≠ 0
  · have hrest' : a.toNat % b.toNat ≠ 0 := fun h0 => hrest (hzero.mpr h0)
    have htwo : 2 ≤ b.toNat := by
      by_contra hlt
      rw [show b.toNat = 1 by omega, Nat.mod_one] at hrest'
      exact hrest' rfl
    have hhalf : a.toNat / b.toNat ≤ a.toNat / 2 := Nat.div_le_div_left htwo (by decide)
    rw [if_pos hrest, BitVec.toNat_add, BitVec.toNat_udiv, show (1 : BitVec 32).toNat = 1 from rfl,
      Nat.mod_eq_of_lt (by omega), Nat.add_mul, Nat.one_mul]
    omega
  · rw [if_neg hrest, show (0 : BitVec 32) = 0#32 from rfl, BitVec.add_zero, BitVec.toNat_udiv]
    have := hzero.mp (not_not.mp hrest)
    omega

/-- The extents before the last one stay as they are, and the last one keeps the end of the file. -/
theorem closed_of_growing (hblock : info.blockSize ≠ 0) (h : Growing info d file m) :
    ∃ c : ClosedFile info, c.entry = doCloseEntry info d file := by
  obtain ⟨k, es, -, -, hfilled, hbyte⟩ := h
  have hle := hfilled.extent_le
  have htotal := hfilled.total
  have hposition := hfilled.position
  obtain ⟨n, hn, hge, hlt⟩ := toNat_blocks (a := file.extentPosition) hblock
  have hpos : 0 < info.blockSize.toNat :=
    Nat.pos_of_ne_zero fun h0 => hblock (BitVec.eq_of_toNat_eq h0)
  have hcut : n ≤ (file.inodes file.currentInode).length.toNat := by
    have : n * info.blockSize.toNat <
        ((file.inodes file.currentInode).length.toNat + 1) * info.blockSize.toNat := by
      rw [Nat.add_mul, Nat.one_mul]
      unfold PartitionInfo.size at hle
      omega
    exact Nat.lt_succ_iff.mp (Nat.lt_of_mul_lt_mul_right this)
  set d' := doCloseEntry info d file with hd'
  have hothers : ∀ i, i ≠ file.currentInode → d'.inodes i = file.inodes i := fun i hi =>
    Function.update_of_ne hi _ _
  have hlast : d'.inodes file.currentInode = ⟨(file.inodes file.currentInode).offset,
      BitVec.ofNat 16 n⟩ := by
    refine (Function.update_self ..).trans ?_
    congr 1
    rw [← hn, BitVec.ofNat_toNat]
  have hlength : (d'.inodes file.currentInode).length.toNat = n := by
    have := (file.inodes file.currentInode).length.isLt
    rw [hlast]
    exact Nat.mod_eq_of_lt (by omega)
  have hsize : info.size (d'.inodes file.currentInode) = n * info.blockSize.toNat := by
    rw [PartitionInfo.size, hlength]
  have hsize_le : info.size (d'.inodes file.currentInode) ≤
      info.size (file.inodes file.currentInode) := by
    rw [hsize]
    exact Nat.mul_le_mul_right _ hcut
  have hbefore : bytesBefore info d' file.currentInode =
      bytesBefore info (file.entry d) file.currentInode :=
    bytesBefore_congr fun i hi => hothers i (Fin.ne_of_lt hi)
  refine ⟨⟨d', file.currentInode, fun i hi => ?_, fun i hi => ?_, fun h0 => ?_, ?_⟩, rfl⟩
  · rcases lt_trichotomy i file.currentInode with hlti | rfl | hgt
    · rw [hothers i (ne_of_lt hlti)]
      exact iff_of_true (hfilled.valid i (le_of_lt hlti)) (le_of_lt hlti)
    · refine iff_of_true ?_ le_rfl
      have hbyte := hbyte hi
      have hn0 : n ≠ 0 := fun h0 => by rw [h0, Nat.zero_mul] at hge; omega
      obtain ⟨hunused, -⟩ := isValidInode_iff.mp (hfilled.valid file.currentInode le_rfl)
      refine isValidInode_iff.mpr ⟨fun he => hunused ?_, fun h0 => hn0 ?_⟩
      · -- the extent is not shorter than what is left of it
        have h1 : (file.inodes file.currentInode).offset = 0xFFFF := by
          have := congrArg Inode.offset (hlast.symm.trans he)
          exact this
        have h2 : n = 0xFFFF := by
          rw [← hlength, he]
          rfl
        have h₃ := (file.inodes file.currentInode).length.isLt
        have h₄ : (file.inodes file.currentInode).length = 0xFFFF :=
          BitVec.eq_of_toNat_eq (show _ = 65535 by omega)
        exact congrArg₂ Inode.mk h1 h₄
      · rw [← hlength, h0]
        rfl
    · rw [hothers i (ne_of_gt hgt), hfilled.unused i hgt]
      exact iff_of_false (by decide) (not_le_of_gt hgt)
  · by_cases hi' : i = file.currentInode
    · rw [hi']
      omega
    · have hlti : i < file.currentInode := lt_of_le_of_ne hi hi'
      have hmono := bytesBefore_mono info (file.entry d) (Nat.succ_le_of_lt hlti)
      rw [Nat.succ_eq_add_one, bytesBefore, extentSize_fin] at hmono
      rw [hothers i hi']
      change info.size ((file.entry d).inodes i) < _
      omega
  · rw [hbefore]
    change _ < file.filePosition.toNat
    have := hbyte h0
    omega
  · rw [bytesBefore, extentSize_fin, hbefore, hsize]
    change file.filePosition.toNat ≤ _
    omega

/-- **What a close leaves.** On a map that can be scanned, the close of a new file leaves a closed
file, whatever was written to it. -/
theorem closed_of_writeNew {ns : List (BitVec 32)} {results : List WriteResult}
    (hm : m.numBlocks = info.numBlocks) (h : Scannable m) (d : Dirent)
    (hw : writeNew info m ns = some (results, file)) :
    ∃ c : ClosedFile info, c.entry = doCloseEntry info d file := by
  have hblock : info.blockSize ≠ 0 := fun h0 => by
    obtain ⟨i, hi, -⟩ := h.some_free
    rw [hm, PartitionInfo.numBlocks, h0] at hi
    simp at hi
  unfold writeNew at hw
  simp only [bind_eq_bind, bind_eq_some_iff] at hw
  obtain ⟨e, hfind, hw⟩ := hw
  obtain ⟨-, hw⟩ := ite_none_left_eq_some.mp hw
  obtain ⟨m', hgrowing⟩ := growing_writes hblock (growing_new hm h hfind) hw
  exact closed_of_growing hblock hgrowing

/-- A file of two writes to a partition with one free block. -/
theorem closed_of_writeNew_sample : ∃ results file,
    writeNew samplePartition (samplePartition.map (· == 5)) [100, 5000] = some (results, file) ∧
      ∃ c : ClosedFile samplePartition, c.entry = doCloseEntry samplePartition ⊤ file := by
  have hsome : (writeNew samplePartition (samplePartition.map (· == 5)) [100, 5000]).isSome := by
    decide +kernel
  obtain ⟨⟨results, file⟩, hw⟩ := isSome_iff_exists.mp hsome
  refine ⟨results, file, hw, closed_of_writeNew rfl ⟨⟨5, by decide, rfl⟩, fun i hi => ?_,
    fun r hr => ?_⟩ ⊤ hw⟩
  · obtain rfl := eq_of_beq hi.2
    decide
  · have hpos := hr.pos
    have hfirst := eq_of_beq (hr.all r.1 le_rfl (by omega)).2
    have hlast := eq_of_beq (hr.all (r.1 + r.2 - 1) (by omega) (by omega)).2
    exact ⟨by omega, by omega, fun h => by rw [h] at hfirst; cases hfirst⟩

end Mh40.Rafs
