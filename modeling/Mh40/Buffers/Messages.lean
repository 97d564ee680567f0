import Mathlib.Algebra.BigOperators.Group.List.Basic
import Mh40.Buffers.Ring
import Mh40.Lib.Ring
import Mh40.Lib.Run

/-!
# The messages of a buffer

The ring as two lists, of the messages that were sent and of those that are to be sent. Every call
is one move on the lists, with one gap: `bufCombineEntriesAtOffset` looks for the entry up to `back`
itself, so the offset of the next message to be sent is found there, and that message and the one
behind it are combined.

* `sent`, `pending`: the two lists, `Sums` that the byte indexes agree with them.
* `Right`: the move that a call must make.
* `right_iff_permits`: in the runs that respect the checks of the header, every call is right iff no
  call combines at `outdex`, unless a message without data was sent last.
-/

namespace Mh40.Buffers

open Lib Lib.Ring List Option Function BitVec

variable {M : Type}

/-! ## Statement -/

/-- A message. -/
structure Msg (M : Type) where
  length : BitVec 16
  metaData : Option M
  deriving DecidableEq

/-- The message of an entry, with its metadata when the buffer has any. -/
def entryMsg (metaSizeBytes : BitVec 16) (s : BufferMsg M) (entry : ℕ) : Msg M where
  length := s.msgLengths entry
  metaData := if metaSizeBytes ≠ 0 then some (s.metaData entry) else none

/-- How many entries there are from one index to another. -/
def entriesTo (a b : ℕ) : ℕ := (b + bufferMsgRingSize - a) % bufferMsgRingSize

/-- The messages that were sent and not freed, from `behind` to `back`. -/
def sent (metaSizeBytes : BitVec 16) (s : BufferMsg M) : List (Msg M) :=
  slice bufferMsgRingSize (entryMsg metaSizeBytes s) s.behind (entriesTo s.behind s.back)

/-- The messages that are to be sent, from `back` to `front`. -/
def pending (metaSizeBytes : BitVec 16) (s : BufferMsg M) : List (Msg M) :=
  slice bufferMsgRingSize (entryMsg metaSizeBytes s) s.back (entriesTo s.back s.front)

/-- The bytes of a list of messages. -/
def total (ms : List (Msg M)) : ℕ := (ms.map fun m => m.length.toNat).sum

/-- The byte indexes are apart by the lengths of the messages. -/
def Sums (metaSizeBytes : BitVec 16) (s : BufferMsg M) : Prop :=
  total (sent metaSizeBytes s) = s.buf.unfreed.toNat ∧
    total (pending metaSizeBytes s) = s.buf.available.toNat

/-- A call on the buffer. -/
inductive Call (M : Type) where
  | addToFront (len : BitVec 16) (metaData : M)
  | updateBack
  | unupdateBack
  | updateBehind
  | combineEntries (entry : ℕ)
  | combineEntriesAtOffset (offset : BitVec 16)

/-- One call. -/
def ringStep (metaSizeBytes : BitVec 16) (s : BufferMsg M) : Call M → Option (BufferMsg M)
  | .addToFront len metaData => some (bufAddToFront s len metaData)
  | .updateBack => some (bufUpdateBack s)
  | .unupdateBack => some (bufUnupdateBack s).2
  | .updateBehind => some (bufUpdateBehind s)
  | .combineEntries entry => (bufCombineEntries s entry metaSizeBytes).map (·.2)
  | .combineEntriesAtOffset offset => (bufCombineEntriesAtOffset s offset metaSizeBytes).map (·.2)

/-- The checks that the header asks for: there is an entry and there are bytes for a new message, a
message to send, a message to free, and an entry that was sent and not freed to combine. -/
def Allowed (s : BufferMsg M) : Call M → Prop
  | .addToFront len _ => bufAnyMsgsAvailable s ∧ len.toNat ≤ s.buf.freespaceStatic
  | .updateBack => bufAnyMsgsToSend s
  | .updateBehind => bufAnyMsgsSent s
  | .combineEntries entry =>
    entry < bufferMsgRingSize ∧ entriesTo s.behind entry < entriesTo s.behind s.back
  | _ => True

/-- Nothing changed, or two adjacent messages that were sent are one, with the metadata of the
first. `start` says which the first one is, from those in front of it. -/
def Combined (metaSizeBytes : BitVec 16) (start : List (Msg M) → Prop) (s : BufferMsg M)
    (result : BitVec 16) (s' : BufferMsg M) : Prop :=
  result = 0 ∧ s' = s ∨
    s'.buf = s.buf ∧ Sums metaSizeBytes s' ∧
      pending metaSizeBytes s' = pending metaSizeBytes s ∧
      ∃ before first second behind, start before ∧
        sent metaSizeBytes s = before ++ first :: second :: behind ∧
        sent metaSizeBytes s' =
          before ++ ⟨first.length + second.length, first.metaData⟩ :: behind ∧
        result.toNat = first.length.toNat + second.length.toNat

/-- What a call must do. -/
def Right (metaSizeBytes : BitVec 16) (s : BufferMsg M) : Call M → Prop
  | .addToFront len metaData =>
    let s' := bufAddToFront s len metaData
    Sums metaSizeBytes s' ∧ sent metaSizeBytes s' = sent metaSizeBytes s ∧
      pending metaSizeBytes s' = pending metaSizeBytes s ++
        [⟨len, if metaSizeBytes ≠ 0 then some metaData else none⟩]
  | .updateBack =>
    let s' := bufUpdateBack s
    Sums metaSizeBytes s' ∧ bufUnupdateBack s' = (true, s) ∧
      ∃ m, pending metaSizeBytes s = m :: pending metaSizeBytes s' ∧
        sent metaSizeBytes s' = sent metaSizeBytes s ++ [m]
  | .unupdateBack =>
    let (undone, s') := bufUnupdateBack s
    Sums metaSizeBytes s' ∧
      (undone = false ∧ s' = s ∧ sent metaSizeBytes s = [] ∨
        undone = true ∧ ∃ m, sent metaSizeBytes s = sent metaSizeBytes s' ++ [m] ∧
          pending metaSizeBytes s' = m :: pending metaSizeBytes s)
  | .updateBehind =>
    let s' := bufUpdateBehind s
    Sums metaSizeBytes s' ∧ pending metaSizeBytes s' = pending metaSizeBytes s ∧
      ∃ m, sent metaSizeBytes s = m :: sent metaSizeBytes s'
  | .combineEntries entry => ∃ result s',
    bufCombineEntries s entry metaSizeBytes = some (result, s') ∧
      Combined metaSizeBytes (fun before => before.length = entriesTo s.behind entry) s result s'
  | .combineEntriesAtOffset offset => ∃ result s',
    bufCombineEntriesAtOffset s offset metaSizeBytes = some (result, s') ∧
      Combined metaSizeBytes (fun before =>
        (s.buf.tail + BitVec.ofNat 16 (total before)) &&& s.buf.sizeMask =
          offset &&& s.buf.sizeMask) s result s'

/-- The offset is not that of the next message to be sent, or a message without data was sent last
and begins there, too. -/
def Permits (metaSizeBytes : BitVec 16) (s : BufferMsg M) : Call M → Prop
  | .combineEntriesAtOffset offset => offset &&& s.buf.sizeMask = s.buf.outdex →
    ∃ m ∈ (sent metaSizeBytes s).getLast?, m.length = 0
  | _ => True

/-- A buffer without messages. -/
def emptyRing (sizeLog : ℕ) (msgLengths : ℕ → BitVec 16) (metaData : ℕ → M) : BufferMsg M :=
  ⟨.initFromHandle sizeLog, 0, 0, 0, 0, msgLengths, metaData⟩

instance Allowed.decidable (s : BufferMsg M) : (call : Call M) → Decidable (Allowed s call)
  | .addToFront .. => inferInstanceAs (Decidable (_ ≠ _ ∧ _ ≤ _))
  | .updateBack => inferInstanceAs (Decidable (_ ≠ _))
  | .unupdateBack => inferInstanceAs (Decidable True)
  | .updateBehind => inferInstanceAs (Decidable (_ ≠ _))
  | .combineEntries .. => inferInstanceAs (Decidable (_ < _ ∧ _ < _))
  | .combineEntriesAtOffset .. => inferInstanceAs (Decidable True)

instance Permits.decidable (metaSizeBytes : BitVec 16) (s : BufferMsg M) :
    (call : Call M) → Decidable (Permits metaSizeBytes s call)
  | .combineEntriesAtOffset offset => inferInstanceAs (Decidable
      (offset &&& s.buf.sizeMask = s.buf.outdex →
        ∃ m ∈ (sent metaSizeBytes s).getLast?, m.length = 0))
  | .addToFront .. | .updateBack | .unupdateBack | .updateBehind | .combineEntries .. =>
    inferInstanceAs (Decidable True)

/-! ## Masks -/

section Masks

variable {mask x y : BitVec 16} {k : ℕ}

/-- A mask of the lowest bits. -/
def IsMask (mask : BitVec 16) : Prop := ∃ k ≤ 16, mask.toNat + 1 = 2 ^ k

theorem toNat_and_mask (h : IsMask mask) : (x &&& mask).toNat = x.toNat % (mask.toNat + 1) := by
  obtain ⟨k, -, hk⟩ := h
  rw [toNat_and, show mask.toNat = 2 ^ k - 1 by omega, Nat.and_two_pow_sub_one_eq_mod]
  congr 1
  omega

theorem mask_dvd (h : IsMask mask) : mask.toNat + 1 ∣ 2 ^ 16 := by
  obtain ⟨k, hk, hmask⟩ := h
  exact hmask ▸ pow_dvd_pow 2 hk

theorem and_mask_add (h : IsMask mask) : ((x &&& mask) + y) &&& mask = (x + y) &&& mask := by
  apply eq_of_toNat_eq
  rw [toNat_and_mask h, toNat_and_mask h, toNat_add, toNat_add, toNat_and_mask h,
    Nat.mod_mod_of_dvd _ (mask_dvd h), Nat.mod_mod_of_dvd _ (mask_dvd h), Nat.mod_add_mod]

theorem and_mask_and_mask : x &&& mask &&& mask = x &&& mask := by
  rw [BitVec.and_assoc, BitVec.and_self]

theorem and_mask_sub (h : IsMask mask) : ((x &&& mask) - y) &&& mask = (x - y) &&& mask := by
  rw [BitVec.sub_eq_add_neg, BitVec.sub_eq_add_neg, and_mask_add h]

/-- A number of bytes below the size of the buffer is what it is under the mask. -/
theorem toNat_ofNat_and_mask (h : IsMask mask) (hk : k ≤ mask.toNat) :
    (BitVec.ofNat 16 k &&& mask).toNat = k := by
  have := mask.isLt
  rw [toNat_and_mask h, toNat_ofNat, Nat.mod_eq_of_lt (by omega), Nat.mod_eq_of_lt (by omega)]

/-- The size of the buffer is 0 under the mask. -/
theorem and_mask_add_size (h : IsMask mask) (x y : BitVec 16) :
    (x + (mask + 1 - y)) &&& mask = (x - y) &&& mask := by
  have hzero : (mask + 1) &&& mask = 0 := by
    apply eq_of_toNat_eq
    rw [toNat_and_mask h, toNat_add, Nat.mod_mod_of_dvd _ (mask_dvd h)]
    exact Nat.mod_self _
  have hcomm : x + (mask + 1 - y) = mask + 1 + (x - y) := by
    rw [BitVec.sub_eq_add_neg, BitVec.sub_eq_add_neg, ← BitVec.add_assoc,
      BitVec.add_comm x (mask + 1), BitVec.add_assoc]
  rw [hcomm, ← and_mask_add h, hzero, show (0 : BitVec 16) = 0#16 from rfl, BitVec.zero_add]

theorem isMask_init (sizeLog : ℕ) : IsMask (Buffer.initFromHandle sizeLog).sizeMask := by
  change IsMask (BitVec.ofNat 16 (2 ^ sizeLog - 1))
  have hpos : 0 < 2 ^ sizeLog := Nat.two_pow_pos sizeLog
  by_cases hle : sizeLog ≤ 16
  · refine ⟨sizeLog, hle, ?_⟩
    have := Nat.pow_le_pow_right (n := 2) (by decide) hle
    rw [toNat_ofNat, Nat.mod_eq_of_lt (by omega)]
    omega
  · obtain ⟨d, rfl⟩ := Nat.exists_eq_add_of_le (Nat.le_of_not_le hle)
    refine ⟨16, le_rfl, ?_⟩
    have hd : 0 < 2 ^ d := Nat.two_pow_pos d
    rw [toNat_ofNat, Nat.pow_add]
    omega

end Masks

/-! ## Lists of messages -/

@[simp] theorem total_nil : total ([] : List (Msg M)) = 0 := rfl

@[simp] theorem total_cons (m : Msg M) (ms : List (Msg M)) :
    total (m :: ms) = m.length.toNat + total ms := by
  rw [total, total, map_cons, sum_cons]

@[simp] theorem total_append (ms ms' : List (Msg M)) : total (ms ++ ms') = total ms + total ms' := by
  rw [total, map_append, sum_append]
  rfl

section Invariant

variable {metaSizeBytes : BitVec 16} {s s' : BufferMsg M}

theorem length_sent : (sent metaSizeBytes s).length = entriesTo s.behind s.back := length_slice

theorem length_pending : (pending metaSizeBytes s).length = entriesTo s.back s.front := length_slice

/-- The three indexes follow one another round the ring, and the byte indexes follow them. -/
structure Inv (metaSizeBytes : BitVec 16) (s : BufferMsg M) : Prop where
  mask : IsMask s.buf.sizeMask
  behind_lt : s.behind < bufferMsgRingSize
  back_lt : s.back < bufferMsgRingSize
  front_lt : s.front < bufferMsgRingSize
  entries : entriesTo s.behind s.back + entriesTo s.back s.front < bufferMsgRingSize
  bytes : total (sent metaSizeBytes s) + total (pending metaSizeBytes s) ≤ s.buf.sizeMask.toNat
  tail : s.buf.tail &&& s.buf.sizeMask = s.buf.tail
  outdex : s.buf.outdex =
    (s.buf.tail + BitVec.ofNat 16 (total (sent metaSizeBytes s))) &&& s.buf.sizeMask
  index : s.buf.index =
    (s.buf.outdex + BitVec.ofNat 16 (total (pending metaSizeBytes s))) &&& s.buf.sizeMask
  header : s.backHeaderBytesConsumed = 0

theorem inv_emptyRing (metaSizeBytes : BitVec 16) (sizeLog : ℕ) (msgLengths : ℕ → BitVec 16)
    (metaData : ℕ → M) : Inv metaSizeBytes (emptyRing sizeLog msgLengths metaData) := by
  have hnone : entriesTo 0 0 = 0 := by decide
  have hsent : sent metaSizeBytes (emptyRing sizeLog msgLengths metaData) = [] :=
    eq_nil_of_length_eq_zero (length_sent.trans hnone)
  have hpending : pending metaSizeBytes (emptyRing sizeLog msgLengths metaData) = [] :=
    eq_nil_of_length_eq_zero (length_pending.trans hnone)
  have hlt : 0 < bufferMsgRingSize := by decide
  have hempty : entriesTo 0 0 + entriesTo 0 0 < bufferMsgRingSize := by decide
  have hmask := isMask_init sizeLog
  have hzero : (0 : BitVec 16) = (0 + BitVec.ofNat 16 0) &&& (Buffer.initFromHandle sizeLog).sizeMask :=
    zero_and.symm
  refine ⟨hmask, hlt, hlt, hlt, hempty, ?_, zero_and, ?_, ?_, rfl⟩
  · rw [hsent, hpending]
    exact Nat.zero_le _
  · rw [hsent]
    exact hzero
  · rw [hpending]
    exact hzero

theorem sub_and_mask {mask a x : BitVec 16} (h : IsMask mask) {k : ℕ} (hk : k ≤ mask.toNat)
    (hx : x = (a + BitVec.ofNat 16 k) &&& mask) : ((x - a) &&& mask).toNat = k := by
  rw [hx, and_mask_sub h, BitVec.add_comm, BitVec.add_sub_cancel, toNat_ofNat_and_mask h hk]

theorem Inv.sums (h : Inv metaSizeBytes s) : Sums metaSizeBytes s := by
  have hbytes := h.bytes
  exact ⟨(sub_and_mask h.mask (by omega) h.outdex).symm,
    (sub_and_mask h.mask (by omega) h.index).symm⟩

theorem Inv.used (h : Inv metaSizeBytes s) :
    s.buf.used.toNat = total (sent metaSizeBytes s) + total (pending metaSizeBytes s) := by
  refine sub_and_mask h.mask h.bytes ?_
  rw [h.index, h.outdex, and_mask_add h.mask, ofNat_add, BitVec.add_assoc]

/-! ## Moves on the lists -/

theorem entryMsg_addToFront (len : BitVec 16) (metaData : M) (entry : ℕ) :
    entryMsg metaSizeBytes (bufAddToFront s len metaData) entry =
      if entry = s.front then ⟨len, if metaSizeBytes ≠ 0 then some metaData else none⟩
      else entryMsg metaSizeBytes s entry := by
  unfold entryMsg bufAddToFront
  by_cases he : entry = s.front
  · rw [if_pos he, he]
    simp only [update_self]
  · rw [if_neg he]
    simp only [update_of_ne he]

section

variable (h : Inv metaSizeBytes s)
include h

theorem lists_addToFront (ha : bufAnyMsgsAvailable s) (len : BitVec 16) (metaData : M) :
    sent metaSizeBytes (bufAddToFront s len metaData) = sent metaSizeBytes s ∧
      pending metaSizeBytes (bufAddToFront s len metaData) = pending metaSizeBytes s ++
        [⟨len, if metaSizeBytes ≠ 0 then some metaData else none⟩] ∧
      entriesTo s.behind s.back + entriesTo s.back (bufNextMsg s.front) < bufferMsgRingSize := by
  obtain ⟨-, hbehind, hback, hfront, hentries, -⟩ := h
  have hnext : entriesTo s.back (bufNextMsg s.front) = entriesTo s.back s.front + 1 := by
    unfold bufAnyMsgsAvailable bufNextMsg at ha
    unfold entriesTo bufNextMsg bufferMsgRingSize at *
    omega
  refine ⟨slice_congr fun k hk => ?_, ?_, ?_⟩
  · rw [entryMsg_addToFront, if_neg]
    · rfl
    · change k < entriesTo s.behind s.back at hk
      change (s.behind + k) % _ ≠ _
      unfold entriesTo bufferMsgRingSize at *
      omega
  · have hlast : (s.back + entriesTo s.back s.front) % bufferMsgRingSize = s.front := by
      unfold entriesTo bufferMsgRingSize at *
      omega
    change slice _ _ s.back (entriesTo s.back (bufNextMsg s.front)) = _
    rw [hnext, slice_snoc, hlast, entryMsg_addToFront, if_pos rfl]
    refine congrArg (· ++ _) (slice_congr fun k hk => ?_)
    rw [entryMsg_addToFront, if_neg]
    unfold entriesTo bufferMsgRingSize at *
    omega
  · unfold bufAnyMsgsAvailable bufNextMsg at ha
    unfold entriesTo bufNextMsg bufferMsgRingSize at *
    omega

theorem right_addToFront {len : BitVec 16} {metaData : M}
    (ha : Allowed s (.addToFront len metaData)) :
    Right metaSizeBytes s (.addToFront len metaData) ∧
      Inv metaSizeBytes (bufAddToFront s len metaData) := by
  obtain ⟨hmsgs, hroom⟩ := ha
  obtain ⟨hsent, hpending, hentries⟩ := lists_addToFront h hmsgs len metaData
  have hused := h.used
  unfold Buffer.freespaceStatic at hroom
  have hinv : Inv metaSizeBytes (bufAddToFront s len metaData) := by
    refine ⟨h.mask, h.behind_lt, h.back_lt, Nat.mod_lt _ (by decide), hentries, ?_, h.tail, ?_, ?_,
      h.header⟩
    · change _ ≤ s.buf.sizeMask.toNat
      rw [hsent, hpending, total_append, total_cons, total_nil]
      dsimp only
      have := h.bytes
      omega
    · rw [hsent]
      exact h.outdex
    · rw [hpending, total_append, total_cons, total_nil, Nat.add_zero, ofNat_add,
        ofNat_toNat, setWidth_eq, ← BitVec.add_assoc]
      change (s.buf.index + len) &&& s.buf.sizeMask = _
      rw [h.index, and_mask_add h.mask]
      rfl
  exact ⟨⟨hinv.sums, hsent, hpending⟩, hinv⟩

/-- The message at `back` moves from one list to the other. -/
theorem lists_updateBack (ha : bufAnyMsgsToSend s) :
    sent metaSizeBytes (bufUpdateBack s) =
        sent metaSizeBytes s ++ [entryMsg metaSizeBytes s s.back] ∧
      pending metaSizeBytes s =
        entryMsg metaSizeBytes s s.back :: pending metaSizeBytes (bufUpdateBack s) ∧
      entriesTo s.behind (bufNextMsg s.back) + entriesTo (bufNextMsg s.back) s.front <
        bufferMsgRingSize := by
  obtain ⟨-, hbehind, hback, hfront, hentries, -⟩ := h
  have hsent : entriesTo s.behind (bufNextMsg s.back) = entriesTo s.behind s.back + 1 := by
    unfold bufAnyMsgsToSend at ha
    unfold entriesTo bufNextMsg bufferMsgRingSize at *
    omega
  have hpending : entriesTo s.back s.front = entriesTo (bufNextMsg s.back) s.front + 1 := by
    unfold bufAnyMsgsToSend at ha
    unfold entriesTo bufNextMsg bufferMsgRingSize at *
    omega
  refine ⟨?_, ?_, by omega⟩
  · have hlast : (s.behind + entriesTo s.behind s.back) % bufferMsgRingSize = s.back := by
      unfold entriesTo bufferMsgRingSize at *
      omega
    change slice _ _ s.behind (entriesTo s.behind (bufNextMsg s.back)) = _
    rw [hsent, slice_snoc, hlast]
    rfl
  · rw [pending, hpending, slice_cons, Nat.mod_eq_of_lt hback, ← slice_mod]
    rfl

/-- The last move is undone. -/
theorem unupdate_updateBack (ha : bufAnyMsgsToSend s) :
    bufUnupdateBack (bufUpdateBack s) = (true, s) := by
  obtain ⟨buf, front, back, behind, header, msgLengths, metaData⟩ := s
  have hheader : header = 0 := h.header
  have hprev : bufPrevMsg (bufNextMsg back) = back := by
    have hback : back < bufferMsgRingSize := h.back_lt
    unfold bufPrevMsg bufNextMsg bufferMsgRingSize at *
    omega
  have hne : behind ≠ bufNextMsg back := by
    obtain ⟨-, hbehind, hback, hfront, hentries, -⟩ := h
    unfold bufAnyMsgsToSend at ha
    unfold entriesTo bufNextMsg bufferMsgRingSize at *
    dsimp only at *
    omega
  have houtdex : ((buf.outdex + msgLengths back) &&& buf.sizeMask) +
      (buf.sizeMask + 1 - msgLengths back) &&& buf.sizeMask = buf.outdex := by
    rw [and_mask_add_size h.mask, and_mask_sub h.mask, BitVec.add_sub_cancel]
    have hout := h.outdex
    dsimp only at hout
    rw [hout, and_mask_and_mask]
  refine (if_pos hne).trans ?_
  dsimp only [bufUpdateBack, bufUpdateBackOnly, Buffer.sizeOctets]
  rw [hprev, houtdex, hheader]

theorem right_updateBack (ha : Allowed s .updateBack) :
    Right metaSizeBytes s .updateBack ∧ Inv metaSizeBytes (bufUpdateBack s) := by
  obtain ⟨hsent, hpending, hentries⟩ := lists_updateBack h ha
  have hbytes := h.bytes
  rw [hpending, total_cons] at hbytes
  have hinv : Inv metaSizeBytes (bufUpdateBack s) := by
    refine ⟨h.mask, h.behind_lt, Nat.mod_lt _ (by decide), h.front_lt, hentries, ?_, h.tail, ?_, ?_,
      rfl⟩
    · change _ ≤ s.buf.sizeMask.toNat
      rw [hsent, total_append, total_cons, total_nil]
      omega
    · rw [hsent, total_append, total_cons, total_nil, Nat.add_zero, ofNat_add,
        ofNat_toNat, setWidth_eq, ← BitVec.add_assoc]
      change (s.buf.outdex + s.msgLengths s.back) &&& s.buf.sizeMask = _
      rw [h.outdex, and_mask_add h.mask]
      rfl
    · change s.buf.index = (((s.buf.outdex + s.msgLengths s.back) &&& s.buf.sizeMask) + _) &&&
        s.buf.sizeMask
      rw [h.index, hpending, total_cons, ofNat_add, ofNat_toNat, setWidth_eq,
        ← BitVec.add_assoc, and_mask_add h.mask]
      rfl
  refine ⟨⟨hinv.sums, unupdate_updateBack h ha, _, hpending, hsent⟩, hinv⟩

/-- The message that was sent last moves back. -/
theorem lists_unupdateBack (hne : s.behind ≠ s.back) :
    sent metaSizeBytes s = sent metaSizeBytes (bufUnupdateBack s).2 ++
        [entryMsg metaSizeBytes s (bufPrevMsg s.back)] ∧
      pending metaSizeBytes (bufUnupdateBack s).2 =
        entryMsg metaSizeBytes s (bufPrevMsg s.back) :: pending metaSizeBytes s ∧
      entriesTo s.behind (bufPrevMsg s.back) + entriesTo (bufPrevMsg s.back) s.front <
        bufferMsgRingSize := by
  obtain ⟨-, hbehind, hback, hfront, hentries, -⟩ := h
  have hsent : entriesTo s.behind s.back = entriesTo s.behind (bufPrevMsg s.back) + 1 := by
    unfold entriesTo bufPrevMsg bufferMsgRingSize at *
    omega
  have hpending : entriesTo (bufPrevMsg s.back) s.front = entriesTo s.back s.front + 1 := by
    unfold entriesTo bufPrevMsg bufferMsgRingSize at *
    omega
  have hlast : (s.behind + entriesTo s.behind (bufPrevMsg s.back)) % bufferMsgRingSize =
      bufPrevMsg s.back := by
    unfold entriesTo bufPrevMsg bufferMsgRingSize at *
    omega
  have hnext : bufPrevMsg s.back % bufferMsgRingSize = bufPrevMsg s.back ∧
      (bufPrevMsg s.back + 1) % bufferMsgRingSize = s.back := by
    unfold bufPrevMsg bufferMsgRingSize at *
    omega
  rw [bufUnupdateBack, if_pos hne]
  refine ⟨?_, ?_, by omega⟩
  · rw [sent, hsent, slice_snoc, hlast]
    rfl
  · change slice _ _ (bufPrevMsg s.back) (entriesTo (bufPrevMsg s.back) s.front) = _
    rw [hpending, slice_cons, hnext.1, ← slice_mod, hnext.2]
    rfl

theorem right_unupdateBack :
    Right metaSizeBytes s .unupdateBack ∧ Inv metaSizeBytes (bufUnupdateBack s).2 := by
  by_cases hne : s.behind ≠ s.back
  · obtain ⟨hsent, hpending, hentries⟩ := lists_unupdateBack h hne
    have hbytes := h.bytes
    have houtdex := h.outdex
    rw [hsent, total_append, total_cons, total_nil] at hbytes
    rw [hsent, total_append, total_cons, total_nil, Nat.add_zero, ofNat_add,
      ofNat_toNat, setWidth_eq, ← BitVec.add_assoc] at houtdex
    have hlen : (entryMsg metaSizeBytes s (bufPrevMsg s.back)).length =
      s.msgLengths (bufPrevMsg s.back) := rfl
    have hback : (bufUnupdateBack s).2.buf.outdex =
        (s.buf.outdex - s.msgLengths (bufPrevMsg s.back)) &&& s.buf.sizeMask := by
      rw [← and_mask_add_size h.mask, bufUnupdateBack, if_pos hne]
      rfl
    have hinv : Inv metaSizeBytes (bufUnupdateBack s).2 := by
      have hkeep : (bufUnupdateBack s).2.buf.tail = s.buf.tail ∧
          (bufUnupdateBack s).2.buf.index = s.buf.index ∧
          (bufUnupdateBack s).2.buf.sizeMask = s.buf.sizeMask := by
        rw [bufUnupdateBack, if_pos hne]
        exact ⟨rfl, rfl, rfl⟩
      obtain ⟨htail, hindex, hmask⟩ := hkeep
      refine ⟨hmask ▸ h.mask, ?_, ?_, ?_, ?_, ?_, ?_, ?_, ?_, ?_⟩
      · rw [bufUnupdateBack, if_pos hne]
        exact h.behind_lt
      · rw [bufUnupdateBack, if_pos hne]
        exact Nat.mod_lt _ (by decide)
      · rw [bufUnupdateBack, if_pos hne]
        exact h.front_lt
      · rw [bufUnupdateBack, if_pos hne]
        exact hentries
      · rw [hmask, hpending, total_cons]
        omega
      · rw [hmask, htail]
        exact h.tail
      · rw [hmask, htail, hback, houtdex, and_mask_sub h.mask, hlen, BitVec.add_sub_cancel]
      · rw [hmask, hindex, hback, hpending, total_cons, ofNat_add, ofNat_toNat,
          setWidth_eq, and_mask_add h.mask, hlen, ← BitVec.add_assoc, BitVec.sub_add_cancel]
        exact h.index
      · rw [bufUnupdateBack, if_pos hne]
    have hundone : (bufUnupdateBack s).1 = true := by rw [bufUnupdateBack, if_pos hne]
    exact ⟨⟨hinv.sums, .inr ⟨hundone, _, hsent, hpending⟩⟩, hinv⟩
  · have hsame : bufUnupdateBack s = (false, s) := if_neg hne
    have hnone : sent metaSizeBytes s = [] := by
      refine eq_nil_of_length_eq_zero (length_sent.trans ?_)
      rw [not_not.mp hne]
      have := h.back_lt
      unfold entriesTo
      rw [Nat.add_sub_cancel_left, Nat.mod_self]
    refine ⟨?_, ?_⟩
    · unfold Right
      rw [hsame]
      exact ⟨h.sums, .inl ⟨rfl, rfl, hnone⟩⟩
    · rw [hsame]
      exact h

theorem right_updateBehind (ha : Allowed s .updateBehind) :
    Right metaSizeBytes s .updateBehind ∧ Inv metaSizeBytes (bufUpdateBehind s) := by
  have hbehind := h.behind_lt
  have hcount : entriesTo s.behind s.back = entriesTo (bufNextMsg s.behind) s.back + 1 := by
    have hback := h.back_lt
    have hne : s.back ≠ s.behind := ha
    unfold entriesTo bufNextMsg bufferMsgRingSize at *
    omega
  have hsent : sent metaSizeBytes s =
      entryMsg metaSizeBytes s s.behind :: sent metaSizeBytes (bufUpdateBehind s) := by
    rw [sent, hcount, slice_cons, Nat.mod_eq_of_lt hbehind, ← slice_mod]
    rfl
  have hpending : pending metaSizeBytes (bufUpdateBehind s) = pending metaSizeBytes s := rfl
  have hmask : s.buf.sizeOctets - 1 = s.buf.sizeMask := BitVec.add_sub_cancel _ _
  have hbytes := h.bytes
  rw [hsent, total_cons] at hbytes
  have hinv : Inv metaSizeBytes (bufUpdateBehind s) := by
    refine ⟨h.mask, Nat.mod_lt _ (by decide), h.back_lt, h.front_lt, ?_, ?_, ?_, ?_, h.index,
      h.header⟩
    · change entriesTo (bufNextMsg s.behind) s.back + entriesTo s.back s.front < _
      have := h.entries
      omega
    · rw [hpending]
      change _ ≤ s.buf.sizeMask.toNat
      omega
    · change (s.buf.tail + s.msgLengths s.behind) &&& (s.buf.sizeOctets - 1) &&& s.buf.sizeMask = _
      rw [hmask, and_mask_and_mask]
      rw [← hmask]
      rfl
    · change s.buf.outdex = ((s.buf.tail + s.msgLengths s.behind) &&& (s.buf.sizeOctets - 1)) + _ &&&
        s.buf.sizeMask
      rw [hmask, and_mask_add h.mask, h.outdex, hsent, total_cons, ofNat_add,
        ofNat_toNat, setWidth_eq, ← BitVec.add_assoc]
      rfl
  exact ⟨⟨hinv.sums, hpending, _, hsent⟩, hinv⟩

end

/-! ## Combining -/

theorem entryMsg_copyEntry (entry prevEntry e : ℕ) :
    entryMsg metaSizeBytes (copyEntry s metaSizeBytes entry prevEntry) e =
      if e = entry then entryMsg metaSizeBytes s prevEntry else entryMsg metaSizeBytes s e := by
  unfold entryMsg copyEntry
  by_cases he : e = entry
  · rw [if_pos he, he]
    split_ifs <;> simp only [update_self]
  · rw [if_neg he]
    split_ifs <;> simp only [update_of_ne he]

/-- What the loops do not change. -/
structure SameIndexes (s s' : BufferMsg M) : Prop where
  buf : s'.buf = s.buf
  front : s'.front = s.front
  back : s'.back = s.back
  behind : s'.behind = s.behind
  header : s'.backHeaderBytesConsumed = s.backHeaderBytesConsumed

/-- The loop moves the `n` entries from `behind` on one entry further. -/
theorem shuffleLoop_spec (metaSizeBytes : BitVec 16) (s : BufferMsg M) (turns : ℕ) {n : ℕ}
    (hbehind : s.behind < bufferMsgRingSize) (hn : n < turns) (hring : n < bufferMsgRingSize) :
    ∃ s', shuffleLoop metaSizeBytes turns s ((s.behind + n) % bufferMsgRingSize) = some s' ∧
      SameIndexes s s' ∧ ∀ e < bufferMsgRingSize, entryMsg metaSizeBytes s' e =
        if 0 < entriesTo s.behind e ∧ entriesTo s.behind e ≤ n then
          entryMsg metaSizeBytes s (bufPrevMsg e)
        else entryMsg metaSizeBytes s e := by
  induction n generalizing turns s with
  | zero =>
    obtain ⟨turns, rfl⟩ := Nat.exists_eq_add_of_lt hn
    rw [Nat.zero_add, shuffleLoop, Nat.add_zero, Nat.mod_eq_of_lt hbehind,
      if_neg (not_not_intro rfl)]
    refine ⟨s, rfl, ⟨rfl, rfl, rfl, rfl, rfl⟩, fun e _ => ?_⟩
    rw [if_neg (by omega)]
  | succ n ih =>
    obtain ⟨turns, rfl⟩ : ∃ t, turns = t + 1 := ⟨turns - 1, by omega⟩
    have hne : (s.behind + (n + 1)) % bufferMsgRingSize ≠ s.behind := by
      unfold bufferMsgRingSize at *
      omega
    have hprev : bufPrevMsg ((s.behind + (n + 1)) % bufferMsgRingSize) =
        (s.behind + n) % bufferMsgRingSize := by
      unfold bufPrevMsg bufferMsgRingSize at *
      omega
    rw [shuffleLoop, if_pos hne]
    dsimp only
    rw [hprev]
    obtain ⟨s', hs', hsame, hmsgs⟩ := ih (copyEntry s metaSizeBytes
      ((s.behind + (n + 1)) % bufferMsgRingSize) ((s.behind + n) % bufferMsgRingSize)) turns hbehind
      (Nat.lt_of_succ_lt_succ hn) (Nat.lt_of_succ_lt hring)
    refine ⟨s', hs', ⟨hsame.buf, hsame.front, hsame.back, hsame.behind, hsame.header⟩,
      fun e he => ?_⟩
    have hkept : (copyEntry s metaSizeBytes ((s.behind + (n + 1)) % bufferMsgRingSize)
      ((s.behind + n) % bufferMsgRingSize)).behind = s.behind := rfl
    rw [hmsgs e he, hkept]
    by_cases hlast : e = (s.behind + (n + 1)) % bufferMsgRingSize
    · have hd : entriesTo s.behind e = n + 1 := by
        unfold entriesTo bufferMsgRingSize at *
        omega
      rw [hd, if_neg (by omega), if_pos (by omega), entryMsg_copyEntry, if_pos hlast, hlast, hprev]
    · have hd : entriesTo s.behind e ≠ n + 1 := by
        unfold entriesTo bufferMsgRingSize at *
        omega
      by_cases hin : 0 < entriesTo s.behind e ∧ entriesTo s.behind e ≤ n
      · rw [if_pos hin, if_pos (by omega), entryMsg_copyEntry, if_neg]
        unfold entriesTo bufPrevMsg bufferMsgRingSize at *
        omega
      · rw [if_neg hin, if_neg (by omega), entryMsg_copyEntry, if_neg hlast]

/-- The entries once the ones at `i` and behind it are combined. -/
theorem bufCombineEntries_spec (h : Inv metaSizeBytes s) {i : ℕ}
    (hi : i + 1 < entriesTo s.behind s.back) :
    let entry := (s.behind + i) % bufferMsgRingSize
    let first := entryMsg metaSizeBytes s entry
    let second := entryMsg metaSizeBytes s (bufNextMsg entry)
    ∃ s', bufCombineEntries s entry metaSizeBytes = some (second.length + first.length, s') ∧
      s'.buf = s.buf ∧ s'.front = s.front ∧ s'.back = s.back ∧
      s'.behind = bufNextMsg s.behind ∧ s'.backHeaderBytesConsumed = s.backHeaderBytesConsumed ∧
      ∀ e < bufferMsgRingSize, 0 < entriesTo s.behind e → entryMsg metaSizeBytes s' e =
        if entriesTo s.behind e ≤ i then entryMsg metaSizeBytes s (bufPrevMsg e)
        else if entriesTo s.behind e = i + 1 then
          ⟨second.length + first.length, first.metaData⟩
        else entryMsg metaSizeBytes s e := by
  intro entry first second
  have hbehind := h.behind_lt
  have hback := h.back_lt
  have hnext : bufNextMsg entry = (s.behind + (i + 1)) % bufferMsgRingSize := by
    unfold entry bufNextMsg bufferMsgRingSize
    omega
  have hne : bufNextMsg entry ≠ s.back := by
    rw [hnext]
    unfold entriesTo bufferMsgRingSize at *
    omega
  set s1 : BufferMsg M := { s with
    msgLengths := update s.msgLengths (bufNextMsg entry)
      (s.msgLengths (bufNextMsg entry) + s.msgLengths entry)
    metaData :=
      if metaSizeBytes ≠ 0 then update s.metaData (bufNextMsg entry) (s.metaData entry)
      else s.metaData } with hs1
  have hmsgs1 : ∀ e, entryMsg metaSizeBytes s1 e = if e = bufNextMsg entry then
      ⟨second.length + first.length, first.metaData⟩ else entryMsg metaSizeBytes s e := by
    intro e
    unfold entryMsg
    by_cases he : e = bufNextMsg entry
    · rw [if_pos he, he, hs1]
      simp only [update_self]
      unfold first second entryMsg
      split_ifs <;> simp only [update_self]
    · rw [if_neg he, hs1]
      split_ifs <;> simp only [update_of_ne he]
  have hring : i < bufferMsgRingSize := by
    have := h.entries
    omega
  obtain ⟨s2, hs2, hsame, hmsgs2⟩ := shuffleLoop_spec metaSizeBytes s1 bufferMsgRingSize hbehind
    hring hring
  have hbehind2 : s2.behind = s.behind := hsame.behind
  refine ⟨{ s2 with
    msgLengths := update s2.msgLengths s2.behind 0
    behind := bufNextMsg s2.behind }, ?_, hsame.buf, hsame.front, hsame.back, ?_, hsame.header,
    fun e he hpos => ?_⟩
  · refine (if_neg hne).trans ?_
    exact (congrArg (Option.map _) hs2).trans rfl
  · change bufNextMsg s2.behind = _
    rw [hbehind2]
  · have hkept : e ≠ s2.behind := by
      rw [hbehind2]
      rintro rfl
      unfold entriesTo at hpos
      rw [Nat.add_sub_cancel_left, Nat.mod_self] at hpos
      exact Nat.lt_irrefl _ hpos
    have hlast : entryMsg metaSizeBytes { s2 with
        msgLengths := update s2.msgLengths s2.behind 0
        behind := bufNextMsg s2.behind } e = entryMsg metaSizeBytes s2 e := by
      unfold entryMsg
      simp only [update_of_ne hkept]
    rw [hlast, hmsgs2 e he]
    change (if 0 < entriesTo s.behind e ∧ entriesTo s.behind e ≤ i then _ else _) = _
    by_cases hle : entriesTo s.behind e ≤ i
    · rw [if_pos ⟨hpos, hle⟩, if_pos hle, hmsgs1, if_neg]
      rw [hnext]
      unfold entriesTo bufPrevMsg bufferMsgRingSize at *
      omega
    · rw [if_neg fun hc => hle hc.2, if_neg hle, hmsgs1]
      refine if_congr ?_ rfl rfl
      rw [hnext]
      unfold entriesTo bufferMsgRingSize at *
      omega

section Indexes

variable {a b c k : ℕ}

theorem entriesTo_add (ha : a < bufferMsgRingSize) (hk : k < bufferMsgRingSize) :
    entriesTo a ((a + k) % bufferMsgRingSize) = k := by
  unfold entriesTo bufferMsgRingSize at *
  omega

theorem add_entriesTo (ha : a < bufferMsgRingSize) (hb : b < bufferMsgRingSize) :
    (a + entriesTo a b) % bufferMsgRingSize = b := by
  unfold entriesTo bufferMsgRingSize at *
  omega

theorem bufNextMsg_add : (bufNextMsg a + k) % bufferMsgRingSize =
    (a + (k + 1)) % bufferMsgRingSize := by
  unfold bufNextMsg bufferMsgRingSize
  omega

theorem bufPrevMsg_add : bufPrevMsg ((a + (k + 1)) % bufferMsgRingSize) =
    (a + k) % bufferMsgRingSize := by
  unfold bufPrevMsg bufferMsgRingSize
  omega

theorem entriesTo_bufNextMsg (hb : b < bufferMsgRingSize) (hk : entriesTo a b = k + 1) :
    entriesTo (bufNextMsg a) b = k := by
  unfold entriesTo bufNextMsg bufferMsgRingSize at *
  omega

theorem add_entriesTo_add (ha : a < bufferMsgRingSize) :
    (b + k) % bufferMsgRingSize = (a + (entriesTo a b + k)) % bufferMsgRingSize := by
  unfold entriesTo bufferMsgRingSize at *
  omega

end Indexes

/-- The first `k` messages that were sent. -/
def sentFirst (metaSizeBytes : BitVec 16) (s : BufferMsg M) (k : ℕ) : List (Msg M) :=
  slice bufferMsgRingSize (entryMsg metaSizeBytes s) s.behind k

/-- Two adjacent messages that were sent are combined. -/
theorem combine_sent (h : Inv metaSizeBytes s) {i : ℕ} (hi : i + 1 < entriesTo s.behind s.back) :
    ∃ result s' first second behind,
      bufCombineEntries s ((s.behind + i) % bufferMsgRingSize) metaSizeBytes = some (result, s') ∧
      s'.buf = s.buf ∧ pending metaSizeBytes s' = pending metaSizeBytes s ∧
      sent metaSizeBytes s = sentFirst metaSizeBytes s i ++ first :: second :: behind ∧
      sent metaSizeBytes s' = sentFirst metaSizeBytes s i ++
        ⟨first.length + second.length, first.metaData⟩ :: behind ∧
      result = first.length + second.length ∧ Inv metaSizeBytes s' := by
  obtain ⟨s', hs', hbuf, hfront, hback, hbehind, hheader, hmsgs⟩ := bufCombineEntries_spec h hi
  obtain ⟨r, hr⟩ := Nat.exists_eq_add_of_lt hi
  set entry := (s.behind + i) % bufferMsgRingSize with hentry
  set first := entryMsg metaSizeBytes s entry with hfirst
  set second := entryMsg metaSizeBytes s (bufNextMsg entry) with hsecond
  have hlt := h.behind_lt
  have hlt' := h.back_lt
  have hlt'' := h.front_lt
  have hentries := h.entries
  have hnext : bufNextMsg entry = (s.behind + (i + 1)) % bufferMsgRingSize := by
    unfold entry bufNextMsg bufferMsgRingSize
    omega
  have hsent : sent metaSizeBytes s = sentFirst metaSizeBytes s i ++ first :: second ::
      slice bufferMsgRingSize (entryMsg metaSizeBytes s) (s.behind + (i + 2)) r := by
    rw [sent, hr, show i + 1 + r + 1 = i + (r + 1 + 1) by omega, slice_append, slice_cons,
      slice_cons, Nat.add_assoc, Nat.add_assoc, ← hnext]
    rfl
  have hcount : entriesTo (bufNextMsg s.behind) s.back = i + (r + 1) :=
    entriesTo_bufNextMsg hlt' (by omega)
  -- the entries of the new ring, counted from the old `behind`
  have hentry' : ∀ k, k + 1 < bufferMsgRingSize →
      entryMsg metaSizeBytes s' ((s.behind + (k + 1)) % bufferMsgRingSize) =
        if k + 1 ≤ i then entryMsg metaSizeBytes s ((s.behind + k) % bufferMsgRingSize)
        else if k + 1 = i + 1 then ⟨second.length + first.length, first.metaData⟩
        else entryMsg metaSizeBytes s ((s.behind + (k + 1)) % bufferMsgRingSize) := by
    intro k hk
    have hd := entriesTo_add hlt hk
    rw [hmsgs _ (Nat.mod_lt _ (by decide)) (by rw [hd]; exact Nat.succ_pos k), hd, bufPrevMsg_add]
  have hsent' : sent metaSizeBytes s' = sentFirst metaSizeBytes s i ++
      ⟨second.length + first.length, first.metaData⟩ ::
        slice bufferMsgRingSize (entryMsg metaSizeBytes s) (s.behind + (i + 2)) r := by
    rw [sent, hbehind, hback, hcount, slice_append, slice_cons]
    congr 1
    · refine slice_congr fun k hk => ?_
      rw [bufNextMsg_add, hentry' k (by omega), if_pos (by omega)]
    · congr 1
      · rw [bufNextMsg_add, hentry' i (by omega), if_neg (by omega), if_pos rfl]
      · refine slice_congr fun k hk => ?_
        rw [Nat.add_assoc, Nat.add_assoc, bufNextMsg_add, hentry' _ (by omega), if_neg (by omega),
          if_neg (by omega)]
        congr 2
        omega
  have hpending : pending metaSizeBytes s' = pending metaSizeBytes s := by
    rw [pending, hback, hfront]
    refine slice_congr fun k hk => ?_
    rw [add_entriesTo_add hlt, hr, show i + 1 + r + 1 + k = i + 1 + r + k + 1 by omega,
      hentry' _ (by omega), if_neg (by omega), if_neg (by omega)]
  have hbytes := h.bytes
  rw [hsent, total_append, total_cons, total_cons] at hbytes
  have hmask := s.buf.sizeMask.isLt
  have hsum : (second.length + first.length).toNat = first.length.toNat + second.length.toNat := by
    rw [toNat_add, Nat.mod_eq_of_lt (by omega), Nat.add_comm]
  have htotal : total (sent metaSizeBytes s') = total (sent metaSizeBytes s) := by
    rw [hsent', hsent, total_append, total_append, total_cons, total_cons, total_cons]
    dsimp only
    omega
  have hinv : Inv metaSizeBytes s' := by
    refine ⟨hbuf ▸ h.mask, ?_, ?_, ?_, ?_, ?_, ?_, ?_, ?_, ?_⟩
    · rw [hbehind]
      exact Nat.mod_lt _ (by decide)
    · rw [hback]
      exact h.back_lt
    · rw [hfront]
      exact h.front_lt
    · rw [hbehind, hback, hfront, hcount]
      omega
    · rw [htotal, hpending, hbuf]
      exact h.bytes
    · rw [hbuf]
      exact h.tail
    · rw [htotal, hbuf]
      exact h.outdex
    · rw [hpending, hbuf]
      exact h.index
    · rw [hheader]
      exact h.header
  rw [BitVec.add_comm second.length] at hs' hsent'
  exact ⟨_, s', first, second, _, hs', hbuf, hpending, hsent, hsent', rfl, hinv⟩

theorem right_combineEntries (h : Inv metaSizeBytes s) {entry : ℕ}
    (ha : Allowed s (.combineEntries entry)) (start : List (Msg M) → Prop)
    (hstart : start (sentFirst metaSizeBytes s (entriesTo s.behind entry))) :
    ∃ result s', bufCombineEntries s entry metaSizeBytes = some (result, s') ∧
      Combined metaSizeBytes start s result s' ∧ Inv metaSizeBytes s' := by
  obtain ⟨hentry, hin⟩ := ha
  have hbehind := h.behind_lt
  have hback := h.back_lt
  have hplace := add_entriesTo hbehind hentry
  by_cases hlast : bufNextMsg entry = s.back
  · exact ⟨0, s, if_pos hlast, .inl ⟨rfl, rfl⟩, h⟩
  · have hi : entriesTo s.behind entry + 1 < entriesTo s.behind s.back := by
      clear hplace h
      unfold entriesTo bufNextMsg bufferMsgRingSize at *
      omega
    obtain ⟨result, s', first, second, behind, hs', hbuf, hpending, hsent, hsent', hresult, hinv⟩ :=
      combine_sent h hi
    rw [hplace] at hs'
    refine ⟨result, s', hs', .inr ⟨hbuf, hinv.sums, hpending, _, first, second, behind, hstart,
      hsent, hsent', ?_⟩, hinv⟩
    have hbytes := h.bytes
    have hmask := s.buf.sizeMask.isLt
    rw [hsent, total_append, total_cons, total_cons] at hbytes
    rw [hresult, toNat_add, Nat.mod_eq_of_lt (by omega)]

/-! ## The search -/

/-- Where the message behind the first `k` ones starts. -/
def startOf (metaSizeBytes : BitVec 16) (s : BufferMsg M) (k : ℕ) : BitVec 16 :=
  (s.buf.tail + BitVec.ofNat 16 (total (sentFirst metaSizeBytes s k))) &&& s.buf.sizeMask

theorem sentFirst_succ {k : ℕ} : sentFirst metaSizeBytes s (k + 1) = sentFirst metaSizeBytes s k ++
    [entryMsg metaSizeBytes s ((s.behind + k) % bufferMsgRingSize)] := slice_snoc

section

variable (h : Inv metaSizeBytes s)
include h

theorem startOf_succ (k : ℕ) : startOf metaSizeBytes s (k + 1) =
    (startOf metaSizeBytes s k + s.msgLengths ((s.behind + k) % bufferMsgRingSize)) &&&
      s.buf.sizeMask := by
  rw [startOf, startOf, sentFirst_succ, total_append, total_cons, total_nil, Nat.add_zero,
    ofNat_add, ofNat_toNat, setWidth_eq, and_mask_add h.mask, BitVec.add_assoc]
  rfl

theorem startOf_zero : startOf metaSizeBytes s 0 = s.buf.tail := by
  rw [startOf, sentFirst, slice_zero, total_nil, show BitVec.ofNat 16 0 = 0#16 from rfl,
    BitVec.add_zero, h.tail]

theorem startOf_back :
    startOf metaSizeBytes s (entriesTo s.behind s.back) = s.buf.outdex := h.outdex.symm

/-- The search stops at the first message that starts at the offset, or at `back`. -/
theorem searchLoop_spec (offset : BitVec 16) {turns k : ℕ} (hk : k ≤ entriesTo s.behind s.back)
    (hturns : entriesTo s.behind s.back < k + turns) :
    ∃ i, i ≤ entriesTo s.behind s.back ∧ (∀ j, k ≤ j → j < i → startOf metaSizeBytes s j ≠ offset) ∧
      (i < entriesTo s.behind s.back → startOf metaSizeBytes s i = offset) ∧
      searchLoop s offset turns ((s.behind + k) % bufferMsgRingSize) (startOf metaSizeBytes s k) =
        some ((s.behind + i) % bufferMsgRingSize, startOf metaSizeBytes s i) := by
  induction turns generalizing k with
  | zero => omega
  | succ turns ih =>
    have hring : entriesTo s.behind s.back < bufferMsgRingSize := Nat.mod_lt _ (by decide)
    have hback : (s.behind + k) % bufferMsgRingSize ≠ s.back ↔ k ≠ entriesTo s.behind s.back := by
      rw [not_iff_not]
      constructor
      · intro he
        rw [← he, entriesTo_add h.behind_lt (Nat.lt_of_le_of_lt hk hring)]
      · rintro rfl
        exact add_entriesTo h.behind_lt h.back_lt
    rw [searchLoop]
    by_cases hmore : k ≠ entriesTo s.behind s.back ∧ startOf metaSizeBytes s k ≠ offset
    · obtain ⟨i, hi, hbefore, hfound, hloop⟩ := ih (k := k + 1) (by omega) (by omega)
      refine ⟨i, hi, fun j hj hji => ?_, hfound, ?_⟩
      · rcases Nat.eq_or_lt_of_le hj with rfl | hlt
        · exact hmore.2
        · exact hbefore j hlt hji
      · rw [if_pos ⟨hback.mpr hmore.1, hmore.2⟩, ← startOf_succ h]
        have hnext : bufNextMsg ((s.behind + k) % bufferMsgRingSize) =
            (s.behind + (k + 1)) % bufferMsgRingSize := by
          rw [bufNextMsg, Nat.mod_add_mod, Nat.add_assoc]
        rw [hnext]
        exact hloop
    · refine ⟨k, hk, fun j hj hji => absurd hji (Nat.not_lt.mpr hj), fun hlt => ?_, ?_⟩
      · by_contra hne
        exact hmore ⟨Nat.ne_of_lt hlt, hne⟩
      · rw [if_neg fun hc => hmore ⟨hback.mp hc.1, hc.2⟩]

/-- A message that was sent starts at `outdex` only when there is no data from it on. -/
theorem startOf_eq_outdex {j : ℕ} (hj : j ≤ entriesTo s.behind s.back) :
    startOf metaSizeBytes s j = s.buf.outdex ↔
      total (sentFirst metaSizeBytes s j) = total (sent metaSizeBytes s) := by
  have hbytes := h.bytes
  have hsplit : total (sent metaSizeBytes s) = total (sentFirst metaSizeBytes s j) +
      total (slice bufferMsgRingSize (entryMsg metaSizeBytes s) (s.behind + j)
        (entriesTo s.behind s.back - j)) := by
    rw [sentFirst, ← total_append, ← slice_append, Nat.add_sub_cancel' hj]
    rfl
  constructor
  · intro he
    have h1 := sub_and_mask (a := s.buf.tail) h.mask (k := total (sentFirst metaSizeBytes s j))
      (by omega) (he.symm.trans rfl)
    have h2 := sub_and_mask h.mask (by omega) h.outdex
    rw [← h1, ← h2]
  · intro he
    rw [startOf, he, ← h.outdex]

end

theorem total_sent_succ (metaSizeBytes : BitVec 16) {n : ℕ} (hn : entriesTo s.behind s.back = n + 1) :
    ∃ m, (sent metaSizeBytes s).getLast? = some m ∧
      total (sent metaSizeBytes s) = total (sentFirst metaSizeBytes s n) + m.length.toNat := by
  have hsent : sent metaSizeBytes s = sentFirst metaSizeBytes s n ++
      [entryMsg metaSizeBytes s ((s.behind + n) % bufferMsgRingSize)] := by
    rw [← sentFirst_succ, ← hn]
    rfl
  rw [hsent]
  exact ⟨_, getLast?_concat .., by rw [total_append, total_cons, total_nil, Nat.add_zero]⟩

/-- The condition says that a message that was sent starts at the offset, when it is `outdex`. -/
theorem permits_iff (h : Inv metaSizeBytes s) (offset : BitVec 16) :
    Permits metaSizeBytes s (.combineEntriesAtOffset offset) ↔
      (offset &&& s.buf.sizeMask = s.buf.outdex →
        ∃ j < entriesTo s.behind s.back, startOf metaSizeBytes s j = s.buf.outdex) := by
  refine imp_congr_right fun _ => ?_
  constructor
  · rintro ⟨m, hm, hzero⟩
    obtain ⟨n, hn⟩ : ∃ n, entriesTo s.behind s.back = n + 1 := by
      refine Nat.exists_eq_succ_of_ne_zero fun h0 => ?_
      rw [eq_nil_of_length_eq_zero (length_sent.trans h0)] at hm
      cases hm
    obtain ⟨m', hlast, htotal⟩ := total_sent_succ metaSizeBytes hn
    obtain rfl := some.inj (hlast.symm.trans hm)
    rw [hzero] at htotal
    exact ⟨n, by omega, (startOf_eq_outdex h (by omega)).mpr htotal.symm⟩
  · rintro ⟨j, hj, hstart⟩
    obtain ⟨n, hn⟩ : ∃ n, entriesTo s.behind s.back = n + 1 :=
      Nat.exists_eq_succ_of_ne_zero (by omega)
    obtain ⟨m, hlast, htotal⟩ := total_sent_succ metaSizeBytes hn
    have heq := (startOf_eq_outdex h (Nat.le_of_lt hj)).mp hstart
    have hle : total (sentFirst metaSizeBytes s j) ≤ total (sentFirst metaSizeBytes s n) := by
      obtain ⟨d, rfl⟩ := Nat.exists_eq_add_of_le (show j ≤ n by omega)
      rw [sentFirst, sentFirst, slice_append, total_append]
      exact Nat.le_add_right _ _
    exact ⟨m, hlast, eq_of_toNat_eq (show m.length.toNat = 0 by omega)⟩

/-- The messages in front of one that was sent are the first ones. -/
theorem startOf_of_sent {before behind : List (Msg M)} {m : Msg M}
    (hsent : sent metaSizeBytes s = before ++ m :: behind) :
    before.length < entriesTo s.behind s.back ∧ startOf metaSizeBytes s before.length =
      (s.buf.tail + BitVec.ofNat 16 (total before)) &&& s.buf.sizeMask := by
  have hlen := congrArg List.length hsent
  rw [length_sent, length_append, length_cons] at hlen
  refine ⟨by omega, ?_⟩
  have hsplit : sent metaSizeBytes s = sentFirst metaSizeBytes s before.length ++
      slice bufferMsgRingSize (entryMsg metaSizeBytes s) (s.behind + before.length)
        (behind.length + 1) := by
    rw [sentFirst, ← slice_append, ← hlen]
    rfl
  have hfirst := (append_inj (hsplit.symm.trans hsent) length_slice).1
  rw [startOf, hfirst]

/-- To combine at `back` moves `behind`. -/
theorem combine_back (h : Inv metaSizeBytes s) {result : BitVec 16}
    (hs : bufCombineEntries s s.back metaSizeBytes = some (result, s')) : s' ≠ s := by
  have hring : entriesTo s.behind s.back < bufferMsgRingSize := Nat.mod_lt _ (by decide)
  have hne : bufNextMsg s.back ≠ s.back := by
    have := h.back_lt
    unfold bufNextMsg bufferMsgRingSize at *
    omega
  have hmoved : bufNextMsg s.behind ≠ s.behind := by
    have := h.behind_lt
    unfold bufNextMsg bufferMsgRingSize at *
    omega
  rw [bufCombineEntries, if_neg hne] at hs
  obtain ⟨s2, hs2, hend⟩ := map_eq_some_iff.mp hs
  obtain ⟨s3, hs3, hsame, -⟩ := shuffleLoop_spec metaSizeBytes { s with
    msgLengths := update s.msgLengths (bufNextMsg s.back)
      (s.msgLengths (bufNextMsg s.back) + s.msgLengths s.back)
    metaData :=
      if metaSizeBytes ≠ 0 then
        update s.metaData (bufNextMsg s.back) (s.metaData s.back)
      else s.metaData } bufferMsgRingSize h.behind_lt hring hring
  dsimp only at hs3
  rw [add_entriesTo h.behind_lt h.back_lt] at hs3
  obtain rfl := some.inj (hs2.symm.trans hs3)
  intro he
  have hbehind : bufNextMsg s2.behind = s.behind := by
    rw [← he, ← (Prod.mk.inj hend).2]
  exact hmoved (hsame.behind ▸ hbehind)

/-- **The search.** A call at an offset is right iff it is not that of the next message to be sent,
or a message that was sent starts there, too. -/
theorem right_atOffset_iff (h : Inv metaSizeBytes s) (offset : BitVec 16) :
    (Right metaSizeBytes s (.combineEntriesAtOffset offset) ↔
      Permits metaSizeBytes s (.combineEntriesAtOffset offset)) ∧
    (Permits metaSizeBytes s (.combineEntriesAtOffset offset) → ∀ result s',
      bufCombineEntriesAtOffset s offset metaSizeBytes = some (result, s') →
        Inv metaSizeBytes s') := by
  have hring : entriesTo s.behind s.back < bufferMsgRingSize := Nat.mod_lt _ (by decide)
  obtain ⟨i, hi, hbefore, hfound, hloop⟩ := searchLoop_spec h (offset &&& s.buf.sizeMask)
    (Nat.zero_le _) (Nat.lt_of_lt_of_eq hring (Nat.zero_add _).symm)
  rw [Nat.add_zero, Nat.mod_eq_of_lt h.behind_lt, startOf_zero h] at hloop
  have hcall : bufCombineEntriesAtOffset s offset metaSizeBytes =
      if startOf metaSizeBytes s i ≠ offset &&& s.buf.sizeMask then some (0, s)
      else bufCombineEntries s ((s.behind + i) % bufferMsgRingSize) metaSizeBytes := by
    rw [bufCombineEntriesAtOffset, hloop]
    rfl
  rw [permits_iff h]
  dsimp only [Right]
  rw [hcall]
  rcases Nat.lt_or_eq_of_le hi with hlt | rfl
  · -- a message that was sent is found
    have hstart := hfound hlt
    have ha : Allowed s (.combineEntries ((s.behind + i) % bufferMsgRingSize) : Call M) :=
      ⟨Nat.mod_lt _ (by decide), by rwa [entriesTo_add h.behind_lt (Nat.lt_trans hlt hring)]⟩
    obtain ⟨result, s', hs', hcombined, hinv⟩ := right_combineEntries h ha (fun before =>
      (s.buf.tail + BitVec.ofNat 16 (total before)) &&& s.buf.sizeMask =
        offset &&& s.buf.sizeMask)
      (by rw [entriesTo_add h.behind_lt (Nat.lt_trans hlt hring)]; exact hstart)
    rw [if_neg (not_not_intro hstart), hs']
    refine ⟨iff_of_true ⟨result, s', rfl, hcombined⟩ fun he => ⟨i, hlt, hstart.trans he⟩,
      fun _ result' s'' he => ?_⟩
    obtain ⟨-, rfl⟩ := Prod.mk.inj (some.inj he)
    exact hinv
  · rw [startOf_back h]
    by_cases hend : s.buf.outdex = offset &&& s.buf.sizeMask
    · -- only `back` is found
      have hnone : ¬∃ j < entriesTo s.behind s.back, startOf metaSizeBytes s j = s.buf.outdex := by
        rintro ⟨j, hj, hstart⟩
        exact hbefore j (Nat.zero_le j) hj (hstart.trans hend)
      rw [if_neg (not_not_intro hend), add_entriesTo h.behind_lt h.back_lt]
      refine ⟨iff_of_false ?_ fun hp => hnone (hp hend.symm), fun hp => absurd (hp hend.symm) hnone⟩
      rintro ⟨result, s', hs', ⟨-, hsame⟩ | ⟨-, -, -, before, first, second, behind, hstart, hsent, -⟩⟩
      · exact combine_back h hs' hsame
      · obtain ⟨hlt, hstartOf⟩ := startOf_of_sent hsent
        exact hnone ⟨_, hlt, hstartOf.trans (hstart.trans hend.symm)⟩
    · rw [if_pos hend]
      refine ⟨iff_of_true ⟨0, s, rfl, .inl ⟨rfl, rfl⟩⟩ fun he => absurd he.symm hend,
        fun _ result' s'' he => ?_⟩
      obtain ⟨-, rfl⟩ := Prod.mk.inj (some.inj he)
      exact h

/-! ## Result -/

theorem right_iff_of_inv (h : Inv metaSizeBytes s) {call : Call M} (ha : Allowed s call) :
    (Right metaSizeBytes s call ↔ Permits metaSizeBytes s call) ∧
      (Permits metaSizeBytes s call → ∀ s', ringStep metaSizeBytes s call = some s' →
        Inv metaSizeBytes s') := by
  cases call with
  | addToFront len metaData =>
    obtain ⟨hright, hinv⟩ := right_addToFront h ha
    exact ⟨iff_of_true hright trivial, fun _ s' hs => some.inj hs ▸ hinv⟩
  | updateBack =>
    obtain ⟨hright, hinv⟩ := right_updateBack h ha
    exact ⟨iff_of_true hright trivial, fun _ s' hs => some.inj hs ▸ hinv⟩
  | unupdateBack =>
    obtain ⟨hright, hinv⟩ := right_unupdateBack h
    exact ⟨iff_of_true hright trivial, fun _ s' hs => some.inj hs ▸ hinv⟩
  | updateBehind =>
    obtain ⟨hright, hinv⟩ := right_updateBehind h ha
    exact ⟨iff_of_true hright trivial, fun _ s' hs => some.inj hs ▸ hinv⟩
  | combineEntries entry =>
    obtain ⟨result, s', hs', hcombined, hinv⟩ := right_combineEntries h ha
      (fun before => before.length = entriesTo s.behind entry) length_slice
    refine ⟨iff_of_true ⟨result, s', hs', hcombined⟩ trivial, fun _ s'' hs => ?_⟩
    rw [ringStep, hs'] at hs
    exact some.inj hs ▸ hinv
  | combineEntriesAtOffset offset =>
    obtain ⟨hiff, hinv⟩ := right_atOffset_iff h offset
    refine ⟨hiff, fun hp s' hs => ?_⟩
    obtain ⟨⟨result, s''⟩, hcall, rfl⟩ := map_eq_some_iff.mp hs
    exact hinv hp result s'' hcall

end Invariant

/-- **The message ring.** In the runs that respect the checks, every call does what it must iff no
call combines at the offset of the next message to be sent, unless a message without data was sent
last. -/
theorem right_iff_permits {metaSizeBytes : BitVec 16} {sizeLog : ℕ} {msgLengths : ℕ → BitVec 16}
    {metaData : ℕ → M} {calls : List (Call M)}
    (h : Meets (ringStep metaSizeBytes) Allowed (emptyRing sizeLog msgLengths metaData) calls) :
    Meets (ringStep metaSizeBytes) (Right metaSizeBytes) (emptyRing sizeLog msgLengths metaData)
        calls ↔
      Meets (ringStep metaSizeBytes) (Permits metaSizeBytes)
        (emptyRing sizeLog msgLengths metaData) calls := by
  have hinit := inv_emptyRing metaSizeBytes sizeLog msgLengths metaData
  constructor
  · intro hright
    have hboth := h.and hright
    refine meets_of_meets (fun s call hs hc => ?_) hinit hboth
    obtain ⟨hiff, hinv⟩ := right_iff_of_inv hs hc.1
    exact ⟨hiff.mp hc.2, hinv (hiff.mp hc.2)⟩
  · intro hpermits
    have hboth := h.and hpermits
    refine meets_of_meets (fun s call hs hc => ?_) hinit hboth
    obtain ⟨hiff, hinv⟩ := right_iff_of_inv hs hc.1
    exact ⟨hiff.mpr hc.2, hinv hc.2⟩

/-- Two messages are sent and combined by the offset of the first, and the second one is sent once
more. -/
def combinedRun : List (Call UInt8) :=
  [.addToFront 4 1, .addToFront 3 2, .addToFront 0 3, .updateBack, .updateBack, .unupdateBack,
    .updateBack, .combineEntriesAtOffset 0, .updateBack, .updateBehind]

theorem right_iff_permits_combinedRun :
    Meets (ringStep 1) Allowed (emptyRing 4 (fun _ => 0) fun _ => 0) combinedRun ∧
      Meets (ringStep 1) (Permits 1) (emptyRing 4 (fun _ => 0) fun _ => 0) combinedRun ∧
      Meets (ringStep 1) (Right 1) (emptyRing 4 (fun _ => 0) fun _ => 0) combinedRun :=
  have hallowed : Meets (ringStep 1) Allowed (emptyRing 4 (fun _ => 0) fun _ => 0) combinedRun := by
    decide +kernel
  have hpermits : Meets (ringStep 1) (Permits 1) (emptyRing 4 (fun _ => 0) fun _ => 0)
      combinedRun := by
    decide +kernel
  ⟨hallowed, hpermits, (right_iff_permits hallowed).mpr hpermits⟩

/-- The offset of a message that is to be sent: it takes the place of the one that was sent before
it, which is taken off the ring. -/
theorem not_right_atOutdex :
    ¬(∀ calls : List (Call UInt8),
      Meets (ringStep 1) Allowed (emptyRing 4 (fun _ => 0) fun _ => 0) calls →
        Meets (ringStep 1) (Right 1) (emptyRing 4 (fun _ => 0) fun _ => 0) calls) := by
  intro hall
  obtain ⟨-, -, -, ⟨result, s', hs', hcombined⟩, -⟩ :=
    hall [.addToFront 4 1, .addToFront 3 2, .updateBack, .combineEntriesAtOffset 4]
      (by decide +kernel)
  have hbehind : some 1 = some s'.behind :=
    congrArg (Option.map fun r : BitVec 16 × BufferMsg UInt8 => r.2.behind) hs'
  rcases hcombined with ⟨-, rfl⟩ | ⟨-, -, -, before, first, second, behind, -, hsent, -⟩
  · cases hbehind
  · have hlen : 1 = (before ++ first :: second :: behind).length := congrArg List.length hsent
    rw [List.length_append, List.length_cons, List.length_cons] at hlen
    omega

end Mh40.Buffers
