import Mh40.DfuProtocol.Requests

/-!
# What the DFU protocol cache answers

Runs of the cache in which a client writes any piece of the file at any time, also one that it
sent before or one to resume from, and the upgrade library requests and reads.

* `Retransmits`, `Reads`: the answers of `DfuProtocol_WriteData` and `DfuProtocol_ReadData` that
  let the client send a piece again and the library read what is there.
* `meets_retransmits_iff`: a piece is refused by a panic when the file has no room for the whole
  of it behind the write offset, although the part that is new fits.
* `meets_reads_iff`: a read of everything up to the write offset is refused while the requested
  offset is ahead of the read offset.
-/

namespace Mh40.DfuProtocol

open Lib.Buffer Lib.Ring List Option

variable {file data : List UInt8} {s s' : DfuProtocolData} {offset length size : ℕ}

/-- A call of the cache, with the bytes that a write brings. -/
inductive Request where
  | writeData (data : List UInt8) (offset : ℕ)
  | setRequestedReadOffset (offset : ℕ)
  | setRequestedNumberOfBytes (number : ℕ)
  | readData (length : ℕ)

/-- The arguments fit their types, and what is written is a piece of the file. -/
def Fits (s : DfuProtocolData) : Request → Prop
  | .writeData data offset => data.length < 2 ^ 16 ∧ offset + data.length ≤ s.totalDfuFileSize
  | .setRequestedReadOffset offset => offset < 2 ^ 32
  | .setRequestedNumberOfBytes number => number < 2 ^ 32
  | .readData length => length < 2 ^ 16

instance fits_decidable (s : DfuProtocolData) (r : Request) : Decidable (Fits s r) := by
  cases r <;> unfold Fits <;> infer_instance

/-- The cache after a call that fits and returns. -/
def after (s : DfuProtocolData) (r : Request) : Option DfuProtocolData :=
  if Fits s r then
    match r with
    | .writeData data offset => (writeData s data offset).toOption.map Prod.snd
    | .setRequestedReadOffset offset => (setRequestedReadOffset s offset).toOption
    | .setRequestedNumberOfBytes number => (setRequestedNumberOfBytes s number).toOption
    | .readData length => (dfuProtocolReadData s length).toOption.map Prod.snd
  else none

/-- The cache is in order for some file of the announced size: what a client wrote. -/
def InOrder (s : DfuProtocolData) : Prop := ∃ file : List UInt8, file.length < 2 ^ 32 ∧ Inv file s

/-! ## The answers -/

/-- How many bytes of a piece are behind the write offset. -/
def newBytes (s : DfuProtocolData) (offset length : ℕ) : ℕ := offset + length - s.writeOffset

/-- What `DfuProtocol_WriteData` must answer to a piece that starts in front of the write offset or
at it: `TRUE` when the part that is new fits or the piece is not of interest, else `FALSE`. -/
def Retransmits (s : DfuProtocolData) : Request → Prop
  | .writeData data offset =>
    Fits s (.writeData data offset) → offset ≤ s.writeOffset →
      if s.writeOffset - s.readOffset + newBytes s offset data.length ≤ bufferSizeInBytes ∨
          offset + data.length < s.requestedReadOffset then
        ∃ s', writeData s data offset = .ok (true, s') ∧
          s'.writeOffset = max s.writeOffset (offset + data.length)
      else writeData s data offset = .ok (false, s)
  | _ => True

/-- A piece gets that answer. Either it is ignored, or the file has room for the whole of it behind
the write offset and it ends at the write offset, in the 16 bits of the code, or it brings something
new from less than `2 ^ 15` bytes in front of the write offset (`2 ^ 16` when there is no room). -/
def Accepted (s : DfuProtocolData) : Request → Prop
  | .writeData data offset =>
    Fits s (.writeData data offset) → offset ≤ s.writeOffset →
      isRequestedDataBeyondTheDataWrite s data.length offset = true ∨
        ((s.writeOffset + data.length) % 2 ^ 32 ≤ s.totalDfuFileSize ∧
          (data.length = overlap s offset ∨
            (overlap s offset < data.length ∧ s.writeOffset < offset + 2 ^ 16 ∧
              (s.writeOffset < offset + 2 ^ 15 ∨
                bufferSizeInBytes < s.writeOffset - s.readOffset + newBytes s offset data.length))))
  | _ => True

instance accepted_decidable (s : DfuProtocolData) (r : Request) : Decidable (Accepted s r) := by
  cases r <;> unfold Accepted <;> infer_instance

/-- All of the bytes that a read of this length is about are in the cache. -/
def InCache (s : DfuProtocolData) (length : ℕ) : Prop :=
  ∀ i, s.requestedReadOffset ≤ i → i < s.requestedReadOffset + length →
    s.readOffset ≤ i ∧ i < s.writeOffset

/-- What `DfuProtocol_ReadData` must answer: `TRUE`, with the request served, exactly when the bytes
are there, else `FALSE` with the cache unchanged. -/
def Reads (s : DfuProtocolData) : Request → Prop
  | .readData length =>
    Fits s (.readData length) → length ≤ s.requestedNumberOfBytes →
      (InCache s length → ∃ bytes s', dfuProtocolReadData s length = .ok (some bytes, s') ∧
        s'.requestedNumberOfBytes = s.requestedNumberOfBytes - length ∧
        s'.requestedReadOffset = s.requestedReadOffset + length) ∧
      (¬ InCache s length → dfuProtocolReadData s length = .ok (none, s))
  | _ => True

/-- A read gets that answer: it ends within the file, it is not empty behind the requested offset,
it does not run over the end of a full buffer, and with the requested offset ahead of the read
offset it does not end exactly at the write offset. -/
def Served (s : DfuProtocolData) : Request → Prop
  | .readData length =>
    Fits s (.readData length) → length ≤ s.requestedNumberOfBytes →
      (s.requestedReadOffset + length) % 2 ^ 32 ≤ s.totalDfuFileSize ∧
      (s.requestedReadOffset < s.readOffset → 0 < length) ∧
      (s.requestedReadOffset = s.readOffset →
        ¬ (s.writeOffset - s.readOffset = bufferSizeInBytes ∧ length ≤ bufferSizeInBytes ∧
          bufferSizeInBytes < s.readIndex + length)) ∧
      (s.readOffset < s.requestedReadOffset →
        s.requestedReadOffset + length ≠ s.writeOffset ∧
          s.requestedReadOffset + length < 2 ^ 32)
  | _ => True

instance served_decidable (s : DfuProtocolData) (r : Request) : Decidable (Served s r) := by
  cases r <;> unfold Served <;> infer_instance

/-- What a write adds ends within the file. It always does when the piece starts less than `2 ^ 16`
bytes in front of the write offset. -/
def StaysInside (s : DfuProtocolData) : Request → Prop
  | .writeData data offset =>
    Fits s (.writeData data offset) → offset ≤ s.writeOffset →
      isRequestedDataBeyondTheDataWrite s data.length offset = false →
        s.writeOffset + (data.length - overlap s offset) ≤ s.totalDfuFileSize
  | _ => True

instance staysInside_decidable (s : DfuProtocolData) (r : Request) :
    Decidable (StaysInside s r) := by
  cases r <;> unfold StaysInside <;> infer_instance

/-! ## One write -/

/-- Only what is in front of the write offset matters for the order of the cache. -/
theorem Inv.congr {file' : List UInt8} (h : Inv file s) (hl : file'.length = file.length)
    (htake : file'.take s.writeOffset = file.take s.writeOffset) : Inv file' s := by
  have hle := h.read_le
  have hslice : slice file' s.readOffset (s.writeOffset - s.readOffset) =
      slice file s.readOffset (s.writeOffset - s.readOffset) := by
    rw [slice, slice, ← drop_take, ← drop_take, htake]
  refine ⟨⟨h.length, hle, by rw [hl]; exact h.write_le, ?_, h.index⟩, by rw [hl]; exact h.size,
    h.requested_le⟩
  rw [hslice]
  exact h.window

/-- The cache after some bytes have been stored is in order for the file with these bytes. -/
theorem InOrder.store (h : Inv file s) (hf : file.length < 2 ^ 32) {buffer more : List UInt8}
    (hpos : 0 < more.length)
    (hend : s.writeOffset + more.length ≤ file.length)
    (hfree : s.writeOffset - s.readOffset + more.length ≤ bufferSizeInBytes)
    (hl : buffer.length = bufferSizeInBytes)
    (hw : Window buffer s.readIndex
      (slice file s.readOffset (s.writeOffset - s.readOffset) ++ more)) :
    InOrder { s with
      buffer
      writeOffset := (s.writeOffset + more.length) % 2 ^ 32
      writeIndex := slot bufferSizeInBytes s.writeIndex more.length } := by
  have hle := h.read_le
  have hwle := h.write_le
  set file' := file.take s.writeOffset ++ (more ++ file.drop (s.writeOffset + more.length))
    with hfile
  have htl : (file.take s.writeOffset).length = s.writeOffset := by
    rw [length_take, Nat.min_eq_left hwle]
  have hl' : file'.length = file.length := by
    simp only [hfile, length_append, htl, length_drop]
    omega
  have hinv : Inv file' s := by
    refine h.congr hl' ?_
    rw [hfile, take_left' htl]
  have hmore : slice file' s.writeOffset more.length = more := by
    rw [slice, hfile, drop_left' htl, take_left]
  have hmod : (s.writeOffset + more.length) % 2 ^ 32 = s.writeOffset + more.length :=
    Nat.mod_eq_of_lt (by omega)
  refine ⟨file', by rw [hl']; exact hf, ?_, hinv.size, ?_⟩
  · have hslice : slice file' s.readOffset (s.writeOffset - s.readOffset) =
        slice file s.readOffset (s.writeOffset - s.readOffset) := by
      rw [slice, slice, ← drop_take, ← drop_take, hfile, take_left' htl]
    refine (holds_store_iff hinv.toHolds (by rw [hl']; exact hf) hpos
      (by rw [hl']; exact hend) hfree hl ?_).mpr rfl
    rw [hslice, hmore]
    exact hw
  · show s.requestedReadOffset ≤ (s.writeOffset + more.length) % 2 ^ 32
    have := h.requested_le
    omega

/-- A client that resumes starts the empty cache at its own offset. -/
theorem Inv.resume (h : Inv file s) (hr : s.readOffset = 0) (hw : s.writeOffset = 0)
    (hoff : offset ≤ file.length) (hreq : s.requestedReadOffset ≤ offset) :
    Inv file { s with writeOffset := offset, readOffset := offset } := by
  refine ⟨⟨h.length, le_rfl, hoff, ?_, ?_⟩, h.size, hreq⟩
  · simp only [Nat.sub_self]
    refine Window.nil ?_
    rw [h.length]
    exact h.readIndex_lt
  · have hidx := h.index
    rw [hr, hw] at hidx
    simpa only [Nat.sub_self] using hidx

/-- A piece in front of the write offset, or at it, leaves the cache in order. -/
theorem inOrder_writeData (h : Inv file s) (hf : file.length < 2 ^ 32)
    (hfit : Fits s (.writeData data offset)) (hoff : offset ≤ s.writeOffset)
    (hin : StaysInside s (.writeData data offset)) {answer : Bool}
    (hw : writeData s data offset = .ok (answer, s')) : InOrder s' := by
  have hsize := h.size
  rcases writeData_cases h hf data hfit.1 hoff with ⟨-, hc⟩ | ⟨-, -, hc⟩ | ⟨-, -, -, hc⟩ |
    ⟨-, -, -, hc⟩ | ⟨-, -, hc⟩ | ⟨hs, -, buffer, hc, hl, hwin⟩ <;> rw [hc] at hw <;> cases hw
  · exact ⟨file, hf, h⟩
  · exact ⟨file, hf, h⟩
  · exact ⟨file, hf, h⟩
  · obtain ⟨hign, -, hfree, hnew⟩ := hs
    have hlen : (slice data (overlap s offset) (data.length - overlap s offset)).length =
        data.length - overlap s offset := length_slice (by omega)
    have hend := hin hfit hoff hign
    have hstore := InOrder.store h hf (by omega) (by omega) (by omega) hl hwin
    rwa [hlen] at hstore

/-- Any piece leaves the cache in order. -/
theorem inOrder_after_writeData (h : InOrder s) (hin : StaysInside s (.writeData data offset))
    (hn : after s (.writeData data offset) = some s') : InOrder s' := by
  obtain ⟨file, hf, h⟩ := h
  unfold after at hn
  split_ifs at hn with hfit
  dsimp only at hn
  obtain ⟨⟨answer, t⟩, hw, rfl⟩ := map_eq_some_iff.mp hn
  have hw : writeData s data offset = .ok (answer, t) := by
    cases hc : writeData s data offset with
    | error stop => rw [hc] at hw; cases hw
    | ok r => rw [hc] at hw; exact congrArg _ (some.inj hw)
  by_cases hoff : offset ≤ s.writeOffset
  · exact inOrder_writeData h hf hfit hoff hin hw
  by_cases hres : expectingFirstChunkOfData s = true ∧ s.requestedReadOffset < offset
  · -- the write is one at the write offset of the cache that has been set up for it
    obtain ⟨⟨hr0, hw0⟩, hreq⟩ : (s.readOffset = 0 ∧ s.writeOffset = 0) ∧
        s.requestedReadOffset < offset := by
      simpa only [expectingFirstChunkOfData, Bool.and_eq_true, decide_eq_true_eq] using hres
    set u : DfuProtocolData := { s with writeOffset := offset, readOffset := offset } with hu
    have hinv : Inv file u := h.resume hr0 hw0 (by have := hfit.2; have := h.size; omega) hreq.le
    have hsame : writeData s data offset = writeData u data offset := by
      have hfirst : expectingFirstChunkOfData u = false := by
        simp only [expectingFirstChunkOfData, hu, Bool.and_eq_false_iff, decide_eq_false_iff_not]
        omega
      unfold writeData
      simp only [hres.1, hres.2, hfirst, decide_true, Bool.and_self, if_true, Bool.false_and,
        Bool.false_eq_true, if_false]
      rfl
    rw [hsame] at hw
    refine inOrder_writeData hinv hf hfit le_rfl (fun _ _ _ => ?_) hw
    have := hfit.2
    simp only [hu, overlap, Nat.sub_self, Nat.zero_mod, Nat.sub_zero]
    exact this
  · -- beyond the write offset: ignored, or a panic
    have hfirst : (expectingFirstChunkOfData s && decide (s.requestedReadOffset < offset)) =
        false := by
      rw [Bool.eq_false_iff, ne_eq, Bool.and_eq_true, decide_eq_true_eq]
      exact hres
    unfold writeData populateCacheFromBuffer panicFalse at hw
    simp only [hfirst, Bool.false_eq_true, if_false, hoff, decide_false, bind, Except.bind] at hw
    split_ifs at hw
    cases hw
    exact ⟨file, hf, h⟩

/-- **One piece gets the answer that it should exactly when it is accepted.** -/
theorem retransmits_iff_accepted (h : InOrder s) (r : Request) :
    Retransmits s r ↔ Accepted s r := by
  obtain ⟨file, hf, h⟩ := h
  cases r with
  | writeData data offset =>
    refine forall_congr' fun hfit => forall_congr' fun hoff => ?_
    obtain ⟨hlen, hend⟩ := id hfit
    have hsize := h.size
    have hwle := h.write_le
    have hrle := h.read_le
    have hreq := h.requested_le
    have hcl := h.cached_le
    have hov : overlap s offset = (s.writeOffset - offset) % 2 ^ 16 := rfl
    unfold newBytes
    have hignored : isRequestedDataBeyondTheDataWrite s data.length offset = true ↔
        offset + data.length < s.requestedReadOffset ∨ data.length < overlap s offset := by
      rw [isRequestedDataBeyondTheDataWrite, offsetFromStartOfData_eq, ← hov,
        Nat.mod_eq_of_lt (by omega), Bool.or_eq_true, decide_eq_true_eq, decide_eq_true_eq]
    rcases writeData_cases h hf data hlen hoff with ⟨hign, hc⟩ | ⟨hign, hpanic, hc⟩ |
      ⟨hign, hfile, hfull, hc⟩ | ⟨hign, hfile, hold, hc⟩ | ⟨⟨hign, hfile, hfree, hnew⟩, hfar, hc⟩ |
      ⟨⟨hign, hfile, hfree, hnew⟩, hnear, buffer, hc, -⟩ <;> rw [hc]
    · have hpart := hignored.mp hign
      refine iff_of_true ?_ (.inl hign)
      rw [if_pos (.inl (by omega))]
      exact ⟨s, rfl, by omega⟩
    · refine iff_of_false (fun hr => ?_) (fun ha => ?_)
      · split_ifs at hr
        obtain ⟨_, hr, -⟩ := hr
        cases hr
      · rcases ha with ha | ⟨ha, -⟩
        · rw [hign] at ha
          cases ha
        · exact hpanic ha
    · -- refused: right unless the code sees new bytes in a piece that has none
      rw [hign, or_iff_right Bool.false_ne_true]
      have hnew : overlap s offset < data.length := by omega
      by_cases hnear : s.writeOffset < offset + 2 ^ 16
      · refine iff_of_true ?_ ⟨hfile, .inr ⟨hnew, hnear, .inr (by omega)⟩⟩
        rw [if_neg (by omega)]
      · refine iff_of_false (fun hr => ?_) (fun ha => by omega)
        rw [if_pos (.inl (by omega))] at hr
        obtain ⟨_, hr, -⟩ := hr
        cases hr
    · have hpart := mt hignored.mpr (by rw [hign]; exact Bool.false_ne_true)
      refine iff_of_true ?_ (.inr ⟨hfile, .inl (by omega)⟩)
      rw [if_pos (.inl (by omega))]
      exact ⟨s, rfl, by omega⟩
    · rw [hign, or_iff_right Bool.false_ne_true]
      refine iff_of_false (fun hr => ?_) (fun ha => by omega)
      split_ifs at hr
      obtain ⟨_, hr, -⟩ := hr
      cases hr
    · rw [hign, or_iff_right Bool.false_ne_true]
      by_cases hnear' : s.writeOffset < offset + 2 ^ 16
      · refine iff_of_true ?_ ⟨hfile, .inr ⟨hnew, hnear', .inl (by omega)⟩⟩
        rw [if_pos (.inl (by omega))]
        exact ⟨_, rfl, show (s.writeOffset + (data.length - overlap s offset)) % 2 ^ 32 = _ by
          omega⟩
      · refine iff_of_false (fun hr => ?_) (fun ha => by omega)
        rw [if_pos (.inl (by omega))] at hr
        obtain ⟨t, hr, hmax⟩ := hr
        cases hr
        have hmax : (s.writeOffset + (data.length - overlap s offset)) % 2 ^ 32 =
          max s.writeOffset (offset + data.length) := hmax
        omega
  | _ => exact Iff.rfl

/-- A piece that is accepted stays inside. -/
theorem staysInside_of_accepted (h : InOrder s) {r : Request} (ha : Accepted s r) :
    StaysInside s r := by
  obtain ⟨file, -, h⟩ := h
  have hwle := h.write_le
  have hsize := h.size
  cases r with
  | writeData data offset =>
    intro hfit hoff hign
    obtain ⟨hlen, hend⟩ := id hfit
    rcases ha hfit hoff with ha | ⟨-, ha | ⟨hnew, hnear, -⟩⟩
    · rw [hign] at ha
      cases ha
    · omega
    · have hov : overlap s offset = s.writeOffset - offset := Nat.mod_eq_of_lt (by omega)
      omega
  | _ => trivial

/-! ## One read -/

theorem inCache_iff : InCache s length ↔ length = 0 ∨
    (s.readOffset ≤ s.requestedReadOffset ∧ s.requestedReadOffset + length ≤ s.writeOffset) := by
  constructor
  · intro hc
    rcases Nat.eq_zero_or_pos length with hz | hpos
    · exact .inl hz
    · have hfirst := hc s.requestedReadOffset le_rfl (by omega)
      have hlast := hc (s.requestedReadOffset + length - 1) (by omega) (by omega)
      exact .inr ⟨hfirst.1, by omega⟩
  · rintro (rfl | ⟨hge, hle⟩) i hi hi'
    · omega
    · exact ⟨by omega, by omega⟩

/-- **One read gets the answer that it should exactly when it is served.** -/
theorem reads_iff_served (h : InOrder s) (r : Request) : Reads s r ↔ Served s r := by
  obtain ⟨file, hf, h⟩ := h
  cases r with
  | readData length =>
    refine forall_congr' fun hfit => forall_congr' fun hnum => ?_
    have hlen : length < 2 ^ 16 := hfit
    have hrl := h.read_le
    have hreq := h.requested_le
    have hwl := h.write_le
    have hsize := h.size
    have hcl := h.cached_le
    rw [inCache_iff]
    unfold dfuProtocolReadData panicFalse
    by_cases hpanic : (s.requestedReadOffset + length) % 2 ^ 32 ≤ s.totalDfuFileSize
    swap
    · simp only [hpanic, decide_false, Bool.false_eq_true, if_false, bind, Except.bind, false_and,
        iff_false, reduceCtorEq, exists_false, imp_false, not_and, not_not]
      exact fun h1 h2 => absurd h2 h1
    simp only [hpanic, decide_true, if_true, bind, Except.bind, true_and]
    by_cases hbefore : s.requestedReadOffset < s.readOffset
    · -- in front of the cache
      rw [if_pos hbefore]
      refine ⟨fun ⟨hr, _⟩ => ⟨fun _ => ?_, fun he => absurd he hbefore.ne,
        fun hlt => absurd hlt hbefore.not_gt⟩, fun ⟨hpos, _⟩ => ⟨fun hc => ?_, fun _ => rfl⟩⟩
      · by_contra hz
        obtain ⟨_, _, hr, -⟩ := hr (.inl (by omega))
        cases hr
      · have := hpos hbefore
        omega
    rw [if_neg hbefore]
    have hge : s.readOffset ≤ s.requestedReadOffset := by omega
    by_cases hnot : s.requestedReadOffset ≠ s.readOffset ∧
        (s.requestedReadOffset + length) % 2 ^ 32 ≥ s.writeOffset
    · -- not written yet, as the code sees it
      rw [if_pos hnot]
      have hend : s.requestedReadOffset + length < 2 ^ 32 := by omega
      refine ⟨fun ⟨hr, _⟩ => ⟨fun hlt => absurd hlt hbefore, fun he => absurd he hnot.1,
          fun _ => ⟨fun he => ?_, hend⟩⟩,
        fun ⟨_, _, hahead⟩ => ⟨fun hc => ?_, fun _ => rfl⟩⟩
      · obtain ⟨_, _, hr, -⟩ := hr (.inr ⟨hge, he.le⟩)
        cases hr
      · have := hahead (by omega)
        omega
    rw [if_neg hnot]
    have hskip := h.skip hge
    have hidx : s.requestedReadOffset = s.readOffset →
        slot bufferSizeInBytes s.readIndex (s.requestedReadOffset - s.readOffset) =
          s.readIndex := by
      intro he
      rw [he, Nat.sub_self, slot_zero h.readIndex_lt]
    rw [populateBufferFromCache_eq h hge]
    rcases takeFromCache_cases hskip hf rfl length with ⟨hlt, hc⟩ | ⟨hlt, hc⟩ |
      ⟨h1, h2, h3, h4, hc⟩ | ⟨hav, hne, s', hc, -, hn', hq'⟩ <;> dsimp only at * <;> rw [hc]
    · omega
    · -- not there: the code has moved the read offset when the requested one is ahead of it
      have hout : ¬ (length = 0 ∨ (s.readOffset ≤ s.requestedReadOffset ∧
          s.requestedReadOffset + length ≤ s.writeOffset)) := by omega
      by_cases he : s.requestedReadOffset = s.readOffset
      · refine iff_of_true ⟨fun hin => absurd hin hout, fun _ => ?_⟩
          ⟨by omega, by omega, by omega⟩
        rw [hidx he]
        cases s
        cases he
        rfl
      · refine iff_of_false (fun ⟨_, hr⟩ => he ?_) (fun ⟨_, _, ha⟩ => ?_)
        · have hread := congrArg DfuProtocolData.readOffset (Prod.mk.inj (Except.ok.inj (hr hout))).2
          exact hread
        · have := ha (by omega)
          omega
    · have he : s.requestedReadOffset = s.readOffset := by omega
      rw [hidx he] at h4
      have hfull : s.writeOffset - s.readOffset = bufferSizeInBytes := by omega
      have hle : s.requestedReadOffset + length ≤ s.writeOffset := by omega
      refine iff_of_false (fun ⟨hr, _⟩ => ?_) (fun ⟨_, ha, _⟩ => ha he ⟨hfull, h2, h4⟩)
      obtain ⟨_, _, hr, -⟩ := hr (.inr ⟨hge, hle⟩)
      cases hr
    · have hin : s.readOffset ≤ s.requestedReadOffset ∧
          s.requestedReadOffset + length ≤ s.writeOffset := ⟨hge, by omega⟩
      refine iff_of_true ⟨fun _ => ⟨_, s', rfl, hn', hq'⟩, fun hno => absurd (.inr hin) hno⟩
        ⟨by omega, fun he => ?_, by omega⟩
      rw [hidx he] at hne
      omega
  | _ => exact Iff.rfl

/-! ## Runs -/

theorem toOption_eq_some {ε α : Type*} {x : Except ε α} {a : α} (h : x.toOption = some a) :
    x = .ok a := by
  cases x with
  | error e => cases h
  | ok b => exact congrArg _ (some.inj h)

/-- Every call leaves the cache in order when what it adds ends within the file. -/
theorem inOrder_after (h : InOrder s) {r : Request} (hin : StaysInside s r)
    (hn : after s r = some s') : InOrder s' := by
  cases r with
  | writeData data offset => exact inOrder_after_writeData h hin hn
  | setRequestedReadOffset offset =>
    obtain ⟨file, hf, h⟩ := h
    unfold after at hn
    split_ifs at hn
    have hc := toOption_eq_some hn
    rcases setRequestedReadOffset_cases h offset with hc' | ⟨t, hc', hi⟩ <;> rw [hc'] at hc <;>
      cases hc
    exact ⟨file, hf, hi⟩
  | setRequestedNumberOfBytes number =>
    obtain ⟨file, hf, h⟩ := h
    unfold after setRequestedNumberOfBytes panicFalse at hn
    split_ifs at hn
    · cases hn
      exact ⟨file, hf, ⟨h.length, h.read_le, h.write_le, h.window, h.index⟩, h.size,
        h.requested_le⟩
    · cases hn
  | readData length =>
    obtain ⟨file, hf, h⟩ := h
    unfold after at hn
    split_ifs at hn
    obtain ⟨⟨answer, t⟩, hw, rfl⟩ := map_eq_some_iff.mp hn
    have hc := toOption_eq_some hw
    rcases call_readData_cases h hf length with ⟨-, hc' | ⟨t, hc', hi⟩ | ⟨t, hc', hi⟩⟩ |
      ⟨-, hc'⟩ <;> rw [hc'] at hc <;> cases hc
    · exact ⟨file, hf, hi⟩
    · exact ⟨file, hf, hi⟩

theorem inOrder_createDataInstance (h : size < 2 ^ 32) : InOrder (createDataInstance size) := by
  refine ⟨List.replicate size 0, by rwa [length_replicate], ?_⟩
  have hinv := inv_createDataInstance (List.replicate size 0)
  rwa [length_replicate] at hinv

/-- **In a run from the start every piece gets its answer exactly when every piece is accepted.** -/
theorem meets_retransmits_iff (size : ℕ) (hsize : size < 2 ^ 32) (rs : List Request) :
    Lib.Meets after Retransmits (createDataInstance size) rs ↔
      Lib.Meets after Accepted (createDataInstance size) rs :=
  Lib.meets_iff_meets (fun _ r h => retransmits_iff_accepted h r)
    (fun _ _ _ h ha hn => inOrder_after h (staysInside_of_accepted h ha) hn)
    (inOrder_createDataInstance hsize)

/-- The last piece of a file comes twice. -/
def lastPieceTwice : List Request :=
  [.writeData [1, 2, 3] 0, .writeData [4, 5] 3, .writeData [4, 5] 3]

theorem meets_retransmits_firstPieceTwice : Lib.Meets after Retransmits (createDataInstance 5)
    [.writeData [1, 2] 0, .writeData [1, 2] 0, .writeData [3] 2] :=
  (meets_retransmits_iff 5 (by decide) _).mpr (by decide +kernel)

/-- The file has no room for two bytes behind its end. -/
theorem not_retransmits_lastPieceTwice :
    ¬ Lib.Meets after Retransmits (createDataInstance 5) lastPieceTwice := by
  intro h
  have hs := Lib.meets_iff_meets (fun _ r h => retransmits_iff_accepted h r)
    (fun _ _ _ h ha hn => inOrder_after h (staysInside_of_accepted h ha) hn)
    (inOrder_createDataInstance (show 5 < 2 ^ 32 by decide)) |>.mp h
  exact absurd hs (by decide +kernel)

/-- **In a run whose writes stay inside every read gets its answer exactly when every read is
served.** -/
theorem meets_reads_iff (size : ℕ) (hsize : size < 2 ^ 32) (rs : List Request)
    (hin : Lib.Meets after StaysInside (createDataInstance size) rs) :
    Lib.Meets after Reads (createDataInstance size) rs ↔
      Lib.Meets after Served (createDataInstance size) rs :=
  Lib.meets_iff_meets_of_meets (fun _ r h _ => reads_iff_served h r)
    (fun _ _ _ h hi hn => inOrder_after h hi hn) (inOrder_createDataInstance hsize) hin

/-- The library skips two bytes of a short file and reads what is left of it. -/
def skipAndRead (number : ℕ) : List Request :=
  [.writeData [1, 2, 3, 4] 0, .setRequestedReadOffset 2, .setRequestedNumberOfBytes 2,
    .readData number]

theorem meets_reads_skipAndRead : Lib.Meets after Reads (createDataInstance 4) (skipAndRead 1) :=
  (meets_reads_iff 4 (by decide) _ (by decide +kernel)).mpr (by decide +kernel)

/-- The two bytes are there, but they are the last ones. -/
theorem not_reads_skipAndRead :
    ¬ Lib.Meets after Reads (createDataInstance 4) (skipAndRead 2) := by
  intro h
  have hs := Lib.meets_iff_meets_of_meets (fun _ r h _ => reads_iff_served h r)
    (fun _ _ _ h hi hn => inOrder_after h hi hn)
    (inOrder_createDataInstance (show 4 < 2 ^ 32 by decide)) (by decide +kernel) |>.mp h
  exact absurd hs (by decide +kernel)

end Mh40.DfuProtocol
