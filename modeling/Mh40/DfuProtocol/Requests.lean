import Mh40.DfuProtocol.Window

/-!
# Runs of the DFU protocol cache

A client writes parts of the file, the upgrade library sets what it requests and reads.

* `Right`: what an operation must do. `Allowed`: when it does.
* `call_spec`: an operation that is allowed is right and keeps the cache in order.
* `meets_right_iff`: a run is right exactly when every operation of it is allowed. Two kinds are
  not: a read out of the full buffer that reaches behind its end, and a write of a packet that
  starts 2 ^ 15 bytes or more in front of the write offset and brings something new.
-/

namespace Mh40.DfuProtocol

open Lib.Buffer Lib.Ring

variable {file : List UInt8} {s s' : DfuProtocolData}

/-- A call of the cache. -/
inductive Op where
  | writeData (length offset : ℕ)
  | setRequestedReadOffset (offset : ℕ)
  | setRequestedNumberOfBytes (number : ℕ)
  | readData (length : ℕ)

/-- The arguments fit their types, and a write has bytes of the file from an offset that is not
beyond the write offset. -/
def Permitted (file : List UInt8) (s : DfuProtocolData) : Op → Prop
  | .writeData length offset =>
    length < 2 ^ 16 ∧ offset ≤ s.writeOffset ∧ offset + length ≤ file.length
  | .setRequestedReadOffset offset => offset < 2 ^ 32
  | .setRequestedNumberOfBytes number => number < 2 ^ 32
  | .readData length => length < 2 ^ 16

instance (file : List UInt8) (s : DfuProtocolData) (op : Op) : Decidable (Permitted file s op) := by
  cases op <;> unfold Permitted <;> infer_instance

/-- A call: the bytes that it reads, if any, and the cache after it. -/
def call (file : List UInt8) (s : DfuProtocolData) :
    Op → Except Stop (Option (List UInt8) × DfuProtocolData)
  | .writeData length offset => (writeData s (slice file offset length) offset).map fun r =>
    (none, r.2)
  | .setRequestedReadOffset offset => (setRequestedReadOffset s offset).map fun s => (none, s)
  | .setRequestedNumberOfBytes number => (setRequestedNumberOfBytes s number).map fun s => (none, s)
  | .readData length => dfuProtocolReadData s length

/-- The cache after a call that is permitted and returns. -/
def next (file : List UInt8) (s : DfuProtocolData) (op : Op) : Option DfuProtocolData :=
  if Permitted file s op then (call file s op).toOption.map Prod.snd else none

/-- The bytes that a call should read when it reads some. -/
def expected (file : List UInt8) (s : DfuProtocolData) : Op → List UInt8
  | .readData length => slice file s.requestedReadOffset length
  | _ => []

/-- The call makes no access outside of a buffer, the bytes that it reads are those of the file,
and the cache holds the window of the file after it. -/
def Right (file : List UInt8) (s : DfuProtocolData) (op : Op) : Prop :=
  Permitted file s op → match call file s op with
    | .error .panic => True
    | .error .outside => False
    | .ok (data, s') => Holds file s' ∧ ∀ bytes, data = some bytes → bytes = expected file s op

/-- How far the start of a packet is in front of the write offset, in the 16 bits that the code
uses for it. -/
def overlap (s : DfuProtocolData) (offset : ℕ) : ℕ := (s.writeOffset - offset) % 2 ^ 16

/-- The packet is not ignored, the file has room for it, and the cache has room for the part that
is new. -/
def Stores (s : DfuProtocolData) (length offset : ℕ) : Prop :=
  isRequestedDataBeyondTheDataWrite s length offset = false ∧
    (s.writeOffset + length) % 2 ^ 32 ≤ s.totalDfuFileSize ∧
    s.writeOffset - s.readOffset + (length - overlap s offset) ≤ bufferSizeInBytes ∧
    overlap s offset < length

instance (s : DfuProtocolData) (length offset : ℕ) : Decidable (Stores s length offset) := by
  unfold Stores
  infer_instance

/-- When a call is right. A packet that brings something new starts less than `2 ^ 15` bytes in front
of the write offset (or has the bytes of the write offset where the code looks for them), and a
read of the full buffer stays in front of its end. -/
def Allowed (file : List UInt8) (s : DfuProtocolData) : Op → Prop
  | .writeData length offset =>
    Permitted file s (.writeData length offset) → Stores s length offset →
      overlap s offset < 2 ^ 15 ∧
        slice file (offset + overlap s offset) (length - overlap s offset) =
          slice file s.writeOffset (length - overlap s offset)
  | .readData length =>
    length ≤ s.requestedNumberOfBytes → length ≤ bufferSizeInBytes →
      s.writeOffset - s.readOffset = bufferSizeInBytes → s.requestedReadOffset = s.readOffset →
        s.readIndex + length ≤ bufferSizeInBytes
  | _ => True

instance (file : List UInt8) (s : DfuProtocolData) (op : Op) : Decidable (Allowed file s op) := by
  cases op <;> unfold Allowed <;> infer_instance

/-! ## One call -/

variable {op : Op}

theorem offsetFromStartOfData_eq (s : DfuProtocolData) (offset : ℕ) :
    offsetFromStartOfData s offset = s.writeOffset - offset := by
  unfold offsetFromStartOfData
  split_ifs <;> omega

theorem sub_int16 {length d : ℕ} (hlen : length < 2 ^ 16) (h : d % 2 ^ 16 ≤ length) :
    (((length : ℤ) - int16 d) % 2 ^ 16).toNat = length - d % 2 ^ 16 := by
  unfold int16
  dsimp only
  split_ifs <;> omega

/-- A write without the case of a client that resumes, which needs data beyond the write offset. -/
theorem writeData_eq {data : List UInt8} {offset : ℕ} (hlen : data.length < 2 ^ 16)
    (hoff : offset ≤ s.writeOffset) :
    writeData s data offset =
      if isRequestedDataBeyondTheDataWrite s data.length offset then .ok (true, s)
      else if (s.writeOffset + data.length) % 2 ^ 32 ≤ s.totalDfuFileSize then
        storeInCache s data (int16 (s.writeOffset - offset)) (data.length - overlap s offset)
      else .error .panic := by
  have hfirst : (expectingFirstChunkOfData s && decide (s.requestedReadOffset < offset)) = false := by
    simp only [expectingFirstChunkOfData, Bool.and_eq_false_iff, decide_eq_false_iff_not]
    omega
  unfold writeData populateCacheFromBuffer panicFalse
  simp only [hfirst, Bool.false_eq_true, if_false, hoff, decide_true, if_true,
    offsetFromStartOfData_eq, bind, Except.bind]
  by_cases hign : isRequestedDataBeyondTheDataWrite s data.length offset = true
  · simp only [hign, if_true]
  · have hle : overlap s offset ≤ data.length := by
      simp only [isRequestedDataBeyondTheDataWrite, Bool.or_eq_true, decide_eq_true_eq,
        offsetFromStartOfData_eq] at hign
      unfold overlap
      omega
    rw [sub_int16 hlen hle]
    by_cases hsize : (s.writeOffset + data.length) % 2 ^ 32 ≤ s.totalDfuFileSize
    · simp only [hign, hsize, decide_true, Bool.false_eq_true, if_false, if_true, overlap]
    · simp only [hign, hsize, decide_false, Bool.false_eq_true, if_false]

section

variable (h : Inv file s)
include h

/-- What a write of any bytes can do. -/
theorem writeData_cases (hf : file.length < 2 ^ 32) (data : List UInt8) {offset : ℕ}
    (hlen : data.length < 2 ^ 16) (hoff : offset ≤ s.writeOffset) :
    (isRequestedDataBeyondTheDataWrite s data.length offset = true ∧
      writeData s data offset = .ok (true, s)) ∨
    (isRequestedDataBeyondTheDataWrite s data.length offset = false ∧
      ¬ (s.writeOffset + data.length) % 2 ^ 32 ≤ s.totalDfuFileSize ∧
      writeData s data offset = .error .panic) ∨
    (isRequestedDataBeyondTheDataWrite s data.length offset = false ∧
      (s.writeOffset + data.length) % 2 ^ 32 ≤ s.totalDfuFileSize ∧
      bufferSizeInBytes < s.writeOffset - s.readOffset + (data.length - overlap s offset) ∧
      writeData s data offset = .ok (false, s)) ∨
    (isRequestedDataBeyondTheDataWrite s data.length offset = false ∧
      (s.writeOffset + data.length) % 2 ^ 32 ≤ s.totalDfuFileSize ∧
      data.length ≤ overlap s offset ∧ writeData s data offset = .ok (true, s)) ∨
    (Stores s data.length offset ∧ 2 ^ 15 ≤ overlap s offset ∧
      writeData s data offset = .error .outside) ∨
    (Stores s data.length offset ∧ overlap s offset < 2 ^ 15 ∧
      ∃ buffer, writeData s data offset = .ok (true, { s with
          buffer
          writeOffset := (s.writeOffset + (data.length - overlap s offset)) % 2 ^ 32
          writeIndex := slot bufferSizeInBytes s.writeIndex (data.length - overlap s offset) }) ∧
        buffer.length = bufferSizeInBytes ∧
        Window buffer s.readIndex (slice file s.readOffset (s.writeOffset - s.readOffset) ++
          slice data (overlap s offset) (data.length - overlap s offset))) := by
  rw [writeData_eq hlen hoff]
  by_cases hign : isRequestedDataBeyondTheDataWrite s data.length offset = true
  · exact .inl ⟨hign, if_pos hign⟩
  rw [if_neg hign]
  replace hign := Bool.eq_false_iff.mpr hign
  by_cases hsize : (s.writeOffset + data.length) % 2 ^ 32 ≤ s.totalDfuFileSize
  swap
  · exact .inr (.inl ⟨hign, hsize, if_neg hsize⟩)
  rw [if_pos hsize]
  by_cases hfree :
    s.writeOffset - s.readOffset + (data.length - overlap s offset) ≤ bufferSizeInBytes
  swap
  · exact .inr (.inr (.inl ⟨hign, hsize, by omega,
      storeInCache_full h.toHolds _ _ (by omega)⟩))
  by_cases hnew : overlap s offset < data.length
  swap
  · refine .inr (.inr (.inr (.inl ⟨hign, hsize, by omega, ?_⟩)))
    have hzero : data.length - overlap s offset = 0 := by omega
    rw [hzero, storeInCache_zero h.toHolds hf]
  have hstores : Stores s data.length offset := ⟨hign, hsize, hfree, hnew⟩
  by_cases hfar : overlap s offset < 2 ^ 15
  · refine .inr (.inr (.inr (.inr (.inr ⟨hstores, hfar, ?_⟩))))
    have hhead : int16 (s.writeOffset - offset) = (overlap s offset : ℕ) := if_pos hfar
    rw [hhead]
    exact storeInCache_ok h.toHolds data (overlap s offset) (data.length - overlap s offset)
      (by omega) hfree
  · refine .inr (.inr (.inr (.inr (.inl ⟨hstores, by omega, ?_⟩))))
    have hhead : int16 (s.writeOffset - offset) < 0 := by
      unfold int16
      unfold overlap at hfar
      dsimp only
      rw [if_neg hfar]
      omega
    exact storeInCache_outside h.toHolds hhead (by omega) hfree

/-- What a write of bytes of the file can do. -/
theorem call_writeData_cases (hf : file.length < 2 ^ 32) {length offset : ℕ}
    (hp : Permitted file s (.writeData length offset)) :
    (¬ Stores s length offset ∧ (call file s (.writeData length offset) = .ok (none, s) ∨
      call file s (.writeData length offset) = .error .panic)) ∨
    (Stores s length offset ∧ 2 ^ 15 ≤ overlap s offset ∧
      call file s (.writeData length offset) = .error .outside) ∨
    (Stores s length offset ∧ overlap s offset < 2 ^ 15 ∧
      ∃ buffer, call file s (.writeData length offset) = .ok (none, { s with
          buffer
          writeOffset := (s.writeOffset + (length - overlap s offset)) % 2 ^ 32
          writeIndex := slot bufferSizeInBytes s.writeIndex (length - overlap s offset) }) ∧
        buffer.length = bufferSizeInBytes ∧
        Window buffer s.readIndex (slice file s.readOffset (s.writeOffset - s.readOffset) ++
          slice file (offset + overlap s offset) (length - overlap s offset))) := by
  have hcall : call file s (.writeData length offset) =
    (writeData s (slice file offset length) offset).map fun r => (none, r.2) := rfl
  obtain ⟨hlen, hoff, hend⟩ := hp
  have hdl := length_slice hend
  have hcases := writeData_cases h hf (slice file offset length) (by rwa [hdl]) hoff
  rw [hdl] at hcases
  rw [hcall]
  rcases hcases with ⟨hign, hw⟩ | ⟨-, hsize, hw⟩ | ⟨-, -, hfull, hw⟩ | ⟨-, -, hold, hw⟩ |
    ⟨hs, hfar, hw⟩ | ⟨hs, hnear, buffer, hw, hbl, hwin⟩
  · refine .inl ⟨fun hs => ?_, .inl (by rw [hw]; rfl)⟩
    rw [hs.1] at hign
    cases hign
  · exact .inl ⟨fun hs => hsize hs.2.1, .inr (by rw [hw]; rfl)⟩
  · exact .inl ⟨fun hs => absurd hs.2.2.1 (by omega), .inl (by rw [hw]; rfl)⟩
  · exact .inl ⟨fun hs => absurd hs.2.2.2 (by omega), .inl (by rw [hw]; rfl)⟩
  · exact .inr (.inl ⟨hs, hfar, by rw [hw]; rfl⟩)
  · refine .inr (.inr ⟨hs, hnear, buffer, by rw [hw]; rfl, hbl, ?_⟩)
    have hnew := hs.2.2.2
    have hslice : slice (slice file offset length) (overlap s offset)
        (length - overlap s offset) = slice file (offset + overlap s offset)
          (length - overlap s offset) := by
      conv_lhs => rw [slice, ← Nat.add_sub_cancel' hnew.le, drop_slice]
      rw [take_slice (by omega), Nat.add_sub_cancel' hnew.le]
    rwa [hslice] at hwin

/-- What a read of the front of the window can do. -/
theorem takeFromCache_cases (hf : file.length < 2 ^ 32)
    (hreq : s.requestedReadOffset = s.readOffset) (length : ℕ) :
    (s.requestedNumberOfBytes < length ∧ takeFromCache s length = .error .panic) ∨
    (s.writeOffset - s.readOffset < length ∧ takeFromCache s length = .ok (none, s)) ∨
    (length ≤ s.requestedNumberOfBytes ∧ length ≤ bufferSizeInBytes ∧
      s.writeOffset - s.readOffset = bufferSizeInBytes ∧
      bufferSizeInBytes < s.readIndex + length ∧ takeFromCache s length = .error .outside) ∨
    (length ≤ s.writeOffset - s.readOffset ∧ ¬ (s.writeOffset - s.readOffset = bufferSizeInBytes ∧
        bufferSizeInBytes < s.readIndex + length) ∧
      ∃ s', takeFromCache s length = .ok (some (slice file s.readOffset length), s') ∧
        Inv file s' ∧ s'.requestedNumberOfBytes = s.requestedNumberOfBytes - length ∧
        s'.requestedReadOffset = s.requestedReadOffset + length) := by
  have hrl := h.read_le
  have hwl := h.write_le
  have hcl := h.cached_le
  unfold takeFromCache panicFalse
  simp only [h.getLength_eq, bind, Except.bind]
  by_cases hnum : length ≤ s.requestedNumberOfBytes
  swap
  · exact .inl ⟨by omega, by simp only [hnum, decide_false, Bool.false_eq_true, if_false]⟩
  by_cases hav : length ≤ s.writeOffset - s.readOffset
  swap
  · refine .inr (.inl ⟨by omega, ?_⟩)
    simp only [hnum, decide_true, if_true, hav, if_false]
    rfl
  have hcopy := copyFromCache_eq h.toHolds hav
  by_cases hfull : s.writeOffset - s.readOffset = bufferSizeInBytes ∧
      bufferSizeInBytes < s.readIndex + length
  · rw [if_pos hfull] at hcopy
    refine .inr (.inr (.inl ⟨hnum, by omega, hfull.1, hfull.2, ?_⟩))
    simp only [hnum, decide_true, if_true, hav, hcopy]
  · rw [if_neg hfull] at hcopy
    refine .inr (.inr (.inr ⟨hav, hfull, ?_⟩))
    have hinv : Inv file { s with
        requestedReadOffset := s.readOffset + length
        requestedNumberOfBytes := s.requestedNumberOfBytes - length } :=
      ⟨⟨h.length, h.read_le, hwl, h.window, h.index⟩, h.size,
        show s.readOffset + length ≤ s.writeOffset by omega⟩
    have hinv' := hinv.skip (Nat.le_add_right s.readOffset length)
    have hsum : (s.readOffset + length) % 2 ^ 32 = s.readOffset + length :=
      Nat.mod_eq_of_lt (by omega)
    simp only [Nat.add_sub_cancel_left] at hinv'
    refine ⟨_, ?_, hinv', rfl, by rw [hreq]⟩
    simp only [hnum, decide_true, if_true, hav, hcopy, hreq, hsum, pure, Except.pure,
      increaseBufferIndex_eq h.readIndex_lt (show length ≤ bufferSizeInBytes by omega)]

theorem populateBufferFromCache_eq (hge : s.readOffset ≤ s.requestedReadOffset) (length : ℕ) :
    populateBufferFromCache s length = takeFromCache { s with
      readOffset := s.requestedReadOffset
      readIndex := slot bufferSizeInBytes s.readIndex (s.requestedReadOffset - s.readOffset) }
        length := by
  have hle := h.requested_le
  have hcl := h.cached_le
  have hdiff : sub32 s.requestedReadOffset s.readOffset % 2 ^ 16 =
      s.requestedReadOffset - s.readOffset := by
    unfold sub32
    unfold bufferSizeInBytes at hcl
    omega
  unfold populateBufferFromCache
  dsimp only
  rw [hdiff, increaseBufferIndex_eq h.readIndex_lt (by omega)]

theorem call_readData_cases (hf : file.length < 2 ^ 32) (length : ℕ) :
    (Allowed file s (.readData length) ∧
      (dfuProtocolReadData s length = .error .panic ∨
        (∃ s', dfuProtocolReadData s length = .ok (none, s') ∧ Inv file s') ∨
        ∃ s', dfuProtocolReadData s length =
          .ok (some (slice file s.requestedReadOffset length), s') ∧ Inv file s')) ∨
    (¬ Allowed file s (.readData length) ∧ dfuProtocolReadData s length = .error .outside) := by
  have hrl := h.requested_le
  have hwl := h.write_le
  have hsize := h.size
  unfold dfuProtocolReadData panicFalse Allowed
  by_cases hpanic : (s.requestedReadOffset + length) % 2 ^ 32 ≤ s.totalDfuFileSize
  swap
  · refine .inl ⟨fun _ _ h3 h4 => ?_, .inl ?_⟩
    · rw [Nat.mod_eq_of_lt (by omega)] at hpanic
      omega
    · simp only [hpanic, decide_false, Bool.false_eq_true, if_false, bind, Except.bind]
  simp only [hpanic, decide_true, if_true, bind, Except.bind]
  by_cases hbefore : s.requestedReadOffset < s.readOffset
  · refine .inl ⟨fun _ _ _ h4 => by omega, .inr (.inl ⟨s, ?_, h⟩)⟩
    rw [if_pos hbefore]
    rfl
  rw [if_neg hbefore]
  by_cases hnot : s.requestedReadOffset ≠ s.readOffset ∧
      (s.requestedReadOffset + length) % 2 ^ 32 ≥ s.writeOffset
  · refine .inl ⟨fun _ _ _ h4 => absurd h4 hnot.1, .inr (.inl ⟨s, ?_, h⟩)⟩
    rw [if_pos hnot]
    rfl
  rw [if_neg hnot]
  have hge : s.readOffset ≤ s.requestedReadOffset := by omega
  have hskip := h.skip hge
  have hidx : s.requestedReadOffset = s.readOffset →
      slot bufferSizeInBytes s.readIndex (s.requestedReadOffset - s.readOffset) = s.readIndex := by
    intro he
    rw [he, Nat.sub_self, slot_zero h.readIndex_lt]
  have hcl := h.cached_le
  rw [populateBufferFromCache_eq h hge]
  rcases takeFromCache_cases hskip hf rfl length with ⟨hlt, hc⟩ | ⟨hlt, hc⟩ |
    ⟨h1, h2, h3, h4, hc⟩ | ⟨-, hne, s', hc, hi, -⟩ <;> dsimp only at *
  · exact .inl ⟨fun h1 => by omega, .inl hc⟩
  · exact .inl ⟨fun _ _ _ _ => by omega, .inr (.inl ⟨_, hc, hskip⟩)⟩
  · have he : s.requestedReadOffset = s.readOffset := by omega
    rw [hidx he] at h4
    exact .inr ⟨fun ha => by have := ha h1 h2 (by omega) he; omega, hc⟩
  · refine .inl ⟨fun _ _ h3 he => ?_, .inr (.inr ⟨s', hc, hi⟩)⟩
    rw [hidx he] at hne
    omega

theorem setRequestedReadOffset_cases (offset : ℕ) :
    setRequestedReadOffset s offset = .error .panic ∨
      ∃ s', setRequestedReadOffset s offset = .ok s' ∧ Inv file s' := by
  have hsize := h.size
  have hbuf := h.length
  unfold setRequestedReadOffset panicFalse
  set requested := (s.requestedReadOffset + offset) % 2 ^ 32
  by_cases hpanic : requested ≤ s.totalDfuFileSize
  swap
  · exact .inl (by simp only [hpanic, decide_false, Bool.false_eq_true, if_false, bind, Except.bind])
  right
  simp only [hpanic, decide_true, if_true, bind, Except.bind]
  have hkeep : requested ≤ s.writeOffset →
      Inv file { s with requestedReadOffset := requested } := fun hle =>
    ⟨⟨h.length, h.read_le, h.write_le, h.window, h.index⟩, hsize, hle⟩
  split_ifs with hlt hge
  · exact ⟨_, rfl, hkeep (by have := h.read_le; omega)⟩
  · refine ⟨_, rfl, ⟨hbuf, le_rfl, by rw [← hsize]; exact hpanic, ?_, ?_⟩, hsize, le_rfl⟩
    · simp only [Nat.sub_self]
      refine Window.nil ?_
      rw [hbuf]
      decide
    · simp only [Nat.sub_self]
      rfl
  · exact ⟨_, rfl, hkeep (by omega)⟩

end

theorem next_eq (hp : Permitted file s op) {d : Option (List UInt8)}
    (hc : call file s op = .ok (d, s')) : next file s op = some s' := by
  rw [next, if_pos hp, hc]
  rfl

theorem next_eq_none {stop : Stop} (hc : call file s op = .error stop) : next file s op = none := by
  unfold next
  rw [hc]
  split_ifs <;> rfl

/-- A call that panics, or that leaves the cache in order with the bytes that it should read. -/
theorem right_of_ok (hr : call file s op = .error .panic ∨ ∃ d, ∃ t, call file s op = .ok (d, t) ∧
      Inv file t ∧ ∀ bytes, d = some bytes → bytes = expected file s op) :
    Right file s op ∧ ∀ s', next file s op = some s' → Inv file s' := by
  rcases hr with hc | ⟨d, t, hc, hi, hd⟩
  · refine ⟨fun _ => by rw [hc]; trivial, fun s' hn => ?_⟩
    rw [next_eq_none hc] at hn
    cases hn
  · refine ⟨fun _ => by rw [hc]; exact ⟨hi.toHolds, hd⟩, fun s' hn => ?_⟩
    by_cases hp : Permitted file s op
    · rw [next_eq hp hc] at hn
      cases hn
      exact hi
    · rw [next, if_neg hp] at hn
      cases hn

theorem right_of_not_permitted (hp : ¬ Permitted file s op) :
    Right file s op ∧ ∀ s', next file s op = some s' → Inv file s' := by
  refine ⟨fun h => absurd h hp, fun s' hn => ?_⟩
  rw [next, if_neg hp] at hn
  cases hn

theorem writeData_spec (h : Inv file s) (hf : file.length < 2 ^ 32) {length offset : ℕ} :
    (Right file s (.writeData length offset) ↔ Allowed file s (.writeData length offset)) ∧
      (Right file s (.writeData length offset) →
        ∀ s', next file s (.writeData length offset) = some s' → Inv file s') := by
  by_cases hp : Permitted file s (.writeData length offset)
  swap
  · obtain ⟨hr, hi⟩ := right_of_not_permitted hp
    exact ⟨⟨fun _ hp' => absurd hp' hp, fun _ => hr⟩, fun _ => hi⟩
  rcases call_writeData_cases h hf hp with ⟨hs, hc | hc⟩ | ⟨hs, hfar, hc⟩ |
    ⟨hs, hnear, buffer, hc, hl, hw⟩
  · obtain ⟨hr, hi⟩ := right_of_ok (.inr ⟨none, s, hc, h, nofun⟩)
    exact ⟨⟨fun _ _ hs' => absurd hs' hs, fun _ => hr⟩, fun _ => hi⟩
  · obtain ⟨hr, hi⟩ := right_of_ok (.inl hc)
    exact ⟨⟨fun _ _ hs' => absurd hs' hs, fun _ => hr⟩, fun _ => hi⟩
  · have hwrong : ¬ Right file s (.writeData length offset) := by
      intro hr
      have := hr hp
      rw [hc] at this
      exact this
    refine ⟨⟨fun hr => absurd hr hwrong, fun ha => ?_⟩, fun hr => absurd hr hwrong⟩
    have := (ha hp hs).1
    omega
  · obtain ⟨hlen, hoff, hend⟩ := id hp
    obtain ⟨-, -, hfree, hnew⟩ := id hs
    have hiff := holds_store_iff h.toHolds hf (Nat.sub_pos_of_lt hnew) (by omega) hfree hl hw
    have hright : Right file s (.writeData length offset) ↔ Holds file { s with
        buffer
        writeOffset := (s.writeOffset + (length - overlap s offset)) % 2 ^ 32
        writeIndex := slot bufferSizeInBytes s.writeIndex (length - overlap s offset) } := by
      constructor
      · intro hr
        have := hr hp
        rw [hc] at this
        exact this.1
      · intro hh _
        rw [hc]
        exact ⟨hh, nofun⟩
    refine ⟨?_, fun hr s' hn => ?_⟩
    · rw [hright, hiff]
      exact ⟨fun he _ _ => ⟨hnear, he⟩, fun ha => (ha hp hs).2⟩
    · rw [next_eq hp hc] at hn
      cases hn
      have hh := hright.mp hr
      have h1 : s.readOffset ≤ (s.writeOffset + (length - overlap s offset)) % 2 ^ 32 := hh.read_le
      have hwle := h.write_le
      refine ⟨hh, h.size, h.requested_le.trans ?_⟩
      show s.writeOffset ≤ (s.writeOffset + (length - overlap s offset)) % 2 ^ 32
      unfold bufferSizeInBytes at hfree
      omega

/-- A call of a cache in order is right exactly when it is allowed, and leaves it in order then. -/
theorem call_spec (h : Inv file s) (hf : file.length < 2 ^ 32) (op : Op) :
    (Right file s op ↔ Allowed file s op) ∧
      (Right file s op → ∀ s', next file s op = some s' → Inv file s') := by
  cases op with
  | writeData length offset => exact writeData_spec h hf
  | setRequestedReadOffset offset =>
    have hr : Right file s (.setRequestedReadOffset offset) ∧ _ := right_of_ok (by
      rcases setRequestedReadOffset_cases h offset with hc | ⟨t, hc, hi⟩
      · exact .inl (by simp only [call, hc, Except.map])
      · exact .inr ⟨none, t, by simp only [call, hc, Except.map], hi, nofun⟩)
    exact ⟨⟨fun _ => trivial, fun _ => hr.1⟩, fun _ => hr.2⟩
  | setRequestedNumberOfBytes number =>
    have hr : Right file s (.setRequestedNumberOfBytes number) ∧ _ := right_of_ok (by
      unfold call setRequestedNumberOfBytes panicFalse
      split_ifs
      · exact .inr ⟨none, _, rfl, ⟨⟨h.length, h.read_le, h.write_le, h.window, h.index⟩, h.size,
          h.requested_le⟩, nofun⟩
      · exact .inl rfl)
    exact ⟨⟨fun _ => trivial, fun _ => hr.1⟩, fun _ => hr.2⟩
  | readData length =>
    rcases call_readData_cases h hf length with ⟨ha, hc⟩ | ⟨ha, hc⟩
    · have hr : Right file s (.readData length) ∧ _ := right_of_ok (by
        rcases hc with hc | ⟨t, hc, hi⟩ | ⟨t, hc, hi⟩
        · exact .inl hc
        · exact .inr ⟨none, t, hc, hi, nofun⟩
        · exact .inr ⟨_, t, hc, hi, fun bytes hb => (Option.some.inj hb).symm⟩)
      exact ⟨⟨fun _ => ha, fun _ => hr.1⟩, fun _ => hr.2⟩
    · have hwrong : ¬ Right file s (.readData length) := by
        intro hr
        have hp : Permitted file s (.readData length) := by
          simp only [Allowed, Classical.not_imp] at ha
          have := ha.2.1
          unfold bufferSizeInBytes at this
          show length < 2 ^ 16
          omega
        have := hr hp
        rw [show call file s (.readData length) = _ from hc] at this
        exact this
      exact ⟨⟨fun hr => absurd hr hwrong, fun h' => absurd h' ha⟩, fun hr => absurd hr hwrong⟩

/-! ## Runs -/

theorem meets_right_iff_of_inv (hf : file.length < 2 ^ 32) (ops : List Op) (h : Inv file s) :
    Lib.Meets (next file) (Right file) s ops ↔ Lib.Meets (next file) (Allowed file) s ops := by
  induction ops generalizing s with
  | nil => exact Iff.rfl
  | cons op ops ih =>
    obtain ⟨hiff, hinv⟩ := call_spec h hf op
    simp only [Lib.Meets, hiff]
    refine and_congr_right fun ha => ?_
    cases hn : next file s op with
    | none => exact Iff.rfl
    | some t => exact ih (hinv (hiff.mpr ha) t hn)

/-- **A run is right exactly when every call of it is allowed.** -/
theorem meets_right_iff (file : List UInt8) (hf : file.length < 2 ^ 32) (ops : List Op) :
    Lib.Meets (next file) (Right file) (createDataInstance file.length) ops ↔
      Lib.Meets (next file) (Allowed file) (createDataInstance file.length) ops :=
  meets_right_iff_of_inv hf ops (inv_createDataInstance file)

/-- The buffer is filled, 100 bytes are read and 100 more written: the buffer is full again, but
from index 100 on. -/
def fillTwice : List Op :=
  [.writeData 2048 0, .setRequestedNumberOfBytes 2148, .readData 100, .writeData 100 2048]

theorem meets_right_fillTwice : Lib.Meets (next (List.replicate 2200 7))
    (Right (List.replicate 2200 7)) (createDataInstance 2200) fillTwice := by
  have h := (meets_right_iff (List.replicate 2200 7) (by rw [List.length_replicate]; decide)
    fillTwice).mpr
  rw [List.length_replicate] at h
  exact h (by decide +kernel)

/-- The next read of all of it runs over the end of the buffer. -/
theorem not_right_read_full : ¬ Lib.Meets (next (List.replicate 2200 7))
    (Right (List.replicate 2200 7)) (createDataInstance 2200) (fillTwice ++ [.readData 2048]) := by
  intro h
  have h' := (meets_right_iff_of_inv (by rw [List.length_replicate]; decide) _
    (inv_createDataInstance (List.replicate 2200 7))).mp (by rwa [List.length_replicate])
  rw [List.length_replicate] at h'
  exact absurd h' (by decide +kernel)

end Mh40.DfuProtocol
