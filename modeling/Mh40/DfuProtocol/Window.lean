import Mh40.DfuProtocol.Data
import Mh40.Lib.Ring
import Mh40.Lib.Run

/-!
# The DFU protocol cache as a window of the file

* `Inv`: the cache holds the bytes of the file from the read offset to the write offset, and the
  requested offset is not behind them.
* `storeInCache_ok`, `holds_store_iff`: what a write does to the window.
* `Inv.skip`, `copyFromCache_eq`: what a read does to it.
-/

namespace Mh40.DfuProtocol

open Lib.Buffer Lib.Ring List

variable {file data bytes : List UInt8} {s : DfuProtocolData} {i n offset length : ℕ}

/-- The bytes of the file from `i` on. -/
def slice (file : List UInt8) (i n : ℕ) : List UInt8 := (file.drop i).take n

theorem length_slice (h : i + n ≤ file.length) : (slice file i n).length = n := by
  simp only [slice, length_take, length_drop]
  omega

theorem slice_append (file : List UInt8) (i n m : ℕ) :
    slice file i n ++ slice file (i + n) m = slice file i (n + m) := by
  rw [slice, slice, slice, ← drop_drop, ← take_add]

theorem take_slice (h : n ≤ length) : (slice file i length).take n = slice file i n := by
  rw [slice, take_take, Nat.min_eq_left h, slice]

theorem drop_slice (file : List UInt8) (i n m : ℕ) :
    (slice file i (n + m)).drop n = slice file (i + n) m := by
  rw [slice, drop_take, drop_drop, Nat.add_sub_cancel_left, slice]

/-- The cache holds exactly the bytes of the file from the read offset to the write offset, at most
`BUFFER_SIZE_IN_BYTES` of them. -/
structure Holds (file : List UInt8) (s : DfuProtocolData) : Prop where
  length : s.buffer.length = bufferSizeInBytes
  read_le : s.readOffset ≤ s.writeOffset
  write_le : s.writeOffset ≤ file.length
  window : Window s.buffer s.readIndex (slice file s.readOffset (s.writeOffset - s.readOffset))
  index : s.writeIndex = slot bufferSizeInBytes s.readIndex (s.writeOffset - s.readOffset)

/-- The cache is in order. -/
structure Inv (file : List UInt8) (s : DfuProtocolData) : Prop extends Holds file s where
  size : s.totalDfuFileSize = file.length
  requested_le : s.requestedReadOffset ≤ s.writeOffset

theorem Holds.cached_length (h : Holds file s) :
    (slice file s.readOffset (s.writeOffset - s.readOffset)).length =
      s.writeOffset - s.readOffset := by
  have := h.read_le
  have := h.write_le
  exact length_slice (by omega)

theorem Holds.cached_le (h : Holds file s) : s.writeOffset - s.readOffset ≤ bufferSizeInBytes := by
  rw [← h.cached_length, ← h.length]
  exact h.window.length_le

theorem Holds.readIndex_lt (h : Holds file s) : s.readIndex < bufferSizeInBytes := by
  rw [← h.length]
  exact h.window.lt

theorem Holds.getLength_eq (h : Holds file s) :
    getLengthOfAvailableDataInBytes s = s.writeOffset - s.readOffset := by
  have := h.read_le
  have := h.write_le
  have := h.cached_le
  unfold getLengthOfAvailableDataInBytes sub32
  unfold bufferSizeInBytes at this
  omega

theorem increaseBufferIndex_eq (hi : i < bufferSizeInBytes) (hn : n ≤ bufferSizeInBytes) :
    increaseBufferIndex i n = slot bufferSizeInBytes i n := by
  unfold increaseBufferIndex slot
  unfold bufferSizeInBytes at *
  dsimp only
  split_ifs <;> omega

theorem inv_createDataInstance (file : List UInt8) : Inv file (createDataInstance file.length) := by
  refine ⟨⟨?_, le_rfl, Nat.zero_le _, ?_, ?_⟩, rfl, le_rfl⟩
  · exact length_replicate
  · have hw : Window (createDataInstance file.length).buffer 0 [] := by
      apply Window.nil
      rw [createDataInstance, length_replicate]
      decide
    exact hw
  · rfl

/-! ## Writes -/

/-- What is copied behind the window makes it longer. -/
theorem copyIn_window (h : Window s.buffer i bytes) (hl : s.buffer.length = bufferSizeInBytes)
    (more : List UInt8) (hlen : bytes.length + more.length ≤ bufferSizeInBytes)
    (hfit : slot bufferSizeInBytes i bytes.length + more.length ≤ bufferSizeInBytes) :
    ∃ buffer, copyIn s (slot bufferSizeInBytes i bytes.length) more = .ok { s with buffer } ∧
      buffer.length = bufferSizeInBytes ∧ Window buffer i (bytes ++ more) := by
  rw [← hl] at hlen hfit ⊢
  obtain ⟨buffer, hw, hlen', hwin⟩ := h.append hlen hfit
  refine ⟨buffer, ?_, hlen', hwin⟩
  unfold copyIn
  rw [hw]

theorem readData_of_le (head : ℕ) (h : head + n ≤ data.length) :
    readData data head n = .ok (slice data head n) := by
  unfold readData
  split_ifs with h0 h1
  · subst h0
    rfl
  · rfl
  · omega

section

variable (h : Holds file s)
include h

/-- The bytes that a write brings are stored behind the window. -/
theorem storeInCache_ok (data : List UInt8) (head n : ℕ) (hn : head + n ≤ data.length)
    (hfree : s.writeOffset - s.readOffset + n ≤ bufferSizeInBytes) :
    ∃ buffer, storeInCache s data head n = .ok (true, { s with
        buffer
        writeOffset := (s.writeOffset + n) % 2 ^ 32
        writeIndex := slot bufferSizeInBytes s.writeIndex n }) ∧
      buffer.length = bufferSizeInBytes ∧
      Window buffer s.readIndex (slice file s.readOffset (s.writeOffset - s.readOffset) ++
        slice data head n) := by
  have hr := h.readIndex_lt
  have hle := h.cached_le
  have hcl := h.cached_length
  have hidx := h.index
  have hdl : (slice data head n).length = n := length_slice hn
  have hwlt : s.writeIndex < bufferSizeInBytes := by
    rw [hidx]
    exact slot_lt hr hle
  unfold storeInCache
  rw [h.getLength_eq]
  have hfree' : (bufferSizeInBytes + 2 ^ 16 - (s.writeOffset - s.readOffset)) % 2 ^ 16 ≥ n := by
    unfold bufferSizeInBytes at *
    omega
  dsimp only
  rw [if_pos hfree']
  by_cases hwrap : willWriteWrap s n = true
  · -- up to the end of the buffer, then from its start on
    obtain ⟨⟨hge, -⟩, hgt⟩ : (s.writeIndex ≥ s.readIndex ∧ s.readIndex ≠ 0) ∧
        n > bufferSizeInBytes - s.writeIndex := by
      simpa only [willWriteWrap, Bool.and_eq_true, decide_eq_true_eq] using hwrap
    set space := bufferSizeInBytes - s.writeIndex with hspace
    have hfl : (slice data head space).length = space := length_slice (by omega)
    have hsl : (slice data (head + space) (n - space)).length = n - space :=
      length_slice (by omega)
    obtain ⟨buffer, hc, hbl, hw⟩ := copyIn_window (s := s) h.window h.length
      (slice data head space) (by omega) (by rw [hcl, hfl, ← hidx]; omega)
    have hstart : slot bufferSizeInBytes s.readIndex
        (slice file s.readOffset (s.writeOffset - s.readOffset) ++ slice data head space).length =
          0 := by
      rw [length_append, hcl, hfl]
      unfold slot at hidx ⊢
      split_ifs at * <;> omega
    obtain ⟨buffer', hc', hbl', hw'⟩ := copyIn_window (s := { s with buffer }) hw hbl
      (slice data (head + space) (n - space))
      (by rw [length_append]; omega) (by rw [hstart]; omega)
    rw [hcl, ← hidx] at hc
    rw [hstart] at hc'
    have happ : slice data head space ++ slice data (head + space) (n - space) =
        slice data head n := by
      rw [slice_append, Nat.add_sub_cancel' (by omega)]
    rw [append_assoc, happ] at hw'
    refine ⟨buffer', ?_, hbl', hw'⟩
    have hr1 : readData data (head : ℤ) space = .ok _ := readData_of_le head (by omega)
    have hr2 : readData data ((head : ℤ) + space) (n - space) = .ok _ :=
      readData_of_le (head + space) (by omega)
    simp only [hwrap, if_true, hr1, hr2, hc, hc', bind, Except.bind, pure,
      Except.pure, increaseBufferIndex_eq hwlt (show n ≤ bufferSizeInBytes by omega)]
  · have hnowrap : s.writeIndex + n ≤ bufferSizeInBytes := by
      simp only [willWriteWrap, Bool.and_eq_true, decide_eq_true_eq] at hwrap
      unfold slot at hidx
      split_ifs at hidx <;> omega
    obtain ⟨buffer, hc, hbl, hw⟩ := copyIn_window (s := s) h.window h.length
      (slice data head n) (by omega) (by rw [hcl, hdl, ← hidx]; omega)
    rw [hcl, ← hidx] at hc
    refine ⟨buffer, ?_, hbl, hw⟩
    have hr1 : readData data (head : ℤ) n = .ok _ := readData_of_le head hn
    simp only [hwrap, Bool.false_eq_true, if_false, hr1, hc, bind, Except.bind, pure, Except.pure,
      increaseBufferIndex_eq hwlt (show n ≤ bufferSizeInBytes by omega)]

theorem Holds.writeIndex_lt : s.writeIndex < bufferSizeInBytes := by
  rw [h.index]
  exact slot_lt h.readIndex_lt h.cached_le

/-- Nothing to store. -/
theorem storeInCache_zero (hf : file.length < 2 ^ 32) (data : List UInt8) (head : ℤ) :
    storeInCache s data head 0 = .ok (true, s) := by
  have hwlt := h.writeIndex_lt
  have hle := h.write_le
  have hwrap : willWriteWrap s 0 = false := by simp [willWriteWrap]
  have hcopy : copyIn s s.writeIndex [] = .ok s := by
    unfold copyIn writeAt
    rw [if_pos (by simp only [length_nil, h.length]; omega)]
    simp
  have hmod : (s.writeOffset + 0) % 2 ^ 32 = s.writeOffset := Nat.mod_eq_of_lt (by omega)
  have hidx : increaseBufferIndex s.writeIndex 0 = s.writeIndex := by
    rw [increaseBufferIndex_eq hwlt (Nat.zero_le _), slot_zero hwlt]
  unfold storeInCache readData
  simp only [hwrap, Bool.false_eq_true, if_false, if_true, ge_iff_le, Nat.zero_le, bind,
    Except.bind, hcopy, hmod, hidx, pure, Except.pure]

/-- No room for what is new. -/
theorem storeInCache_full (data : List UInt8) (head : ℤ)
    (hfree : bufferSizeInBytes < s.writeOffset - s.readOffset + n) :
    storeInCache s data head n = .ok (false, s) := by
  have hle := h.cached_le
  unfold storeInCache
  rw [h.getLength_eq]
  have hfree' : ¬ (bufferSizeInBytes + 2 ^ 16 - (s.writeOffset - s.readOffset)) % 2 ^ 16 ≥ n := by
    unfold bufferSizeInBytes at *
    omega
  dsimp only
  rw [if_neg hfree']
  rfl

/-- A head in front of the data of the client. -/
theorem storeInCache_outside {head : ℤ} (hhead : head < 0) (hn : 0 < n)
    (hfree : s.writeOffset - s.readOffset + n ≤ bufferSizeInBytes) :
    storeInCache s data head n = .error .outside := by
  have hout : ∀ m, 0 < m → readData data head m = .error .outside := by
    intro m hm
    unfold readData
    rw [if_neg (by omega), if_neg (by omega)]
  have hwlt := h.writeIndex_lt
  unfold storeInCache
  rw [h.getLength_eq]
  have hfree' : (bufferSizeInBytes + 2 ^ 16 - (s.writeOffset - s.readOffset)) % 2 ^ 16 ≥ n := by
    unfold bufferSizeInBytes at *
    omega
  dsimp only
  rw [if_pos hfree']
  by_cases hwrap : willWriteWrap s n = true
  · simp only [hwrap, if_true, hout _ (show 0 < bufferSizeInBytes - s.writeIndex by omega), bind,
      Except.bind]
  · simp only [hwrap, Bool.false_eq_true, if_false, hout n hn, bind, Except.bind]

/-- The window after a store is one of the file when the bytes are those at the write offset. -/
theorem holds_store_iff (hf : file.length < 2 ^ 32) {buffer : List UInt8} (hn : 0 < n)
    (hi : i + n ≤ file.length) (hfree : s.writeOffset - s.readOffset + n ≤ bufferSizeInBytes)
    (hl : buffer.length = bufferSizeInBytes)
    (hw : Window buffer s.readIndex
      (slice file s.readOffset (s.writeOffset - s.readOffset) ++ slice file i n)) :
    Holds file { s with
        buffer
        writeOffset := (s.writeOffset + n) % 2 ^ 32
        writeIndex := slot bufferSizeInBytes s.writeIndex n } ↔
      slice file i n = slice file s.writeOffset n := by
  have hle := h.read_le
  have hwle := h.write_le
  have hlen := length_slice hi
  have hsplit : slice file s.readOffset (s.writeOffset + n - s.readOffset) =
      slice file s.readOffset (s.writeOffset - s.readOffset) ++ slice file s.writeOffset n := by
    have := slice_append file s.readOffset (s.writeOffset - s.readOffset) n
    rw [Nat.add_sub_cancel' hle] at this
    rw [this]
    congr 1
    omega
  constructor
  · intro h'
    have h1 : s.readOffset ≤ (s.writeOffset + n) % 2 ^ 32 := h'.read_le
    have hlt : s.writeOffset + n < 2 ^ 32 := by
      unfold bufferSizeInBytes at hfree
      omega
    have h2 : (s.writeOffset + n) % 2 ^ 32 ≤ file.length := h'.write_le
    have h3 : Window buffer s.readIndex
        (slice file s.readOffset ((s.writeOffset + n) % 2 ^ 32 - s.readOffset)) := h'.window
    rw [Nat.mod_eq_of_lt hlt] at h2 h3
    rw [hsplit] at h3
    have heq := hw.unique h3 (by simp only [length_append, hlen, length_slice h2])
    exact append_cancel_left heq
  · intro heq
    have h2 : s.writeOffset + n ≤ file.length := by
      have hl' := congrArg List.length heq
      rw [hlen, slice, length_take, length_drop] at hl'
      omega
    have hmod : (s.writeOffset + n) % 2 ^ 32 = s.writeOffset + n := Nat.mod_eq_of_lt (by omega)
    rw [heq, ← hsplit] at hw
    rw [hmod]
    refine ⟨hl, by simp only; omega, h2, hw, ?_⟩
    show slot bufferSizeInBytes s.writeIndex n =
      slot bufferSizeInBytes s.readIndex (s.writeOffset + n - s.readOffset)
    rw [h.index, slot_slot h.readIndex_lt hfree]
    congr 1
    omega

end

/-! ## Reads -/

/-- The window once the bytes in front of the requested offset are given up. -/
theorem Inv.skip (h : Inv file s) (hge : s.readOffset ≤ s.requestedReadOffset) :
    Inv file { s with
      readOffset := s.requestedReadOffset
      readIndex := slot bufferSizeInBytes s.readIndex (s.requestedReadOffset - s.readOffset) } := by
  have hle := h.requested_le
  have hcl := h.cached_length
  have hcle := h.cached_le
  refine ⟨⟨h.length, hle, h.write_le, ?_, ?_⟩, h.size, hle⟩
  · have hw := h.window.drop (n := s.requestedReadOffset - s.readOffset) (by omega)
    have hsplit : s.writeOffset - s.readOffset = (s.requestedReadOffset - s.readOffset) +
        (s.writeOffset - s.requestedReadOffset) := by omega
    rw [h.length, hsplit, drop_slice, Nat.add_sub_cancel' hge] at hw
    exact hw
  · show s.writeIndex = _
    rw [h.index]
    dsimp only
    rw [slot_slot h.readIndex_lt (by omega)]
    congr 1
    omega

/-- A read of the first bytes of the window goes wrong when the cache is full and the bytes reach
behind the end of the buffer: the wrap is not seen since the indexes are equal. -/
theorem copyFromCache_eq (h : Holds file s) (hn : n ≤ s.writeOffset - s.readOffset) :
    copyFromCache s n =
      if s.writeOffset - s.readOffset = bufferSizeInBytes ∧ bufferSizeInBytes < s.readIndex + n then
        .error .outside
      else .ok (slice file s.readOffset n) := by
  have hr := h.readIndex_lt
  have hcl := h.cached_length
  have hcle := h.cached_le
  have hl := h.length
  have hidx := h.index
  have hout : ∀ {m}, m ≤ s.writeOffset - s.readOffset → s.readIndex + m ≤ bufferSizeInBytes →
      copyOut s s.readIndex m = .ok (slice file s.readOffset m) := by
    intro m hm hm'
    unfold copyOut
    rw [h.window.readAt (by omega) (by omega), take_slice hm]
  unfold copyFromCache
  by_cases hfit : s.readIndex + n ≤ bufferSizeInBytes
  · have hwrap : willReadWrap s n = false := by
      simp only [willReadWrap, Bool.and_eq_false_iff, decide_eq_false_iff_not]
      exact .inr (by omega)
    rw [hwrap, if_neg Bool.false_ne_true, if_neg (by omega)]
    exact hout hn hfit
  · by_cases hfull : s.writeOffset - s.readOffset = bufferSizeInBytes
    · have hwrap : willReadWrap s n = false := by
        simp only [willReadWrap, Bool.and_eq_false_iff, decide_eq_false_iff_not]
        refine .inl (.inl ?_)
        unfold slot at hidx
        split_ifs at hidx <;> omega
      rw [hwrap, if_neg (by simp), if_pos ⟨hfull, by omega⟩, copyOut, readAt, if_neg (by omega)]
    · have hwrap : willReadWrap s n = true := by
        simp only [willReadWrap, Bool.and_eq_true, decide_eq_true_eq]
        unfold slot at hidx
        split_ifs at hidx <;> omega
      rw [hwrap, if_pos rfl, if_neg (by omega)]
      set upToEnd := bufferSizeInBytes - s.readIndex with hup
      have hfirst := hout (m := upToEnd) (by omega) (by omega)
      have hw := h.window.drop (n := upToEnd) (by omega)
      have hstart : slot s.buffer.length s.readIndex upToEnd = 0 := by
        unfold slot
        split_ifs <;> omega
      have hsplit : s.writeOffset - s.readOffset =
          upToEnd + (s.writeOffset - s.readOffset - upToEnd) := by omega
      rw [hstart, hsplit, drop_slice] at hw
      have hsecond : copyOut s 0 (n - upToEnd) =
          .ok (slice file (s.readOffset + upToEnd) (n - upToEnd)) := by
        unfold copyOut
        have := h.write_le
        rw [hw.readAt (by rw [length_slice (by omega)]; omega) (by omega),
          take_slice (by omega)]
      simp only [hfirst, hsecond, bind, Except.bind, pure, Except.pure]
      rw [slice_append, Nat.add_sub_cancel' (by omega)]

end Mh40.DfuProtocol
