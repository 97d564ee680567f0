import Mathlib.Algebra.Order.Ring.Nat

/-!
# Message buffers

Model of `buffer_msg.c` and of the macros of `buffer.h` that it uses: a ring of 16 message lengths
with three indexes, over a buffer with three byte indexes.

* `BufferMsg`: the messages from `behind` to `back` were sent and are not yet freed, those from
  `back` to `front` are to be sent. All arithmetic on byte indexes is masked, so 16 bits of it do.
* `bufAddToFront`, `bufUpdateBack`, `bufUnupdateBack`, `bufUpdateBehind` move the indexes.
* `bufCombineEntries`, `bufCombineEntriesAtOffset` make one message of two. A loop that does not
  end in as many turns as the ring has entries is `none`.
* The metadata of an entry is one value; it is only copied when its size is not 0.
-/

namespace Mh40.Buffers

/-- `BUFFER`, without the handle. -/
structure Buffer where
  index : BitVec 16
  outdex : BitVec 16
  tail : BitVec 16
  sizeMask : BitVec 16
  deriving DecidableEq

/-- `BUFFER_MSG`, with the entries that `meta` points to. -/
structure BufferMsg (M : Type) where
  buf : Buffer
  front : ℕ
  back : ℕ
  behind : ℕ
  backHeaderBytesConsumed : BitVec 16
  msgLengths : ℕ → BitVec 16
  metaData : ℕ → M

/-- `BUFFER_MSG_RING_SIZE`. -/
def bufferMsgRingSize : ℕ := 16

/-- `BUF_NEXT_MSG`. -/
def bufNextMsg (ind : ℕ) : ℕ := (ind + 1) % bufferMsgRingSize

/-- `BUF_PREV_MSG`. -/
def bufPrevMsg (ind : ℕ) : ℕ := (ind + bufferMsgRingSize - 1) % bufferMsgRingSize

namespace Buffer

/-- `buf_init_from_handle`, for a buffer of `2 ^ sizeLog` bytes. -/
def initFromHandle (sizeLog : ℕ) : Buffer := ⟨0, 0, 0, BitVec.ofNat 16 (2 ^ sizeLog - 1)⟩

/-- `BUF_GET_SIZE_OCTETS`. -/
def sizeOctets (buf : Buffer) : BitVec 16 := buf.sizeMask + 1

/-- `BUF_SUB_INDICES`. -/
def subIndices (buf : Buffer) (hi lo : BitVec 16) : BitVec 16 := (hi - lo) &&& buf.sizeMask

/-- `BUF_GET_AVAILABLE`. -/
def available (buf : Buffer) : BitVec 16 := buf.subIndices buf.index buf.outdex

/-- `BUF_GET_UNFREED`. -/
def unfreed (buf : Buffer) : BitVec 16 := buf.subIndices buf.outdex buf.tail

/-- `BUF_GET_USED`. -/
def used (buf : Buffer) : BitVec 16 := buf.subIndices buf.index buf.tail

/-- `BUF_GET_FREESPACE_STATIC`, of a size that may be 65536. -/
def freespaceStatic (buf : Buffer) : ℕ := buf.sizeMask.toNat + 1 - (buf.used.toNat + 1)

end Buffer

variable {M : Type}

/-- `BUF_ANY_MSGS_TO_SEND`. -/
def bufAnyMsgsToSend (s : BufferMsg M) : Prop := s.front ≠ s.back

/-- `BUF_ANY_MSGS_SENT`. -/
def bufAnyMsgsSent (s : BufferMsg M) : Prop := s.back ≠ s.behind

/-- `BUF_ANY_MSGS_AVAILABLE`. -/
def bufAnyMsgsAvailable (s : BufferMsg M) : Prop := s.behind ≠ bufNextMsg s.front

/-- `BUF_ADD_TO_FRONT_META`: the metadata of the message, and `buf_add_to_front`. -/
def bufAddToFront (s : BufferMsg M) (len : BitVec 16) (metaData : M) : BufferMsg M :=
  { s with
    metaData := Function.update s.metaData s.front metaData
    buf := { s.buf with index := (s.buf.index + len) &&& s.buf.sizeMask }
    msgLengths := Function.update s.msgLengths s.front len
    front := bufNextMsg s.front }

/-- `buf_update_back_only`. -/
def bufUpdateBackOnly (s : BufferMsg M) : BufferMsg M :=
  { s with back := bufNextMsg s.back, backHeaderBytesConsumed := 0 }

/-- `buf_update_back`. -/
def bufUpdateBack (s : BufferMsg M) : BufferMsg M :=
  bufUpdateBackOnly { s with
    buf := { s.buf with outdex := (s.buf.outdex + s.msgLengths s.back) &&& s.buf.sizeMask } }

/-- `buf_unupdate_back`. -/
def bufUnupdateBack (s : BufferMsg M) : Bool × BufferMsg M :=
  if s.behind ≠ s.back then
    let back := bufPrevMsg s.back
    let octets := s.buf.sizeOctets - s.msgLengths back
    (true, { s with
      back
      buf := { s.buf with outdex := (s.buf.outdex + octets) &&& s.buf.sizeMask }
      backHeaderBytesConsumed := 0 })
  else (false, s)

/-- `buf_update_behind`. -/
def bufUpdateBehind (s : BufferMsg M) : BufferMsg M :=
  { s with
    buf := { s.buf with
      tail := (s.buf.tail + s.msgLengths s.behind) &&& (s.buf.sizeOctets - 1) }
    behind := bufNextMsg s.behind }

/-- An entry of the ring overwritten with the one before it. -/
def copyEntry (s : BufferMsg M) (metaSizeBytes : BitVec 16) (entry prevEntry : ℕ) : BufferMsg M :=
  { s with
    msgLengths := Function.update s.msgLengths entry (s.msgLengths prevEntry)
    metaData :=
      if metaSizeBytes ≠ 0 then Function.update s.metaData entry (s.metaData prevEntry)
      else s.metaData }

/-- The loop of `buf_combine_entries`. -/
def shuffleLoop (metaSizeBytes : BitVec 16) : ℕ → BufferMsg M → ℕ → Option (BufferMsg M)
  | 0, _, _ => none
  | turns + 1, s, entry =>
    if entry ≠ s.behind then
      let prevEntry := bufPrevMsg entry
      shuffleLoop metaSizeBytes turns (copyEntry s metaSizeBytes entry prevEntry) prevEntry
    else some s

/-- `buf_combine_entries`. -/
def bufCombineEntries (s : BufferMsg M) (entry : ℕ) (metaSizeBytes : BitVec 16) :
    Option (BitVec 16 × BufferMsg M) :=
  let nextEntry := bufNextMsg entry
  if nextEntry = s.back then some (0, s)
  else
    let combinedLengthBytes := s.msgLengths nextEntry + s.msgLengths entry
    let s := { s with
      msgLengths := Function.update s.msgLengths nextEntry combinedLengthBytes
      metaData :=
        if metaSizeBytes ≠ 0 then Function.update s.metaData nextEntry (s.metaData entry)
        else s.metaData }
    (shuffleLoop metaSizeBytes bufferMsgRingSize s entry).map fun s =>
      (combinedLengthBytes, { s with
        msgLengths := Function.update s.msgLengths s.behind 0
        behind := bufNextMsg s.behind })

/-- The loop of `buf_combine_entries_at_offset`: the entry, and its offset. -/
def searchLoop (s : BufferMsg M) (offset : BitVec 16) : ℕ → ℕ → BitVec 16 → Option (ℕ × BitVec 16)
  | 0, _, _ => none
  | turns + 1, entry, entryOffset =>
    if entry ≠ s.back ∧ entryOffset ≠ offset then
      searchLoop s offset turns (bufNextMsg entry)
        ((entryOffset + s.msgLengths entry) &&& s.buf.sizeMask)
    else some (entry, entryOffset)

/-- `buf_combine_entries_at_offset`. -/
def bufCombineEntriesAtOffset (s : BufferMsg M) (offset metaSizeBytes : BitVec 16) :
    Option (BitVec 16 × BufferMsg M) := do
  let offset := offset &&& s.buf.sizeMask
  let (entry, entryOffset) ← searchLoop s offset bufferMsgRingSize s.behind s.buf.tail
  if entryOffset ≠ offset then some (0, s) else bufCombineEntries s entry metaSizeBytes

end Mh40.Buffers
