import Mh40.FastPair.MsgStream
import Mh40.Lib.Frames

/-!
# Messages sent and received

* `handleIncomingData_cut`: of any piece of a row of messages of at most 255 bytes of data, the
  complete messages are handed to their callbacks and processed.
* `sendData_iff`, `sendDataToAll_iff`: which messages are sent.
* `framed_iff`: a row of messages is sent and received as it should be exactly when each of them
  has a callback and no more data than the narrowest of the counters can count.
-/

namespace Mh40.FastPair

open List

open Frames (stream Cut)

/-- A message of the stream. -/
structure Message where
  group : Byte
  code : Byte
  data : List Byte
  valid : isValidMeassageGroup group = true
  fits : data.length < 2 ^ 16

namespace Message

variable (m : Message)

/-- The bytes before the additional data. -/
def header : List Byte :=
  [m.group, m.code, .ofNat 8 (m.data.length / 256), .ofNat 8 m.data.length]

/-- The encoding, with a big endian length. -/
def bytes : List Byte := m.header ++ m.data

/-- What the callback of the group should be called with: all but the group. -/
def call (fpSeekerNumber : Byte) (m : Message) : Call := ⟨m.group, fpSeekerNumber, m.bytes.tail⟩

theorem length_bytes : m.bytes.length = messageLengthMinimum + m.data.length :=
  length_append

/-! ## Reception -/

variable {m} {registered : MessageGroup → Bool} {fpSeekerNumber : Byte} {calls : List Call}
  {dataLen fuel processedLen : ℕ} {data rest : List Byte}

/-- The length field passes through 8 bits. -/
theorem toNat_additionalDataLen (rest : List Byte) :
    (additionalDataLen (m.header ++ rest)).toNat = m.data.length % 256 := by
  have hfits := m.fits
  have hvalid : isValidMeassageGroup ((m.header ++ rest).getD 0 0) = true := m.valid
  unfold additionalDataLen
  rw [if_pos hvalid]
  change (BitVec.ofNat 8 ((BitVec.ofNat 8 (m.data.length / 256)).toNat <<< 8 +
    (BitVec.ofNat 8 m.data.length).toNat)).toNat = _
  simp only [BitVec.toNat_ofNat, Nat.shiftLeft_eq]
  omega

/-- A turn of the loop at a message of which the first `m.data.length % 256` bytes of data have
arrived. -/
theorem handleLoop_header {part : List Byte} (hpart : part.length = m.data.length % 256) :
    handleLoop registered fpSeekerNumber dataLen (fuel + 1) calls processedLen
        (m.header ++ part ++ rest) =
      handleLoop registered fpSeekerNumber dataLen fuel
        (calls ++ messageDataToGroup registered m.group fpSeekerNumber (m.header.tail ++ part))
        (processedLen + (messageLengthMinimum + part.length)) rest := by
  have hlen : m.header.length = messageLengthMinimum := rfl
  have hadd : (additionalDataLen (m.header ++ part ++ rest)).toNat + messageLengthMinimum =
      (m.header ++ part).length := by
    rw [append_assoc, toNat_additionalDataLen, ← hpart, length_append, hlen, Nat.add_comm]
  have hgroup : (m.header ++ part ++ rest).getD 0 0 = m.group := rfl
  have htake : ((m.header ++ part ++ rest).drop 1).take ((m.header ++ part).length - 1) =
      m.header.tail ++ part := by
    have hdrop : (m.header ++ part ++ rest).drop 1 = (m.header.tail ++ part) ++ rest := rfl
    rw [hdrop]
    exact take_left' rfl
  rw [handleLoop]
  dsimp only
  rw [hadd, hgroup, htake, drop_left, if_pos, if_neg, if_neg, length_append, hlen]
  · rw [m.valid]
    decide
  · exact Nat.not_lt.mpr (prefix_append ..).length_le
  · rw [append_assoc, length_append, hlen]
    exact Nat.le_add_right ..

/-- What is handed on for a message with a callback. -/
theorem messageDataToGroup_eq (h : hasCallback registered m.group = true) :
    messageDataToGroup registered m.group fpSeekerNumber (m.header.tail ++ m.data) =
      [m.call fpSeekerNumber] :=
  if_pos h

/-- A turn of the loop at a complete message. -/
theorem handleLoop_message (hdata : m.data.length ≤ 255) :
    handleLoop registered fpSeekerNumber dataLen (fuel + 1) calls processedLen (m.bytes ++ rest) =
      handleLoop registered fpSeekerNumber dataLen fuel
        (calls ++ messageDataToGroup registered m.group fpSeekerNumber (m.header.tail ++ m.data))
        (processedLen + m.bytes.length) rest := by
  rw [bytes, handleLoop_header (Nat.mod_eq_of_lt (by omega)).symm, ← bytes, length_bytes]

/-- A part of a message is left in the source. -/
theorem handleLoop_part (hdata : m.data.length ≤ 255) (h : data <+: m.bytes)
    (hlt : data.length < m.bytes.length) :
    handleLoop registered fpSeekerNumber dataLen (fuel + 1) calls processedLen data =
      some (calls, processedLen) := by
  rw [handleLoop]
  dsimp only
  by_cases hmin : messageLengthMinimum ≤ data.length
  · obtain ⟨part, rfl⟩ : m.header <+: data :=
      prefix_of_prefix_length_le (prefix_append ..) h hmin
    rw [if_pos hmin, if_pos]
    rw [toNat_additionalDataLen, Nat.mod_eq_of_lt (by omega), Nat.add_comm, ← length_bytes]
    exact hlt
  · rw [if_neg hmin]

end Message

section Rows

variable {registered : MessageGroup → Bool} {fpSeekerNumber : Byte} {ms done rest : List Message}
  {data tail : List Byte}

/-- What the callbacks should have been called with. -/
def deliver (fpSeekerNumber : Byte) (calls : List Call) (m : Message) : List Call :=
  calls ++ [m.call fpSeekerNumber]

theorem foldl_deliver (fpSeekerNumber : Byte) (calls : List Call) (done : List Message) :
    done.foldl (deliver fpSeekerNumber) calls = calls ++ done.map (Message.call fpSeekerNumber) := by
  induction done generalizing calls with
  | nil => exact (append_nil calls).symm
  | cons m done ih =>
    rw [foldl_cons, ih, deliver, append_assoc]
    rfl

/-- The message has a callback, and 8 bits hold the length of its data. -/
def Message.Receivable (registered : MessageGroup → Bool) (m : Message) : Prop :=
  hasCallback registered m.group = true ∧ m.data.length ≤ 255

/-- The turns of the loop at complete messages. -/
theorem handleLoop_stream (hall : ∀ m ∈ done, m.Receivable registered) (dataLen fuel : ℕ)
    (calls : List Call) (processedLen : ℕ) (tail : List Byte) :
    handleLoop registered fpSeekerNumber dataLen (done.length + fuel) calls processedLen
        (stream Message.bytes done ++ tail) =
      handleLoop registered fpSeekerNumber dataLen fuel
        (done.foldl (deliver fpSeekerNumber) calls)
        (processedLen + (stream Message.bytes done).length) tail := by
  induction done generalizing calls processedLen with
  | nil => rw [length_nil, Nat.zero_add]; rfl
  | cons m done ih =>
    obtain ⟨hcallback, hdata⟩ := hall m mem_cons_self
    rw [Frames.stream_cons, append_assoc, length_cons, Nat.succ_add,
      Message.handleLoop_message hdata, Message.messageDataToGroup_eq hcallback,
      ih (fun m' hm' => hall m' (mem_cons_of_mem m hm')), length_append, Nat.add_assoc]
    rfl

theorem length_le_stream (done : List Message) :
    done.length ≤ (stream Message.bytes done).length := by
  induction done with
  | nil => exact Nat.le_refl 0
  | cons m done ih =>
    rw [Frames.stream_cons, length_cons, length_append, m.length_bytes,
      messageLengthMinimum]
    omega

/-- **Reception.** The complete messages of a piece are handed to their callbacks, in order, and
processed. -/
theorem handleIncomingData_cut (hall : ∀ m ∈ ms, m.Receivable registered)
    (hcut : Cut Message.bytes ms data done rest tail) (calls : List Call) :
    handleIncomingData registered fpSeekerNumber calls data =
      some (done.foldl (deliver fpSeekerNumber) calls, (stream Message.bytes done).length) := by
  obtain ⟨rfl, rfl, htail, hincomplete⟩ := hcut
  unfold handleIncomingData
  by_cases hnil : stream Message.bytes done ++ tail = []
  · have hdone : done = [] := by
      have hle := length_le_stream done
      rw [(append_eq_nil_iff.mp hnil).1] at hle
      exact length_eq_zero_iff.mp (Nat.le_zero.mp hle)
    subst hdone
    rw [if_pos hnil]
    rfl
  · obtain ⟨fuel, hfuel⟩ : ∃ fuel, (stream Message.bytes done ++ tail).length + 1 =
        done.length + (fuel + 1) := by
      have hle := length_le_stream done
      rw [length_append]
      exact ⟨(stream Message.bytes done).length + tail.length - done.length, by omega⟩
    rw [if_neg hnil, hfuel,
      handleLoop_stream (fun m hm => hall m (mem_append_left _ hm)), Nat.zero_add]
    cases rest with
    | nil =>
      obtain rfl := prefix_nil.mp htail
      rfl
    | cons m rest =>
      have hlt := hincomplete m rfl
      rw [Frames.stream_cons] at htail
      exact Message.handleLoop_part (hall m (mem_append_right _ mem_cons_self)).2
        (prefix_of_prefix_length_le htail (prefix_append ..) hlt.le) hlt

theorem handleMoreData_eq_feed :
    handleMoreData registered fpSeekerNumber =
      Frames.feed (handleIncomingData registered fpSeekerNumber) := by
  funext s chunk
  unfold handleMoreData Frames.feed
  dsimp only
  by_cases h : 0 < (s.2 ++ chunk).length
  · rw [if_pos h]
    congr 1
    funext r
    split_ifs with hr
    · rfl
    · rw [Nat.eq_zero_of_not_pos hr, drop_zero]
  · have hnil := length_eq_zero_iff.mp (Nat.eq_zero_of_not_pos h)
    rw [if_neg h, hnil, handleIncomingData, if_pos rfl]
    rfl

/-- What should be received of a row: the calls for the complete messages of a piece, in one go or
as the piece itself arrives in pieces, the rest of which stays in the source. -/
def Received (registered : MessageGroup → Bool) (fpSeekerNumber : Byte) (ms : List Message) : Prop :=
  ∀ chunks : List (List Byte), chunks.flatten <+: stream Message.bytes ms →
    ∃ done rest tail, Cut Message.bytes ms chunks.flatten done rest tail ∧
      handleIncomingData registered fpSeekerNumber [] chunks.flatten =
        some (done.map (Message.call fpSeekerNumber), (stream Message.bytes done).length) ∧
      chunks.foldlM (handleMoreData registered fpSeekerNumber) ([], []) =
        some (done.map (Message.call fpSeekerNumber), tail)

theorem received_of_receivable (hall : ∀ m ∈ ms, m.Receivable registered) :
    Received registered fpSeekerNumber ms := by
  intro chunks hchunks
  obtain ⟨done, rest, tail, hcut⟩ := Frames.exists_cut _ hchunks
  have hdeliver := foldl_deliver fpSeekerNumber [] done
  rw [nil_append] at hdeliver
  refine ⟨done, rest, tail, hcut, ?_, ?_⟩
  · rw [handleIncomingData_cut hall hcut, hdeliver]
  · have hpart : ∀ m ∈ ms.head?, ([] : List Byte).length < m.bytes.length := fun m _ => by
      rw [m.length_bytes, messageLengthMinimum, length_nil]
      omega
    obtain ⟨done', rest', tail', hcut', hrun⟩ :=
      Frames.feed_foldlM (P := Message.Receivable registered) _ _
        (fun calls ms data done rest tail hall hcut => handleIncomingData_cut hall hcut calls)
        [] hall hpart hchunks
    obtain ⟨rfl, rfl⟩ := hcut.unique hcut'
    rw [handleMoreData_eq_feed, ← hdeliver]
    exact hrun

/-- After messages that are as they should be, as much data of the next one as 8 bits count is
taken for its data. -/
theorem handleIncomingData_header (hall : ∀ m ∈ done, m.Receivable registered) {m : Message}
    {part : List Byte} (hpart : part.length = m.data.length % 256) :
    handleIncomingData registered fpSeekerNumber []
        (stream Message.bytes done ++ (m.header ++ part)) =
      some (done.map (Message.call fpSeekerNumber) ++
        messageDataToGroup registered m.group fpSeekerNumber (m.header.tail ++ part),
        (stream Message.bytes done).length + (messageLengthMinimum + part.length)) := by
  have hne : stream Message.bytes done ++ (m.header ++ part) ≠ [] := fun h => by
    cases (append_eq_nil_iff.mp (append_eq_nil_iff.mp h).2).1
  obtain ⟨fuel, hfuel⟩ : ∃ fuel, (stream Message.bytes done ++ (m.header ++ part)).length + 1 =
      done.length + (fuel + 2) := by
    have hle := length_le_stream done
    have hlen : m.header.length = 4 := rfl
    rw [length_append, length_append, hlen]
    exact ⟨(stream Message.bytes done).length + (4 + part.length) - 1 - done.length, by omega⟩
  unfold handleIncomingData
  rw [if_neg hne, hfuel, handleLoop_stream hall, foldl_deliver,
    ← append_nil (m.header ++ part), Message.handleLoop_header hpart, Nat.zero_add]
  rfl

/-- After messages that are as they should be, one that is not shows. -/
theorem receivable_next (hall : ∀ m ∈ done, m.Receivable registered) {m : Message}
    (h : Received registered fpSeekerNumber (done ++ m :: rest)) : m.Receivable registered := by
  have hstream : stream Message.bytes (done ++ m :: rest) =
      stream Message.bytes done ++ (m.header ++ m.data) ++ stream Message.bytes rest := by
    rw [Frames.stream_append, Frames.stream_cons, append_assoc]
    rfl
  have hdata : m.data.length ≤ 255 := by
    by_contra hlt
    -- the piece ends where the truncated length says that the message does
    have hpart : (m.data.take (m.data.length % 256)).length = m.data.length % 256 := by
      rw [length_take]
      omega
    have hprefix : m.header ++ m.data.take (m.data.length % 256) <+: m.header ++ m.data :=
      (prefix_append_right_inj _).mpr (List.take_prefix ..)
    obtain ⟨done', rest', tail', hcut', hhandle, -⟩ :=
      h [stream Message.bytes done ++ (m.header ++ m.data.take (m.data.length % 256))] (by
        rw [flatten_singleton, hstream]
        exact ((prefix_append_right_inj _).mpr hprefix).trans (prefix_append ..))
    have hcut : Cut Message.bytes (done ++ m :: rest)
        [stream Message.bytes done ++ (m.header ++ m.data.take (m.data.length % 256))].flatten
        done (m :: rest) (m.header ++ m.data.take (m.data.length % 256)) := by
      refine ⟨rfl, flatten_singleton, hprefix.trans ?_, fun m' hm' => ?_⟩
      · rw [Frames.stream_cons]
        exact prefix_append ..
      · obtain rfl := Option.some.inj hm'
        rw [m.length_bytes, length_append, hpart]
        change 4 + m.data.length % 256 < 4 + m.data.length
        omega
    obtain ⟨rfl, -⟩ := hcut.unique hcut'
    rw [flatten_singleton, handleIncomingData_header hall hpart] at hhandle
    have hlen := (Prod.mk.inj (Option.some.inj hhandle)).2
    rw [messageLengthMinimum] at hlen
    omega
  refine ⟨?_, hdata⟩
  by_contra hcallback
  obtain ⟨done', rest', tail', hcut', hhandle, -⟩ :=
    h [stream Message.bytes done ++ (m.header ++ m.data)] (by
      rw [flatten_singleton, hstream]
      exact prefix_append ..)
  have hcut : Cut Message.bytes (done ++ m :: rest)
      [stream Message.bytes done ++ (m.header ++ m.data)].flatten (done ++ [m]) rest [] := by
    refine ⟨by rw [append_assoc]; rfl, ?_, nil_prefix, fun m' _ => ?_⟩
    · rw [flatten_singleton, Frames.stream_append, Frames.stream_cons, Frames.stream_nil,
        append_nil, append_nil]
      rfl
    · rw [m'.length_bytes, messageLengthMinimum, length_nil]
      omega
  obtain ⟨rfl, -⟩ := hcut.unique hcut'
  rw [flatten_singleton,
    handleIncomingData_header hall (Nat.mod_eq_of_lt (by omega)).symm] at hhandle
  have hcalls := congrArg List.length (Prod.mk.inj (Option.some.inj hhandle)).1
  rw [messageDataToGroup, if_neg hcallback] at hcalls
  simp at hcalls

theorem receivable_of_received (h : Received registered fpSeekerNumber ms) :
    ∀ m ∈ ms, m.Receivable registered := by
  -- by induction on the part of the row that is known to be as it should be
  suffices hsplit : ∀ done rest : List Message, ms = done ++ rest →
      ∀ m ∈ done, m.Receivable registered from hsplit ms [] (append_nil ms).symm
  intro done
  induction done using List.reverseRecOn with
  | nil => exact fun rest _ m hm => by cases hm
  | append_singleton done m ih =>
    intro rest hms m' hm'
    rw [append_assoc, singleton_append] at hms
    have hall := ih (m :: rest) hms
    rcases mem_append.mp hm' with hm' | hm'
    · exact hall m' hm'
    · obtain rfl := mem_singleton.mp hm'
      exact receivable_next hall (hms ▸ h)

end Rows

/-! ## Sending -/

section Sending

variable {w : ℕ} {len : Uint16} {m : Message}

/-- A counter that is wide enough reaches the length. -/
theorem logLoop_ends (h : len.toNat < 2 ^ w) : ∃ fuel, logLoop (w := w) len fuel 0 = some () := by
  suffices hfrom : ∀ k (i : BitVec w), len.toNat ≤ i.toNat + k →
      logLoop len (k + 1) i = some () from ⟨len.toNat + 1, hfrom len.toNat 0 (by omega)⟩
  intro k
  induction k with
  | zero => exact fun i hi => if_neg (by omega)
  | succ k ih =>
    intro i hi
    rw [logLoop]
    by_cases hlt : i.toNat < len.toNat
    · rw [if_pos hlt]
      apply ih
      have hsucc : (i + 1).toNat = i.toNat + 1 := by
        have hw : 1 < 2 ^ w := by omega
        have hone : (1 : BitVec w).toNat = 1 := Nat.mod_eq_of_lt hw
        rw [BitVec.toNat_add, hone, Nat.mod_eq_of_lt (by omega)]
      omega
    · rw [if_neg hlt]

/-- A counter that is not never ends. -/
theorem logLoop_never (h : 2 ^ w ≤ len.toNat) (fuel : ℕ) (i : BitVec w) :
    logLoop len fuel i = none := by
  induction fuel generalizing i with
  | zero => rfl
  | succ fuel ih =>
    have hlt := i.isLt
    rw [logLoop, if_pos (by omega), ih]

theorem toNat_msgStreamDataLen (data : List Byte) :
    (msgStreamDataLen data).toNat = (messageLengthMinimum + data.length) % 2 ^ 16 :=
  BitVec.toNat_ofNat ..

theorem setWidth_low (x : Uint16) : (x &&& 0xFF).setWidth 8 = BitVec.ofNat 8 x.toNat := by
  apply BitVec.eq_of_toNat_eq
  rw [BitVec.toNat_setWidth, BitVec.toNat_and, BitVec.toNat_ofNat]
  change (x.toNat &&& 2 ^ 8 - 1) % 2 ^ 8 = x.toNat % 2 ^ 8
  rw [Nat.and_two_pow_sub_one_eq_mod, Nat.mod_mod]

theorem setWidth_high (x : Uint16) :
    (((x &&& 0xFF00) >>> 8) &&& 0xFF).setWidth 8 = BitVec.ofNat 8 (x.toNat / 256) := by
  have hmask : (0xFF00 : Uint16) >>> 8 = 0xFF := rfl
  rw [BitVec.ushiftRight_and_distrib, hmask, BitVec.and_assoc, BitVec.and_self, setWidth_low,
    BitVec.toNat_ushiftRight, Nat.shiftRight_eq_div_pow]

/-- The buffer holds the message unless its length wraps. -/
theorem fillMessage_eq (m : Message) :
    fillMessage m.group m.code m.data =
      if messageLengthMinimum + m.data.length < 2 ^ 16 then some m.bytes else none := by
  have hfits := m.fits
  have hheader : [m.group, m.code,
      (((BitVec.ofNat 16 m.data.length &&& 0xFF00) >>> 8) &&& 0xFF).setWidth 8,
      (BitVec.ofNat 16 m.data.length &&& 0xFF).setWidth 8] = m.header := by
    rw [setWidth_high, setWidth_low, BitVec.toNat_ofNat, Nat.mod_eq_of_lt hfits]
    rfl
  unfold fillMessage
  dsimp only
  rw [hheader, ← Message.bytes, m.length_bytes, toNat_msgStreamDataLen]
  by_cases h : messageLengthMinimum + m.data.length < 2 ^ 16
  · rw [if_pos h, if_pos (Nat.mod_eq_of_lt h).ge]
  · rw [if_neg h, if_neg]
    have hmod := Nat.mod_lt (messageLengthMinimum + m.data.length) (Nat.two_pow_pos 16)
    omega

theorem sendData_iff (m : Message) (fpSeekerNumber : ℕ) :
    (∃ fuel, msgStreamSendData fuel m.group m.code m.data fpSeekerNumber =
        some [⟨m.bytes, fpSeekerNumber⟩]) ↔ messageLengthMinimum + m.data.length < 2 ^ 16 := by
  unfold msgStreamSendData
  rw [fillMessage_eq]
  constructor
  · rintro ⟨fuel, hsent⟩
    by_contra h
    rw [if_neg h] at hsent
    cases hsent
  · intro h
    have hlen : (msgStreamDataLen m.data).toNat < 2 ^ 32 := by
      rw [toNat_msgStreamDataLen, Nat.mod_eq_of_lt h]
      omega
    obtain ⟨fuel, hends⟩ := logLoop_ends hlen
    refine ⟨fuel, ?_⟩
    rw [if_pos h]
    dsimp only [bind, Option.bind_some]
    rw [hends]
    rfl

/-- What should be sent to every connected instance. -/
def sentToAll (connected : ℕ → Bool) (m : Message) : List Sent :=
  (connectedInstances connected).map fun rfcommInstance => ⟨m.bytes, rfcommInstance + 1⟩

theorem sendDataToAll_iff (m : Message) (connected : ℕ → Bool) :
    (∃ fuel, msgStreamSendDataToAll fuel connected m.group m.code m.data =
        some (sentToAll connected m)) ↔
      connectedInstances connected = [] ∨ messageLengthMinimum + m.data.length < 2 ^ 8 := by
  unfold msgStreamSendDataToAll sentToAll
  rw [fillMessage_eq]
  by_cases hnone : connectedInstances connected = []
  · rw [hnone]
    exact iff_of_true ⟨0, rfl⟩ (.inl rfl)
  · have hlength := mt length_eq_zero_iff.mp hnone
    rw [or_iff_right hnone]
    constructor
    · rintro ⟨fuel, hsent⟩
      rw [if_neg hlength] at hsent
      by_contra h
      by_cases h16 : messageLengthMinimum + m.data.length < 2 ^ 16
      · have hlen : 2 ^ 8 ≤ (msgStreamDataLen m.data).toNat := by
          rw [toNat_msgStreamDataLen, Nat.mod_eq_of_lt h16]
          exact Nat.not_lt.mp h
        rw [if_pos h16] at hsent
        dsimp only [bind, Option.bind_some] at hsent
        rw [logLoop_never hlen] at hsent
        cases hsent
      · rw [if_neg h16] at hsent
        cases hsent
    · intro h
      have h16 : messageLengthMinimum + m.data.length < 2 ^ 16 := by omega
      have hlen : (msgStreamDataLen m.data).toNat < 2 ^ 8 := by
        rw [toNat_msgStreamDataLen, Nat.mod_eq_of_lt h16]
        exact h
      obtain ⟨fuel, hends⟩ := logLoop_ends hlen
      refine ⟨fuel, ?_⟩
      rw [if_neg hlength, if_pos h16]
      dsimp only [bind, Option.bind_some]
      rw [hends]
      rfl

end Sending

/-- What should hold of a row of messages: they are received from any pieces, and sent to one link
and to all of them. -/
structure Framed (registered : MessageGroup → Bool) (connected : ℕ → Bool) (ms : List Message) :
    Prop where
  received : ∀ fpSeekerNumber, Received registered fpSeekerNumber ms
  sent : ∀ m ∈ ms, ∀ fpSeekerNumber, ∃ fuel,
    msgStreamSendData fuel m.group m.code m.data fpSeekerNumber = some [⟨m.bytes, fpSeekerNumber⟩]
  sentToAll : ∀ m ∈ ms, ∃ fuel,
    msgStreamSendDataToAll fuel connected m.group m.code m.data = some (sentToAll connected m)

/-- The message has a callback, and 8 bits hold the length of its data; where the message is sent
to a connected link, they hold its own length. -/
def Message.Regular (registered : MessageGroup → Bool) (connected : ℕ → Bool) (m : Message) : Prop :=
  hasCallback registered m.group = true ∧ m.data.length ≤ 255 ∧
    (connectedInstances connected = [] ∨ m.data.length ≤ 251)

instance (registered : MessageGroup → Bool) (connected : ℕ → Bool) (m : Message) :
    Decidable (m.Regular registered connected) := inferInstanceAs (Decidable (_ ∧ _))

/-- **Framing.** A row of messages is received and sent as it should be exactly when each of them
is regular. -/
theorem framed_iff (registered : MessageGroup → Bool) (connected : ℕ → Bool) (ms : List Message) :
    Framed registered connected ms ↔ ∀ m ∈ ms, m.Regular registered connected := by
  constructor
  · intro h m hm
    obtain ⟨hcallback, hdata⟩ := receivable_of_received (h.received 1) m hm
    refine ⟨hcallback, hdata, ((sendDataToAll_iff m connected).mp (h.sentToAll m hm)).imp_right ?_⟩
    intro hlen
    rw [messageLengthMinimum] at hlen
    omega
  · intro h
    refine ⟨fun _ => received_of_receivable fun m hm => ⟨(h m hm).1, (h m hm).2.1⟩,
      fun m hm fpSeekerNumber => (sendData_iff m fpSeekerNumber).mpr ?_,
      fun m hm => (sendDataToAll_iff m connected).mpr ((h m hm).2.2.imp_right ?_)⟩
    · have hlen := (h m hm).2.1
      rw [messageLengthMinimum]
      omega
    · intro hlen
      rw [messageLengthMinimum]
      omega

/-- A message of the device action group with 256 bytes of data. -/
def longMessage : Message := ⟨4, 1, List.replicate 256 0, by decide, by decide +kernel⟩

/-- One link is up: the loop of `fastPair_MsgStreamSendDataToAll` never ends, and four bytes of the
message are enough for its callback. -/
theorem not_framed_longMessage :
    (∀ fuel, msgStreamSendDataToAll fuel (· == 0) longMessage.group longMessage.code
      longMessage.data = none) ∧
      handleIncomingData (fun _ => true) 1 [] (longMessage.bytes.take 4) =
        some ([⟨4, 1, [1, 1, 0]⟩], 4) ∧
      ¬ Framed (fun _ => true) (· == 0) [longMessage] := by
  refine ⟨fun fuel => ?_, by decide +kernel, fun h => ?_⟩
  · have hlen : 2 ^ 8 ≤ (msgStreamDataLen longMessage.data).toNat := by decide +kernel
    have hfill : fillMessage longMessage.group longMessage.code longMessage.data =
        some longMessage.bytes := by decide +kernel
    unfold msgStreamSendDataToAll
    rw [if_neg (by decide), hfill]
    dsimp only [bind, Option.bind_some]
    rw [logLoop_never hlen]
    rfl
  · have hdata := (receivable_of_received (h.received 1) _ List.mem_cons_self).2
    exact absurd hdata (by decide +kernel)

end Mh40.FastPair
