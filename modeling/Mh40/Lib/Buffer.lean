import Mathlib.Data.List.Basic

/-!
# Buffers with bounds

A buffer is the list of its cells. Reads and writes of a block of cells fault (`none`) when the
block does not lie in the buffer.

* `writeAt_append`: a write between a prefix and a suffix.
* `readAt_append`: a read between a prefix and a suffix.
-/

namespace Mh40.Lib.Buffer

open List

variable {α : Type} {buf buf' bs : List α} {i n : ℕ}

/-- Write `bs` from cell `i` on. -/
def writeAt (buf : List α) (i : ℕ) (bs : List α) : Option (List α) :=
  if i + bs.length ≤ buf.length then some (buf.take i ++ bs ++ buf.drop (i + bs.length)) else none

/-- Read `n` cells from cell `i` on. -/
def readAt (buf : List α) (i n : ℕ) : Option (List α) :=
  if i + n ≤ buf.length then some ((buf.drop i).take n) else none

theorem writeAt_append (front cs bs back : List α) (hi : front.length = i)
    (hlen : cs.length = bs.length) :
    writeAt (front ++ cs ++ back) i bs = some (front ++ bs ++ back) := by
  subst hi
  rw [writeAt, if_pos (by simp [hlen])]
  simp [drop_append, drop_eq_nil_of_le, hlen]

theorem writeAt_eq_none_iff : writeAt buf i bs = none ↔ buf.length < i + bs.length := by
  unfold writeAt
  split <;> simp <;> omega

theorem length_of_writeAt (h : writeAt buf i bs = some buf') : buf'.length = buf.length := by
  unfold writeAt at h
  split at h
  · cases h
    simp
    omega
  · cases h

/-- The cells in front of a write stay as they are. -/
theorem take_of_writeAt (h : writeAt buf i bs = some buf') (hn : n ≤ i) :
    buf'.take n = buf.take n := by
  unfold writeAt at h
  split at h
  · cases h
    rw [append_assoc, take_append_of_le_length (by simp; omega), take_take,
      Nat.min_eq_left hn]
  · cases h

theorem readAt_append (front bs back : List α) (hi : front.length = i) (hn : bs.length = n) :
    readAt (front ++ bs ++ back) i n = some bs := by
  subst hi hn
  rw [readAt, if_pos (by simp)]
  simp

end Mh40.Lib.Buffer
