import Mathlib.Data.List.Infix

/-!
# Rows of frames that arrive in pieces

A row of frames is sent as one list of bytes. A receiver sees pieces of it, takes whole frames off
the front and keeps the rest for the next piece.

* `exists_cut`, `Cut.unique`: a piece of a row is cut in one place only.
* `feed_foldlM`: a receiver that takes the frames of any one piece takes those of a row of pieces.
-/

namespace Mh40.Frames

open List Option

variable {ι α : Type*} (bytes : ι → List α)

/-- The bytes of a row. -/
def stream (fs : List ι) : List α := fs.flatMap bytes

/-- A piece of the row `fs` is the frames `done` and a part `tail` of the next frame. -/
structure Cut (fs : List ι) (data : List α) (done rest : List ι) (tail : List α) : Prop where
  frames : fs = done ++ rest
  data_eq : data = stream bytes done ++ tail
  tail_prefix : tail <+: stream bytes rest
  incomplete : ∀ f ∈ rest.head?, tail.length < (bytes f).length

variable {bytes} {fs done rest done' rest' : List ι} {data tail tail' : List α}

@[simp]
theorem stream_nil : stream bytes [] = [] := rfl

@[simp]
theorem stream_cons (f : ι) : stream bytes (f :: fs) = bytes f ++ stream bytes fs :=
  flatMap_cons

@[simp]
theorem stream_append : stream bytes (done ++ rest) = stream bytes done ++ stream bytes rest :=
  flatMap_append

variable (bytes) in
/-- Every piece of a row is cut somewhere. -/
theorem exists_cut (h : data <+: stream bytes fs) :
    ∃ done rest tail, Cut bytes fs data done rest tail := by
  induction fs generalizing data with
  | nil =>
    obtain rfl := prefix_nil.mp h
    exact ⟨[], [], [], rfl, rfl, prefix_rfl, fun f hf => by cases hf⟩
  | cons f fs ih =>
    by_cases hlt : data.length < (bytes f).length
    · refine ⟨[], f :: fs, data, rfl, rfl, h, fun f' hf' => ?_⟩
      obtain rfl := some.inj hf'
      exact hlt
    · rw [stream_cons] at h
      have hf : bytes f <+: data :=
        prefix_of_prefix_length_le (prefix_append ..) h (Nat.not_lt.mp hlt)
      obtain ⟨data', rfl⟩ := hf
      obtain ⟨done, rest, tail, hcut⟩ := ih ((prefix_append_right_inj _).mp h)
      exact ⟨f :: done, rest, tail, by rw [hcut.frames]; rfl,
        by rw [hcut.data_eq, stream_cons, append_assoc], hcut.tail_prefix, hcut.incomplete⟩

/-- A piece does not hold the frame that it is cut in. -/
theorem Cut.not_frame (h : Cut bytes fs data [] rest tail) {f : ι} (hf : f ∈ rest.head?) :
    data ≠ stream bytes (f :: done) ++ tail' := by
  intro heq
  have hlt := h.incomplete f hf
  have hdata : data = tail := h.data_eq
  rw [← hdata, heq, stream_cons, append_assoc, length_append] at hlt
  omega

/-- A piece is cut in one place only. -/
theorem Cut.unique (h : Cut bytes fs data done rest tail)
    (h' : Cut bytes fs data done' rest' tail') : done = done' ∧ tail = tail' := by
  induction done generalizing fs data done' with
  | nil =>
    cases done' with
    | nil => exact ⟨rfl, h.data_eq.symm.trans h'.data_eq⟩
    | cons f done' =>
      have hrest : rest = f :: (done' ++ rest') := h.frames.symm.trans h'.frames
      exact (h.not_frame (hrest ▸ rfl) h'.data_eq).elim
  | cons f done ih =>
    cases done' with
    | nil =>
      have hrest : rest' = f :: (done ++ rest) := h'.frames.symm.trans h.frames
      exact (h'.not_frame (hrest ▸ rfl) h.data_eq).elim
    | cons f' done' =>
      obtain ⟨rfl, hframes⟩ := cons.inj (h.frames.symm.trans h'.frames)
      have hdata := h.data_eq.symm.trans h'.data_eq
      rw [stream_cons, stream_cons, append_assoc, append_assoc] at hdata
      obtain ⟨rfl, rfl⟩ := ih ⟨rfl, rfl, h.tail_prefix, h.incomplete⟩
        ⟨hframes, append_cancel_left hdata, h'.tail_prefix, h'.incomplete⟩
      exact ⟨rfl, rfl⟩

section Feed

variable {σ : Type*} (handle : σ → List α → Option (σ × ℕ))

/-- A piece arrives: `handle` says how many bytes of the source it has processed. -/
def feed (s : σ × List α) (chunk : List α) : Option (σ × List α) :=
  (handle s.1 (s.2 ++ chunk)).map fun r => (r.1, (s.2 ++ chunk).drop r.2)

variable (deliver : σ → ι → σ) {chunks : List (List α)}

/-- A receiver that delivers the frames of a piece, wherever it is cut, delivers those of a row of
pieces. -/
theorem feed_foldlM {P : ι → Prop}
    (hhandle : ∀ s fs data done rest tail, (∀ f ∈ fs, P f) → Cut bytes fs data done rest tail →
      handle s data = some (done.foldl deliver s, (stream bytes done).length))
    (s : σ) (hall : ∀ f ∈ fs, P f) (hpart : ∀ f ∈ fs.head?, tail.length < (bytes f).length)
    (h : tail ++ chunks.flatten <+: stream bytes fs) :
    ∃ done rest tail', Cut bytes fs (tail ++ chunks.flatten) done rest tail' ∧
      chunks.foldlM (feed handle) (s, tail) = some (done.foldl deliver s, tail') := by
  induction chunks generalizing fs s tail with
  | nil =>
    rw [flatten_nil, append_nil] at h ⊢
    exact ⟨[], fs, tail, ⟨rfl, rfl, h, hpart⟩, rfl⟩
  | cons chunk chunks ih =>
    rw [flatten_cons, ← append_assoc] at h ⊢
    obtain ⟨done1, rest1, tail1, hcut1⟩ := exists_cut bytes ((prefix_append ..).trans h)
    have hrec := hhandle s fs _ done1 rest1 tail1 hall hcut1
    obtain ⟨rfl, hdata, -, hincomplete⟩ := hcut1
    rw [hdata, stream_append, append_assoc, prefix_append_right_inj] at h
    obtain ⟨done2, rest2, tail2, hcut2, hrun⟩ :=
      ih (done1.foldl deliver s) (fun f hf => hall f (mem_append_right _ hf)) hincomplete h
    refine ⟨done1 ++ done2, rest2, tail2, ⟨?_, ?_, hcut2.tail_prefix, hcut2.incomplete⟩, ?_⟩
    · rw [append_assoc, ← hcut2.frames]
    · rw [hdata, append_assoc, hcut2.data_eq, stream_append, append_assoc]
    · have hchunk : feed handle (s, tail) chunk = some (done1.foldl deliver s, tail1) := by
        unfold feed
        rw [hrec, map_some, hdata, drop_left]
      rw [foldlM_cons, hchunk]
      dsimp only [bind, bind_some]
      rw [hrun, foldl_append]

end Feed

end Mh40.Frames
