import Mh40.Upgrade.PartitionData

/-!
# Writes to a section

What the rounds of `UpgradeFWIFPartitionWrite` leave: all of the data is flushed, from the position
of the sink on.
-/

namespace Mh40.Upgrade

open List Function

variable {device : Device} {ctx : PartitionData} {sink : Sink} {data : List UInt8}

/-- An operation that flushes data to a section. -/
def FlashOp.IsFlush : FlashOp → Prop
  | .sinkFlush _ _ _ => True
  | _ => False

/-- The context after some data was flushed to a section. -/
abbrev withData (ctx : PartitionData) (ops : List FlashOp) (partNum : ℕ) (data : List UInt8) :
    PartitionData :=
  { ctx with
    ops := ctx.ops ++ ops
    flash.sectionData := Function.update ctx.flash.sectionData partNum data }

/-- A section once `data` is written from `position` on. -/
def written (old : List UInt8) (position : ℕ) (data : List UInt8) : List UInt8 :=
  if data = [] then old else old.take position ++ data

theorem written_written (old : List UInt8) (position : ℕ) (data more : List UInt8) :
    written (written old position data) (position + data.length) more =
      written old position (data ++ more) := by
  unfold written
  by_cases hd : data = []
  · simp [hd]
  · by_cases hm : more = []
    · simp [hd, hm]
    · have htake : (old.take position ++ data).take (position + data.length) =
          old.take position ++ data := take_of_length_le (by simp)
      simp [hd, hm, htake]

/-- Written behind the end of a section. -/
theorem written_length (old data : List UInt8) : written old old.length data = old ++ data := by
  unfold written
  split_ifs with h
  · simp [h]
  · simp

theorem flushRounds_spec (device : Device) (n : ℕ) (ctx : PartitionData) (sink : Sink) (data : List UInt8)
    (hn : data.length ≤ n) :
    ∃ ops, (∀ op ∈ ops, op.IsFlush) ∧ flushRounds device n ctx sink data =
      (withData ctx ops sink.partNum
          (written (ctx.flash.sectionData sink.partNum) sink.position data),
        { sink with position := sink.position + data.length }) := by
  induction n generalizing ctx sink data with
  | zero =>
    obtain rfl : data = [] := length_eq_zero_iff.mp (by omega)
    refine ⟨[], nofun, ?_⟩
    simp only [flushRounds, withData, written, if_true, update_eq_self, append_nil,
      length_nil, Nat.add_zero]
  | succ n ih =>
    rw [flushRounds]
    split_ifs with hd
    · refine ⟨[], nofun, ?_⟩
      simp only [hd, withData, written, if_true, update_eq_self, append_nil,
        length_nil, Nat.add_zero]
    · set writeLen := min (device.sinkSlack sink.position) data.length with hw
      have hpos := device.sinkSlack_pos sink.position
      have hlen := length_pos_iff.mpr hd
      have htake : (data.take writeLen).length = writeLen := by
        rw [length_take]
        omega
      have hne : data.take writeLen ≠ [] := ne_nil_of_length_pos (by omega)
      obtain ⟨ops, hops, hf⟩ := ih
        (perform ctx (.sinkFlush sink.partNum sink.position (data.take writeLen)))
        { sink with position := sink.position + writeLen } (data.drop writeLen)
        (by rw [length_drop]; omega)
      refine ⟨.sinkFlush sink.partNum sink.position (data.take writeLen) :: ops, ?_, ?_⟩
      · rintro op (_ | ⟨_, hop⟩)
        · trivial
        · exact hops op hop
      · have hsection : written (written (ctx.flash.sectionData sink.partNum) sink.position
            (data.take writeLen)) (sink.position + writeLen) (data.drop writeLen) =
            written (ctx.flash.sectionData sink.partNum) sink.position data := by
          have hboth := written_written (ctx.flash.sectionData sink.partNum) sink.position
            (data.take writeLen) (data.drop writeLen)
          rwa [htake, take_append_drop] at hboth
        have hfirst : (ctx.flash.sectionData sink.partNum).take sink.position ++
            data.take writeLen = written (ctx.flash.sectionData sink.partNum) sink.position
              (data.take writeLen) := (if_neg hne).symm
        rw [hf]
        simp only [withData, perform, FlashOp.apply, update_self, hfirst, hsection,
          update_idem, append_assoc, singleton_append, length_drop,
          Prod.mk.injEq, Sink.mk.injEq, true_and]
        omega

/-- **All of the data is written.** -/
theorem partitionWrite_some (device : Device) (h : ctx.partitionHdl = some sink) (data : List UInt8) :
    ∃ ops, (∀ op ∈ ops, op.IsFlush) ∧ partitionWrite device ctx data =
      (true, { withData ctx ops sink.partNum
          (written (ctx.flash.sectionData sink.partNum) sink.position data) with
        partitionHdl := some { sink with position := sink.position + data.length } }) := by
  obtain ⟨ops, hops, hf⟩ := flushRounds_spec device data.length ctx sink data le_rfl
  refine ⟨ops, hops, ?_⟩
  unfold partitionWrite
  rw [h]
  simp only [hf]

end Mh40.Upgrade
