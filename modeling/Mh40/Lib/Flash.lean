import Mathlib.Order.Lattice
import Mathlib.Order.BoundedOrder.Basic

/-!
# Flash memory that a loss of power can stop at any operation

A cell is an element of a meet-semilattice with a top. Programming a cell takes the meet with what
is written, erasing a block sets each of its cells to the top, so a cell only goes down until its
block is erased. A `Log` is the image that a program has made of the flash together with every
image it left on the way: what a loss of power before one of its operations leaves behind.

* `Op.apply` — one operation on an image;
* `Log.op` — one operation of a program, the image before it kept in `past`;
* `Log.Through` — a property of the images of a log, with one rule for each operation.
-/

namespace Mh40.Lib.Flash

universe u v w

/-- The cells `ι` of each block `β`. -/
abbrev Image (β : Type u) (ι : Type v) (α : Type w) := β → ι → α

inductive Op (β : Type u) (ι : Type v) (α : Type w) where
  | erase (b : β)
  | program (b : β) (i : ι) (v : α)

/-- The flash as a program has made it, and what a loss of power before each of its operations
would have left. -/
structure Log (β : Type u) (ι : Type v) (α : Type w) where
  now : Image β ι α
  past : List (Image β ι α)

section Images

variable {β : Type u} {ι : Type v} {α : Type w} {P Q : Image β ι α → Prop} {l : Log β ι α}

/-- A program starts on the flash it finds. -/
def Log.start (f : Image β ι α) : Log β ι α := ⟨f, []⟩

/-- Every image that the program leaves when it is stopped between two operations. -/
def Log.images (l : Log β ι α) : List (Image β ι α) := l.now :: l.past

/-- `P` holds of every image of the log. -/
def Log.Through (P : Image β ι α → Prop) (l : Log β ι α) : Prop := ∀ f ∈ l.images, P f

theorem Log.through_start {f : Image β ι α} (h : P f) : (Log.start f).Through P := by
  simpa [Log.Through, Log.images, Log.start] using h

end Images

section Operations

variable {β : Type u} {ι : Type v} {α : Type w} [DecidableEq β] [DecidableEq ι]
  [SemilatticeInf α] [OrderTop α]

def Op.apply : Op β ι α → Image β ι α → Image β ι α
  | .erase b, f => Function.update f b fun _ => ⊤
  | .program b i v, f => Function.update f b (Function.update (f b) i (f b i ⊓ v))

def Log.op (l : Log β ι α) (o : Op β ι α) : Log β ι α := ⟨o.apply l.now, l.now :: l.past⟩

@[simp] theorem apply_erase_same (b : β) (f : Image β ι α) (i : ι) :
    (Op.erase b).apply f b i = ⊤ := by
  simp [Op.apply]

theorem apply_erase_of_ne {b c : β} (h : c ≠ b) (f : Image β ι α) :
    (Op.erase b : Op β ι α).apply f c = f c := by
  simp [Op.apply, h]

@[simp] theorem apply_program_same (b : β) (i : ι) (v : α) (f : Image β ι α) :
    (Op.program b i v).apply f b i = f b i ⊓ v := by
  simp [Op.apply]

theorem apply_program_of_ne {b c : β} (h : c ≠ b) (i : ι) (v : α) (f : Image β ι α) :
    (Op.program b i v).apply f c = f c := by
  simp [Op.apply, h]

theorem apply_program_cell_ne (b : β) {i j : ι} (h : j ≠ i) (v : α) (f : Image β ι α) (c : β) :
    (Op.program b i v).apply f c j = f c j := by
  by_cases hc : c = b
  · subst hc
    simp [Op.apply, h]
  · rw [apply_program_of_ne hc]

theorem Log.Through.op {P : Image β ι α → Prop} {l : Log β ι α} {o : Op β ι α}
    (h : l.Through P) (ho : P (o.apply l.now)) : (l.op o).Through P := by
  intro f hf
  rcases List.mem_cons.mp hf with rfl | hf
  · exact ho
  · exact h f hf

end Operations

end Mh40.Lib.Flash
