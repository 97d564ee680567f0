import Mathlib.Data.Int.ModEq

/-!
# Half-range comparison of wrapping sequence numbers

Absolute numbers `0, 1, 2, …` travel modulo `M`, counted from a starting number `base`. A receiver
that holds the wire number of `L` recovers the position of an arriving `n` from the wire numbers
alone as long as `n` lies in the window `L - (M - W) < n ≤ L + W`: the distance from `L` to `n`
modulo `M` is in `(0, W]` iff `n` is ahead of `L` (`ahead_iff`), and the next number is recognised
by equality (`wireNumber_eq_succ_iff`). Neither depends on how often the numbers have wrapped.
-/

namespace Mh40.Lib

/-- The number `n` has on the wire, `n` steps after `base` modulo `M`. -/
def wireNumber (M base n : ℕ) : ℕ := (base + n) % M

/-- The steps modulo `M` from the wire number `b` up to the wire number `a`. -/
def wireDistance (M a b : ℕ) : ℕ := (a + M - b) % M

variable {M W base n L : ℕ}

theorem wireNumber_lt (hM : 0 < M) (base n : ℕ) : wireNumber M base n < M := Nat.mod_lt _ hM

theorem wireNumber_zero (hb : base < M) : wireNumber M base 0 = base := Nat.mod_eq_of_lt hb

/-- One step on the wire is one step of the absolute number. -/
theorem wireNumber_succ : (wireNumber M base n + 1) % M = wireNumber M base (n + 1) := by
  unfold wireNumber
  rw [Nat.mod_add_mod, Nat.add_assoc]

/-- The wire distance is the difference of the absolute numbers modulo `M`. -/
theorem wireDistance_wireNumber (hM : 0 < M) (base n L : ℕ) :
    (wireDistance M (wireNumber M base n) (wireNumber M base L) : ℤ) = ((n : ℤ) - L) % M := by
  have hL : wireNumber M base L ≤ wireNumber M base n + M := by
    have := wireNumber_lt hM base L
    omega
  unfold wireDistance
  rw [Int.natCast_mod, Nat.cast_sub hL]
  unfold wireNumber
  push_cast
  rw [Int.sub_emod, Int.add_emod_right, Int.emod_emod, Int.emod_emod, ← Int.sub_emod]
  congr 1
  omega

/-- **The half-range test**: inside the window, the wire distance is in `(0, W]` exactly when `n`
is ahead of `L`. -/
theorem ahead_iff (hWM : W < M) (hlo : L < n + (M - W)) (hhi : n ≤ L + W) :
    (0 < wireDistance M (wireNumber M base n) (wireNumber M base L) ∧
      wireDistance M (wireNumber M base n) (wireNumber M base L) ≤ W) ↔ L < n := by
  have hd := wireDistance_wireNumber (show 0 < M by omega) base n L
  by_cases h : L ≤ n
  · rw [Int.emod_eq_of_lt (by omega) (by omega)] at hd
    omega
  · have hneg : ((n : ℤ) - L) % M = (n : ℤ) - L + M := by
      rw [← Int.add_emod_right]
      exact Int.emod_eq_of_lt (by omega) (by omega)
    rw [hneg] at hd
    omega

/-- Two numbers less than `M` apart are equal when their wire numbers are. -/
theorem wireNumber_inj {m : ℕ} (h1 : n < m + M) (h2 : m < n + M) :
    wireNumber M base n = wireNumber M base m ↔ n = m := by
  refine ⟨fun h => ?_, fun h => h ▸ rfl⟩
  have hmod : n ≡ m [MOD M] := Nat.ModEq.add_left_cancel' base h
  rcases Nat.le_total n m with hle | hle
  · have hd := (Nat.modEq_iff_dvd' hle).mp hmod
    have := Nat.eq_zero_of_dvd_of_lt hd (by omega)
    omega
  · have hd := (Nat.modEq_iff_dvd' hle).mp hmod.symm
    have := Nat.eq_zero_of_dvd_of_lt hd (by omega)
    omega

/-- Inside a non-empty window, the next number is the one with the next wire number. -/
theorem wireNumber_eq_succ_iff (hW : 0 < W) (hWM : W < M) (hlo : L < n + (M - W))
    (hhi : n ≤ L + W) : wireNumber M base n = (wireNumber M base L + 1) % M ↔ n = L + 1 := by
  rw [wireNumber_succ]
  exact wireNumber_inj (by omega) (by omega)

end Mh40.Lib
