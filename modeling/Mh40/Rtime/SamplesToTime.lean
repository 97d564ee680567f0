import Mathlib.Algebra.Order.Field.Basic
import Mathlib.Tactic.FieldSimp
import Mathlib.Tactic.Linarith
import Mathlib.Tactic.Ring
import Mh40.Rtime.Wallclock

/-!
# Time of samples

`libs/rtime/rtime.c`: the time that a number of samples takes at an adjusted sample period. Periods
are in microseconds, as Q32.32 in 64 signed bits; the adjustment is a signed fraction in Q31.

* `rtimeSamplesToTime`: `none` is an intermediate that does not fit into 64 bits.
* `duration`: the exact time, a rational number.
* `adjustedSamplePeriod_spec`: the adjusted period, up to what the divisions cut off.
* `samples_to_time`: nothing overflows, the time is exact up to two microseconds, and it does
  not decrease with the number of samples.
-/

namespace Mh40.Rtime

open Option

/-! ## Model -/

/-- The supported rates of `rtime_sample_rate_t`. -/
inductive SampleRate
  | rate44100
  | rate48000
deriving DecidableEq, Repr

def SampleRate.hz : SampleRate → ℕ
  | .rate44100 => 44100
  | .rate48000 => 48000

/-- `QSHIFT`. -/
def qshift : ℕ := 32

/-- `QDIV`. -/
def qdiv : ℕ := 1 <<< qshift

/-- `QMASK`. -/
def qmask : ℕ := qdiv - 1

/-- `SR_TO_SP`. -/
def srToSp (sr : ℕ) : ℕ := (1000000 <<< qshift) / sr

/-- The value of a signed 64-bit expression, if it fits. -/
def int64 (x : ℤ) : Option ℤ := if -2 ^ 63 ≤ x ∧ x < 2 ^ 63 then some x else none

def adjustedSamplePeriod (sr : SampleRate) (adj : BitVec 32) : Option ℤ := do
  let s := srToSp sr.hz
  let low ← int64 ((s &&& qmask : ℕ) * adj.toInt)
  let tmp1 := low.tdiv qdiv
  let tmp2 ← int64 ((s / qdiv : ℕ) * adj.toInt)
  let sum ← int64 (tmp1 + tmp2)
  let res ← int64 (sum * 2)
  int64 (s + res)

/-- `RtimeSamplesToTime`. -/
def rtimeSamplesToTime (samples : BitVec 32) (sr : SampleRate) (spadj : BitVec 32) :
    Option RtimeT := do
  let period ← adjustedSamplePeriod sr spadj
  let product ← int64 (samples.toInt * period)
  some (BitVec.ofInt 32 (product.tdiv qdiv))

/-- The exact time of the samples, in microseconds. -/
def duration (samples : BitVec 32) (sr : SampleRate) (adj : BitVec 32) : ℚ :=
  samples.toInt * (1000000 / sr.hz) * (1 + adj.toInt / 2 ^ 31)

/-- The exact time is below `2 ^ 31 - 1` in magnitude. -/
def InRange (samples : BitVec 32) (sr : SampleRate) (adj : BitVec 32) : Prop :=
  |duration samples sr adj| < 2 ^ 31 - 1

/-! ## The adjusted period -/

/-- The table of the sample periods. -/
theorem table_cases (sr : SampleRate) : sr.hz = 44100 ∧ srToSp sr.hz = 97391548662 ∨
    sr.hz = 48000 ∧ srToSp sr.hz = 89478485333 := by
  cases sr with
  | rate44100 => exact .inl ⟨rfl, rfl⟩
  | rate48000 => exact .inr ⟨rfl, rfl⟩

theorem int64_of_le {x : ℤ} (hlow : -2 ^ 63 ≤ x) (hhigh : x < 2 ^ 63) : int64 x = some x :=
  if_pos ⟨hlow, hhigh⟩

theorem toInt_bounds (x : BitVec 32) : -2 ^ 31 ≤ x.toInt ∧ x.toInt < 2 ^ 31 :=
  ⟨BitVec.le_toInt x, BitVec.toInt_lt⟩

/-- What a division by `QDIV` cuts off has the sign of the dividend. -/
theorem tdiv_qdiv (x : ℤ) : ∃ rest, 2 ^ 32 * x.tdiv qdiv + rest = x ∧
    (0 ≤ x → 0 ≤ rest ∧ rest < 2 ^ 32) ∧ (x ≤ 0 → -2 ^ 32 < rest ∧ rest ≤ 0) := by
  have hq : ((qdiv : ℕ) : ℤ) = 2 ^ 32 := rfl
  have hdiv := Int.mul_tdiv_add_tmod x qdiv
  rw [hq] at hdiv ⊢
  refine ⟨_, hdiv, fun hx => ?_, fun hx => ?_⟩
  · exact ⟨Int.tmod_nonneg _ hx, Int.tmod_lt_of_pos _ (by decide)⟩
  · have hneg : (-x).tmod (2 ^ 32) = -x.tmod (2 ^ 32) := Int.neg_tmod ..
    have hnonneg : 0 ≤ (-x).tmod (2 ^ 32) := Int.tmod_nonneg _ (by omega)
    have hlt : (-x).tmod (2 ^ 32) < 2 ^ 32 := Int.tmod_lt_of_pos _ (by decide)
    omega

/-- **The adjusted period.** It differs from the exact multiple of the tabulated period by what the
first division cuts off. -/
theorem adjustedSamplePeriod_spec (sr : SampleRate) (adj : BitVec 32) :
    ∃ period rest, adjustedSamplePeriod sr adj = some period ∧ 0 ≤ period ∧
      2 ^ 31 * period = srToSp sr.hz * (2 ^ 31 + adj.toInt) - rest ∧
      (0 ≤ adj.toInt → 0 ≤ rest ∧ rest < 2 ^ 32) ∧
      (adj.toInt ≤ 0 → -2 ^ 32 < rest ∧ rest ≤ 0) := by
  obtain ⟨hmin, hmax⟩ := toInt_bounds adj
  obtain ⟨low, hlow, hlt⟩ : ∃ low, srToSp sr.hz &&& qmask = low ∧ low < 2 ^ 32 := by
    cases sr <;> exact ⟨_, rfl, by decide⟩
  obtain ⟨high, hhigh, hpos, hle⟩ : ∃ high, srToSp sr.hz / qdiv = high ∧ 0 < high ∧ high ≤ 22 := by
    cases sr <;> exact ⟨_, rfl, by decide, by decide⟩
  have hs : srToSp sr.hz = 2 ^ 32 * high + low := by
    rw [← hlow, ← hhigh]
    cases sr <;> rfl
  -- the two products, and the bounds of the smaller factors
  obtain ⟨x, hx⟩ : ∃ x : ℤ, (low : ℕ) * adj.toInt = x := ⟨_, rfl⟩
  obtain ⟨y, hy⟩ : ∃ y : ℤ, (high : ℕ) * adj.toInt = y := ⟨_, rfl⟩
  have hx1 : -2 ^ 63 ≤ x ∧ x < 2 ^ 63 := by constructor <;> nlinarith
  have hy1 : -2 ^ 36 ≤ y ∧ y < 2 ^ 36 := by constructor <;> nlinarith
  have hsum : (srToSp sr.hz : ℤ) * (2 ^ 31 + adj.toInt) =
      2 ^ 31 * srToSp sr.hz + 2 ^ 32 * y + x := by
    rw [← hx, ← hy, hs]
    push_cast
    ring
  have hnonneg : 0 ≤ (srToSp sr.hz : ℤ) * (2 ^ 31 + adj.toInt) :=
    Int.mul_nonneg (Int.natCast_nonneg _) (by omega)
  have hsign : (0 ≤ adj.toInt → 0 ≤ x ∧ 0 ≤ y) ∧ (adj.toInt ≤ 0 → x ≤ 0) := by
    rw [← hx, ← hy]
    exact ⟨fun ha => ⟨Int.mul_nonneg (Int.natCast_nonneg _) ha,
      Int.mul_nonneg (Int.natCast_nonneg _) ha⟩,
      fun ha => Int.mul_nonpos_of_nonneg_of_nonpos (Int.natCast_nonneg _) ha⟩
  obtain ⟨rest, htdiv, hrest, hrest'⟩ := tdiv_qdiv x
  unfold adjustedSamplePeriod
  dsimp only
  rw [hlow, hhigh, hx, hy, int64_of_le hx1.1 hx1.2]
  dsimp only [bind_eq_bind, bind_some]
  generalize x.tdiv qdiv = t at htdiv ⊢
  rw [int64_of_le (by omega) (by omega), bind_some,
    int64_of_le (by omega) (by omega), bind_some,
    int64_of_le (by omega) (by omega), bind_some,
    int64_of_le (by omega) (by omega)]
  refine ⟨_, rest, rfl, ?_, by omega, fun ha => hrest (hsign.1 ha).1, fun ha => hrest' (hsign.2 ha)⟩
  by_cases ha : 0 ≤ adj.toInt
  · have := hsign.1 ha
    omega
  · omega

/-! ## The time -/

section Time

variable {n a sr s c r period : ℤ}

/-- The error that the samples multiply, in units that make it an integer: what the tabulated period
and the first division cut off. With a negative adjustment there may be as many samples as there
are numbers, and with another one the range bounds them. -/
theorem abs_error_lt (hsr : 0 < sr) (hsr' : sr ≤ 48000) (hc : 0 ≤ c ∧ c < sr)
    (hn : -2 ^ 31 ≤ n ∧ n ≤ 2 ^ 31) (ha : -2 ^ 31 ≤ a ∧ a < 2 ^ 31)
    (hrange : |n * (1000000 * (2 ^ 31 + a))| < (2 ^ 31 - 1) * (sr * 2 ^ 31))
    (hr : 0 ≤ a → 0 ≤ r ∧ r < 2 ^ 32) (hr' : a ≤ 0 → -2 ^ 32 < r ∧ r ≤ 0) :
    |n * (c * (2 ^ 31 + a) + sr * r)| < 2 ^ 63 * sr := by
  rw [abs_mul] at hrange ⊢
  have hn' : |n| ≤ 2 ^ 31 := abs_le.mpr hn
  have hn0 := abs_nonneg n
  have hfactor : 0 ≤ 1000000 * (2 ^ 31 + a) := by omega
  rw [abs_of_nonneg hfactor] at hrange
  by_cases hneg : a ≤ 0
  · have herror : |c * (2 ^ 31 + a) + sr * r| < 2 ^ 32 * sr := by
      obtain ⟨hlow, hhigh⟩ := hr' hneg
      have h1 : 0 ≤ c * (2 ^ 31 + a) := Int.mul_nonneg hc.1 (by omega)
      have h2 : c * (2 ^ 31 + a) ≤ c * 2 ^ 31 := Int.mul_le_mul_of_nonneg_left (by omega) hc.1
      have h3 : sr * r ≤ 0 := Int.mul_nonpos_of_nonneg_of_nonpos hsr.le hhigh
      have h4 : sr * (-2 ^ 32) < sr * r := Int.mul_lt_mul_of_pos_left hlow hsr
      rw [abs_lt]
      omega
    calc |n| * |c * (2 ^ 31 + a) + sr * r|
        ≤ 2 ^ 31 * |c * (2 ^ 31 + a) + sr * r| := Int.mul_le_mul_of_nonneg_right hn' (abs_nonneg _)
      _ < 2 ^ 63 * sr := by omega
  · have herror : |c * (2 ^ 31 + a) + sr * r| < 2 ^ 33 * sr := by
      obtain ⟨hlow, hhigh⟩ := hr (by omega)
      have h1 : 0 ≤ c * (2 ^ 31 + a) := Int.mul_nonneg hc.1 (by omega)
      have h2 : c * (2 ^ 31 + a) ≤ c * 2 ^ 32 := Int.mul_le_mul_of_nonneg_left (by omega) hc.1
      have h3 : 0 ≤ sr * r := Int.mul_nonneg hsr.le hlow
      have h4 : sr * r < sr * 2 ^ 32 := Int.mul_lt_mul_of_pos_left hhigh hsr
      rw [abs_lt]
      omega
    have hfew : |n| ≤ 2 ^ 30 := by
      have h1 : |n| * (1000000 * 2 ^ 31) ≤ |n| * (1000000 * (2 ^ 31 + a)) :=
        Int.mul_le_mul_of_nonneg_left (by omega) hn0
      omega
    calc |n| * |c * (2 ^ 31 + a) + sr * r|
        ≤ 2 ^ 30 * |c * (2 ^ 31 + a) + sr * r| := Int.mul_le_mul_of_nonneg_right hfew (abs_nonneg _)
      _ < 2 ^ 63 * sr := by omega

/-- The product fits into 64 bits, and what is left of it is the exact time up to two. -/
theorem product_near (hsr : 0 < sr) (hs : s * sr = 1000000 * 2 ^ 32 - c)
    (hrange : |n * (1000000 * (2 ^ 31 + a))| < (2 ^ 31 - 1) * (sr * 2 ^ 31))
    (hperiod : 2 ^ 31 * period = s * (2 ^ 31 + a) - r)
    (herror : |n * (c * (2 ^ 31 + a) + sr * r)| < 2 ^ 63 * sr) :
    (-2 ^ 63 < n * period ∧ n * period < 2 ^ 63) ∧
      |(n * period).tdiv qdiv * (sr * 2 ^ 31) - n * (1000000 * (2 ^ 31 + a))| <
        2 * (sr * 2 ^ 31) := by
  have hproduct : (sr * 2 ^ 31) * (n * period) =
      2 ^ 32 * (n * (1000000 * (2 ^ 31 + a))) - n * (c * (2 ^ 31 + a) + sr * r) := by
    calc (sr * 2 ^ 31) * (n * period) = n * (sr * (2 ^ 31 * period)) := by ring
      _ = n * ((s * sr) * (2 ^ 31 + a) - sr * r) := by rw [hperiod]; ring
      _ = 2 ^ 32 * (n * (1000000 * (2 ^ 31 + a))) - n * (c * (2 ^ 31 + a) + sr * r) := by
        rw [hs]; ring
  rw [abs_lt] at hrange herror ⊢
  generalize n * (1000000 * (2 ^ 31 + a)) = exact' at hproduct hrange ⊢
  generalize n * (c * (2 ^ 31 + a) + sr * r) = error at hproduct herror
  generalize n * period = product at hproduct ⊢
  have hbounds : -2 ^ 63 < product ∧ product < 2 ^ 63 := by
    constructor <;> by_contra hle
    all_goals
      have := Int.mul_le_mul_of_nonneg_left (Int.not_lt.mp hle) (by omega : 0 ≤ sr * 2 ^ 31)
      omega
  refine ⟨hbounds, ?_⟩
  obtain ⟨rest, htdiv, hpos, hneg⟩ := tdiv_qdiv product
  generalize product.tdiv qdiv = t at htdiv ⊢
  have hrest : -2 ^ 32 < rest ∧ rest < 2 ^ 32 := by
    rcases Int.le_total 0 product with h | h
    · have := hpos h
      omega
    · have := hneg h
      omega
  have hK : 0 < sr * 2 ^ 31 := by omega
  have hlow := Int.mul_lt_mul_of_pos_left hrest.1 hK
  have hhigh := Int.mul_lt_mul_of_pos_left hrest.2 hK
  have hsplit : (sr * 2 ^ 31) * product = 2 ^ 32 * (t * (sr * 2 ^ 31)) + (sr * 2 ^ 31) * rest := by
    rw [← htdiv]
    ring
  omega

end Time

theorem toInt_ofInt_of_lt {t : ℤ} (hlow : -2 ^ 31 ≤ t) (hhigh : t < 2 ^ 31) :
    (BitVec.ofInt 32 t).toInt = t := by
  rw [BitVec.toInt_ofInt]
  exact Int.bmod_eq_of_le (by omega) (by omega)

/-- The exact time as a quotient of integers. -/
theorem duration_eq (samples : BitVec 32) (sr : SampleRate) (adj : BitVec 32) :
    duration samples sr adj =
      (samples.toInt * (1000000 * (2 ^ 31 + adj.toInt)) : ℤ) / (sr.hz * 2 ^ 31 : ℤ) := by
  have hsr : (sr.hz : ℚ) ≠ 0 := by cases sr <;> norm_num [SampleRate.hz]
  unfold duration
  push_cast
  field_simp
  ring

theorem abs_div_lt_iff {x k b : ℤ} (hk : 0 < k) : |(x : ℚ) / k| < b ↔ |x| < b * k := by
  have hk' : (0 : ℚ) < k := Int.cast_pos.mpr hk
  rw [abs_div, abs_of_pos hk', div_lt_iff₀ hk']
  norm_cast

theorem abs_sub_div_lt_iff {t x k b : ℤ} (hk : 0 < k) :
    |(t : ℚ) - x / k| < b ↔ |t * k - x| < b * k := by
  have hk' : (k : ℚ) ≠ 0 := (Int.cast_pos.mpr hk).ne'
  have hsub : (t : ℚ) - x / k = ((t * k - x : ℤ) : ℚ) / k := by
    push_cast
    field_simp
  rw [hsub, abs_div_lt_iff hk]

/-- **The time of samples.** -/
theorem exists_time (samples : BitVec 32) (sr : SampleRate) (adj : BitVec 32)
    (h : InRange samples sr adj) :
    ∃ period t, adjustedSamplePeriod sr adj = some period ∧ 0 ≤ period ∧
      rtimeSamplesToTime samples sr adj = some t ∧
      t.toInt = (samples.toInt * period).tdiv qdiv ∧ |t.toInt - duration samples sr adj| < 2 := by
  obtain ⟨hmin, hmax⟩ := toInt_bounds adj
  obtain ⟨hmin', hmax'⟩ := toInt_bounds samples
  obtain ⟨period, rest, hperiod, hnonneg, hspec, hrest, hrest'⟩ := adjustedSamplePeriod_spec sr adj
  have htable := table_cases sr
  -- what the division of the table cuts off
  obtain ⟨c, hs, hc⟩ : ∃ c : ℤ, (srToSp sr.hz : ℤ) * sr.hz = 1000000 * 2 ^ 32 - c ∧
      0 ≤ c ∧ c < sr.hz := by
    refine ⟨1000000 * 2 ^ 32 - srToSp sr.hz * sr.hz, by ring, ?_⟩
    obtain ⟨hhz, hsp⟩ | ⟨hhz, hsp⟩ := htable <;> rw [hsp, hhz] <;> omega
  have hsr : (0 : ℤ) < sr.hz ∧ (sr.hz : ℤ) ≤ 48000 := by omega
  have hK : (0 : ℤ) < sr.hz * 2 ^ 31 := by omega
  have hrange : |samples.toInt * (1000000 * (2 ^ 31 + adj.toInt))| <
      (2 ^ 31 - 1) * (sr.hz * 2 ^ 31 : ℤ) := by
    have hbound : ((2 ^ 31 - 1 : ℤ) : ℚ) = 2 ^ 31 - 1 := by norm_num
    rw [← abs_div_lt_iff hK, ← duration_eq, hbound]
    exact h
  have herror := abs_error_lt hsr.1 hsr.2 hc ⟨hmin', hmax'.le⟩ ⟨hmin, hmax⟩ hrange hrest hrest'
  obtain ⟨⟨hlow, hhigh⟩, hnear⟩ := product_near hsr.1 hs hrange hspec herror
  obtain ⟨cut, htdiv, hpos, hneg⟩ := tdiv_qdiv (samples.toInt * period)
  have htoInt : (BitVec.ofInt 32 ((samples.toInt * period).tdiv qdiv)).toInt =
      (samples.toInt * period).tdiv qdiv := by
    apply toInt_ofInt_of_lt <;> omega
  refine ⟨period, _, hperiod, hnonneg, ?_, htoInt, ?_⟩
  · unfold rtimeSamplesToTime
    rw [hperiod]
    dsimp only [bind_eq_bind, bind_some]
    rw [int64_of_le hlow.le hhigh]
    rfl
  · rw [htoInt, duration_eq]
    have hlt := (abs_sub_div_lt_iff hK).mpr hnear
    rw [Int.cast_ofNat] at hlt
    exact hlt

/-- **Times.** Nothing overflows, the times of two numbers of samples at one rate and adjustment are
exact up to two microseconds, and the smaller number has no later one. -/
theorem samples_to_time {samples samples' : BitVec 32} {sr : SampleRate} {adj : BitVec 32}
    (hle : samples.toInt ≤ samples'.toInt) (h : InRange samples sr adj)
    (h' : InRange samples' sr adj) :
    ∃ t t', rtimeSamplesToTime samples sr adj = some t ∧
      rtimeSamplesToTime samples' sr adj = some t' ∧
      |t.toInt - duration samples sr adj| < 2 ∧ |t'.toInt - duration samples' sr adj| < 2 ∧
      t.toInt ≤ t'.toInt := by
  obtain ⟨period, t, hperiod, hnonneg, ht, htoInt, hnear⟩ := exists_time samples sr adj h
  obtain ⟨period', t', hperiod', -, ht', htoInt', hnear'⟩ := exists_time samples' sr adj h'
  obtain rfl : period = period' := Option.some.inj (hperiod.symm.trans hperiod')
  refine ⟨t, t', ht, ht', hnear, hnear', ?_⟩
  rw [htoInt, htoInt']
  exact Int.tdiv_le_tdiv (by decide) (Int.mul_le_mul_of_nonneg_right hle hnonneg)

/-- A second of samples, and one sample backwards, with the period a thousandth longer. -/
theorem samples_to_time_second :
    ∃ t t', rtimeSamplesToTime (BitVec.ofInt 32 (-1)) .rate48000 0x200000 = some t ∧
      rtimeSamplesToTime 48000 .rate48000 0x200000 = some t' ∧
      |t.toInt - duration (BitVec.ofInt 32 (-1)) .rate48000 0x200000| < 2 ∧
      |t'.toInt - duration 48000 .rate48000 0x200000| < 2 ∧ t.toInt ≤ t'.toInt := by
  have hone : (BitVec.ofInt 32 (-1)).toInt = -1 := by decide
  have hsecond : (48000 : BitVec 32).toInt = 48000 := by decide
  have hadj : (0x200000 : BitVec 32).toInt = 2097152 := by decide
  refine samples_to_time ?_ ?_ ?_
  · rw [hone, hsecond]
    decide
  · rw [InRange, duration, hone, hadj, SampleRate.hz]
    norm_num [abs_lt]
  · rw [InRange, duration, hsecond, hadj, SampleRate.hz]
    norm_num [abs_lt]

end Mh40.Rtime
