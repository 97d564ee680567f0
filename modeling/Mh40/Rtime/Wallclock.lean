import Mathlib.Algebra.Order.Group.Abs
import Mathlib.Algebra.Order.Group.Int
import Mathlib.Data.Int.ModEq

/-!
# Wall-clock time

`libs/rtime/wallclock.c`: the conversion of local time to the wall-clock that devices share, and of
the low bits of a wall-clock time back to local time. Times are 32-bit microseconds that wrap.

* `rtimeWallClockExtend_spec`: the extension of the low bits of a wall-clock time is the time with
  these bits that is nearest to the current one.
* `wallclock_round_trip`: a time that one device sends in 24 bits is, on another device, the local
  time of the same instant.
-/

namespace Mh40.Rtime

/-- `rtime_t`. -/
abbrev RtimeT := BitVec 32

/-- `rtime_add`. -/
def rtimeAdd (t₁ t₂ : RtimeT) : RtimeT := t₁ + t₂

/-- `rtime_sub`, an `int32`. -/
def rtimeSub (t₁ t₂ : RtimeT) : BitVec 32 := t₁ - t₂

/-- `rtime_to_rtime24`. -/
def rtimeToRtime24 (t : RtimeT) : RtimeT := t &&& 0xFFFFFF

/-- `wallclock_state_t`: whether there is a sink, and the offset of the wall-clock. -/
structure WallclockState where
  sink : Bool
  offset : BitVec 32

/-- `RtimeLocalToWallClock`. -/
def rtimeLocalToWallClock (state : WallclockState) (loc : RtimeT) : Option RtimeT :=
  if state.sink then some (rtimeAdd loc state.offset) else none

/-- `RtimeLocalToWallClock24`. -/
def rtimeLocalToWallClock24 (state : WallclockState) (loc : RtimeT) : Option RtimeT := do
  let wallclock32 ← rtimeLocalToWallClock state loc
  some (rtimeToRtime24 wallclock32)

/-- `RtimeWallClockToLocal`. -/
def rtimeWallClockToLocal (state : WallclockState) (wallclock : RtimeT) : Option RtimeT :=
  if state.sink then some (rtimeSub wallclock state.offset) else none

/-- `RtimeWallClockExtend`. -/
def rtimeWallClockExtend (state : WallclockState) (wallclock : RtimeT) (wallclockBits : ℕ)
    (wallclockCurrent : RtimeT) : Option RtimeT :=
  if state.sink then
    let shift := 32 - wallclockBits
    let mask := ~~~0#32 >>> shift
    let diff := rtimeSub wallclock (wallclockCurrent &&& mask)
    let diff := diff * (1#32 <<< shift)
    let diff := diff.sdiv (1#32 <<< shift)
    some (rtimeAdd wallclockCurrent diff)
  else none

/-- `RtimeWallClock24ToLocal`, with the time of the system clock. -/
def rtimeWallClock24ToLocal (state : WallclockState) (timerTime wallclock24 : RtimeT) :
    Option RtimeT := do
  let wallclockCurrent ← rtimeLocalToWallClock state timerTime
  let wallclock32 ← rtimeWallClockExtend state wallclock24 24 wallclockCurrent
  rtimeWallClockToLocal state wallclock32

/-! ## Sign extension -/

section SignExtension

variable {shift bits : ℕ}

theorem toInt_one_shiftLeft (hs : shift ≤ 30) : (1#32 <<< shift).toInt = 2 ^ shift := by
  have hlt : 2 ^ shift ≤ 2 ^ 30 := Nat.pow_le_pow_right (by decide) hs
  have hnat : (1#32 <<< shift).toNat = 2 ^ shift := by
    rw [BitVec.toNat_shiftLeft, BitVec.toNat_one (by decide), Nat.one_shiftLeft]
    exact Nat.mod_eq_of_lt (by omega)
  rw [BitVec.toInt_eq_toNat_of_lt (by rw [hnat]; omega), hnat]
  exact Int.natCast_pow 2 shift

theorem toNat_and_mask (x : BitVec 32) (h : shift + bits = 32) :
    (x &&& (~~~0#32 >>> shift)).toNat = x.toNat % 2 ^ bits := by
  have hmask : (~~~0#32 >>> shift).toNat = 2 ^ bits - 1 := by
    have hpow : (2 : ℕ) ^ 32 = 2 ^ shift * 2 ^ bits := by rw [← Nat.pow_add, h]
    have hzero : (~~~0#32).toNat = 2 ^ 32 - 1 := rfl
    rw [BitVec.toNat_ushiftRight, hzero, Nat.shiftRight_eq_div_pow, hpow]
    have h1 := Nat.two_pow_pos shift
    have h₂ := Nat.two_pow_pos bits
    have hprod := Nat.mul_pos h1 h₂
    refine Nat.div_eq_of_lt_le ?_ ?_
    · rw [Nat.sub_mul, Nat.one_mul, Nat.mul_comm]
      exact Nat.sub_le_sub_left h1 _
    · rw [Nat.sub_add_cancel h₂, Nat.mul_comm (2 ^ bits)]
      exact Nat.sub_lt hprod Nat.one_pos
  rw [BitVec.toNat_and, hmask, Nat.and_two_pow_sub_one_eq_mod]

/-- The multiplication and the division keep the low bits, as a signed number. -/
theorem toInt_signExtend (x : BitVec 32) (hs : shift ≤ 30) (h : shift + bits = 32) :
    ((x * (1#32 <<< shift)).sdiv (1#32 <<< shift)).toInt = x.toInt.bmod (2 ^ bits) := by
  have hpos : (0 : ℤ) < 2 ^ shift := Int.pow_pos (by decide)
  have hpow : (2 : ℕ) ^ 32 = 2 ^ shift * 2 ^ bits := by rw [← Nat.pow_add, h]
  have hmul : (x * (1#32 <<< shift)).toInt = 2 ^ shift * x.toInt.bmod (2 ^ bits) := by
    rw [BitVec.toInt_mul, toInt_one_shiftLeft hs, hpow, Int.mul_comm]
    have hbits : 2 ∣ 2 ^ bits := dvd_pow_self 2 (by omega)
    have := Int.mod_bmod_mul_of_pos x.toInt (2 ^ bits) (Nat.two_pow_pos shift) hbits
    rw [Int.natCast_pow] at this
    exact this
  have hne : (1#32 <<< shift) ≠ -1#32 := fun he => by
    have := toInt_one_shiftLeft hs
    rw [he] at this
    have hneg : (-1#32 : BitVec 32).toInt = -1 := by decide
    omega
  rw [BitVec.toInt_sdiv_of_ne_or_ne _ _ (.inr hne), hmul, toInt_one_shiftLeft hs,
    Int.mul_tdiv_cancel_left _ hpos.ne']

/-! ## Congruence -/

theorem bmod_modEq (x : ℤ) (h : bits ≤ 32) : x.bmod (2 ^ 32) ≡ x [ZMOD 2 ^ bits] := by
  have hdvd : (2 : ℤ) ^ bits ∣ ((2 ^ 32 : ℕ) : ℤ) := by
    rw [Int.natCast_pow]
    exact pow_dvd_pow 2 h
  exact Int.ModEq.of_dvd hdvd (Int.bmod_emod ..)

theorem bmod_congr {x y : ℤ} {n : ℕ} (h : x ≡ y [ZMOD n]) : x.bmod n = y.bmod n := by
  have h : x % n = y % n := h
  rw [← Int.emod_bmod x, h, Int.emod_bmod]

theorem toNat_modEq (x : BitVec 32) (h : bits ≤ 32) : (x.toNat : ℤ) ≡ x.toInt [ZMOD 2 ^ bits] := by
  rw [BitVec.toInt_eq_toNat_bmod]
  exact (bmod_modEq _ h).symm

theorem toInt_sub_modEq (x y : BitVec 32) (h : bits ≤ 32) :
    (x - y).toInt ≡ x.toInt - y.toInt [ZMOD 2 ^ bits] := by
  rw [BitVec.toInt_sub]
  exact bmod_modEq _ h

end SignExtension

/-! ## Extension -/

section Extend

variable {state : WallclockState} {bits : ℕ}

/-- The masked time has the low bits of the time. -/
theorem toInt_mask_modEq (current : RtimeT) (h : bits ≤ 32) :
    (current &&& (~~~0#32 >>> (32 - bits))).toInt ≡ current.toInt [ZMOD 2 ^ bits] := by
  have hmask : ((current &&& (~~~0#32 >>> (32 - bits))).toNat : ℤ) ≡ current.toNat
      [ZMOD 2 ^ bits] := by
    rw [toNat_and_mask current (Nat.sub_add_cancel h)]
    push_cast
    exact Int.mod_modEq ..
  exact (toNat_modEq _ h).symm.trans (hmask.trans (toNat_modEq _ h))

/-- **Extension.** The extended time differs from the current one by the low bits of their
difference, as a signed number. -/
theorem rtimeWallClockExtend_spec (hs : state.sink = true) (h2 : 2 ≤ bits) (h32 : bits ≤ 32)
    (wallclock current : RtimeT) :
    ∃ extended, rtimeWallClockExtend state wallclock bits current = some extended ∧
      (rtimeSub extended current).toInt = (wallclock.toInt - current.toInt).bmod (2 ^ bits) := by
  have hdiff := toInt_signExtend (rtimeSub wallclock (current &&& (~~~0#32 >>> (32 - bits))))
    (by omega) (Nat.sub_add_cancel h32)
  refine ⟨_, if_pos hs, ?_⟩
  unfold rtimeAdd
  unfold rtimeSub at *
  rw [BitVec.add_comm, BitVec.add_sub_cancel, hdiff]
  have hsub := (toInt_sub_modEq wallclock _ h32).trans
    ((Int.ModEq.refl wallclock.toInt).sub (toInt_mask_modEq current h32))
  have hpow : (2 : ℤ) ^ bits = ((2 ^ bits : ℕ) : ℤ) := (Int.natCast_pow 2 bits).symm
  rw [hpow] at hsub
  exact bmod_congr hsub

/-- A time with given low bits, not further than half their range from the current one. -/
theorem extend_congr {extended wallclock current : RtimeT} (h32 : bits ≤ 32)
    (h : (rtimeSub extended current).toInt = (wallclock.toInt - current.toInt).bmod (2 ^ bits)) :
    extended.toNat % 2 ^ bits = wallclock.toNat % 2 ^ bits := by
  have hmod : (rtimeSub extended current).toInt ≡ wallclock.toInt - current.toInt
      [ZMOD 2 ^ bits] := by
    rw [h]
    have hemod : (wallclock.toInt - current.toInt).bmod (2 ^ bits) % ((2 ^ bits : ℕ) : ℤ) =
        (wallclock.toInt - current.toInt) % ((2 ^ bits : ℕ) : ℤ) := Int.bmod_emod
    rw [Int.natCast_pow] at hemod
    exact hemod
  have hext := (toInt_sub_modEq extended current h32).symm.trans hmod
  have hadd := hext.add_right current.toInt
  rw [sub_add_cancel, sub_add_cancel] at hadd
  have hall := ((toNat_modEq _ h32).trans hadd).trans (toNat_modEq _ h32).symm
  exact Int.natCast_modEq_iff.mp (by rw [Int.natCast_pow]; exact hall)

end Extend

/-! ## The round trip -/

/-- The low 24 bits of a time less than 2²³ from the current one are extended to the time. -/
theorem extend_rtime24 {state : WallclockState} (hs : state.sink = true) {instant current : RtimeT}
    (hnear : |(rtimeSub instant current).toInt| < 2 ^ 23) :
    rtimeWallClockExtend state (rtimeToRtime24 instant) 24 current = some instant := by
  obtain ⟨extended, hext, hdiff⟩ := rtimeWallClockExtend_spec hs
    (show 2 ≤ 24 by decide) (by decide) (rtimeToRtime24 instant) current
  rw [hext]
  have hmask : (rtimeToRtime24 instant).toInt ≡ instant.toInt [ZMOD 2 ^ 24] :=
    toInt_mask_modEq instant (show 24 ≤ 32 by decide)
  have hsame : (rtimeSub extended current).toInt = (rtimeSub instant current).toInt := by
    have hsub := hmask.sub (Int.ModEq.refl current.toInt)
    have hinstant := (toInt_sub_modEq instant current (show 24 ≤ 32 by decide)).symm
    rw [hdiff, bmod_congr (n := 2 ^ 24) (hsub.trans hinstant)]
    unfold rtimeSub at hnear ⊢
    have hlt := abs_lt.mp hnear
    exact Int.bmod_eq_of_le (by omega) (by omega)
  have heq := BitVec.eq_of_toInt_eq hsame
  unfold rtimeSub at heq
  rw [← BitVec.sub_add_cancel extended current, heq, BitVec.sub_add_cancel]

/-- **Wall-clock time.** What one device sends of an instant in 24 bits is the local time of the
instant on another one, when the instant is less than 2²³ microseconds from the receiver's time; and
an extension to any width has the low bits that it is given and is at most half their range away
from the current time. -/
theorem wallclock_round_trip {sender receiver : WallclockState} (hs : sender.sink = true)
    (hr : receiver.sink = true) :
    (∀ instant timerTime : RtimeT,
      |(rtimeSub instant (rtimeAdd timerTime receiver.offset)).toInt| < 2 ^ 23 →
      (rtimeLocalToWallClock24 sender (rtimeSub instant sender.offset)).bind
        (rtimeWallClock24ToLocal receiver timerTime) = some (rtimeSub instant receiver.offset)) ∧
    ∀ (wallclock current : RtimeT) (bits : ℕ), 2 ≤ bits → bits ≤ 32 →
      ∃ extended, rtimeWallClockExtend receiver wallclock bits current = some extended ∧
        extended.toNat % 2 ^ bits = wallclock.toNat % 2 ^ bits ∧
        |(rtimeSub extended current).toInt| ≤ 2 ^ (bits - 1) := by
  constructor
  · intro instant timerTime hnear
    have hsend : rtimeLocalToWallClock24 sender (rtimeSub instant sender.offset) =
        some (rtimeToRtime24 instant) := by
      unfold rtimeLocalToWallClock24 rtimeLocalToWallClock rtimeAdd rtimeSub
      rw [if_pos hs, BitVec.sub_add_cancel]
      rfl
    have hreceive : rtimeWallClock24ToLocal receiver timerTime (rtimeToRtime24 instant) =
        some (rtimeSub instant receiver.offset) := by
      unfold rtimeWallClock24ToLocal rtimeLocalToWallClock
      rw [if_pos hr]
      dsimp only [bind]
      rw [Option.bind_some, extend_rtime24 hr hnear, Option.bind_some]
      exact if_pos hr
    rw [hsend, Option.bind_some, hreceive]
  · intro wallclock current bits h2 h32
    obtain ⟨extended, hext, hdiff⟩ := rtimeWallClockExtend_spec hr h2 h32 wallclock current
    refine ⟨extended, hext, extend_congr h32 hdiff, ?_⟩
    have hpow : (2 : ℕ) ^ bits = 2 * 2 ^ (bits - 1) := by
      rw [← Nat.pow_succ']
      congr 1
      omega
    have hpos := Nat.two_pow_pos bits
    have hle := Int.le_bmod (x := wallclock.toInt - current.toInt) hpos
    have hlt := Int.bmod_lt (x := wallclock.toInt - current.toInt) hpos
    have hcast : (2 : ℤ) ^ (bits - 1) = ((2 ^ (bits - 1) : ℕ) : ℤ) := (Int.natCast_pow ..).symm
    rw [hdiff, abs_le, hcast]
    rw [hpow] at hle hlt ⊢
    constructor
    · omega
    · omega

/-- An instant that the two clocks number on both sides of the wrap. -/
theorem wallclock_round_trip_wrap :
    (rtimeLocalToWallClock24 ⟨true, 7⟩ (rtimeSub 3 7)).bind
      (rtimeWallClock24ToLocal ⟨true, 0xFFFFFFF0⟩ 5) = some (rtimeSub 3 0xFFFFFFF0) :=
  (@wallclock_round_trip ⟨true, 7⟩ ⟨true, 0xFFFFFFF0⟩ rfl rfl).1 3 5 (by decide)

end Mh40.Rtime
