import Mathlib.Algebra.Order.Ring.Nat

/-!
# Words as bytes

A 16-bit word is its high and its low byte, a 32-bit word its high and its low half.

* `toNat_joinBytes`, `toNat_joinHalves`: the value of a word from its parts.
* `joinBytes_inj`, `joinHalves_inj`: the parts are those of one word only.
* `unpairs_pairs`, `bytesOf_words`: a list of even length is the list of its pairs, or of its words.
* `half`: the value of the word at an index, whatever is there; `half_bytesOf` for a list of words.
-/

namespace Mh40.Lib.Bytes

open List

def highByte (v : UInt16) : UInt8 := (v >>> 8).toUInt8

def lowByte (v : UInt16) : UInt8 := v.toUInt8

/-- The word with these bytes. -/
def joinBytes (high low : UInt8) : UInt16 := low.toUInt16 ||| high.toUInt16 <<< 8

def highHalf (v : UInt32) : UInt16 := (v >>> 16).toUInt16

def lowHalf (v : UInt32) : UInt16 := v.toUInt16

/-- The word with these halves. -/
def joinHalves (high low : UInt16) : UInt32 := high.toUInt32 <<< 16 ||| low.toUInt32

theorem toNat_highByte (v : UInt16) : (highByte v).toNat = v.toNat / 256 := by
  have hv : v.toNat < 65536 := v.toNat_lt
  have hshift : (v >>> 8).toNat = v.toNat / 256 := by
    rw [UInt16.toNat_shiftRight, Nat.shiftRight_eq_div_pow]
    rfl
  rw [highByte, UInt16.toNat_toUInt8, hshift]
  omega

theorem toNat_lowByte (v : UInt16) : (lowByte v).toNat = v.toNat % 256 :=
  UInt16.toNat_toUInt8 v

theorem or_shiftLeft {k n low high : ℕ} (hl : low < 2 ^ k) (hh : high * 2 ^ k < 2 ^ n) :
    low ||| high <<< k % 2 ^ n = 2 ^ k * high + low := by
  rw [Nat.mod_eq_of_lt (by rwa [Nat.shiftLeft_eq]), Nat.or_comm, ← Nat.shiftLeft_add_eq_or_of_lt hl,
    Nat.shiftLeft_eq, Nat.mul_comm]

theorem toNat_joinBytes (high low : UInt8) :
    (joinBytes high low).toNat = 256 * high.toNat + low.toNat := by
  have hh : high.toNat < 256 := high.toNat_lt
  rw [joinBytes, UInt16.toNat_or, UInt16.toNat_shiftLeft, UInt8.toNat_toUInt16,
    UInt8.toNat_toUInt16]
  exact or_shiftLeft low.toNat_lt (by omega : high.toNat * 2 ^ 8 < 2 ^ 16)

theorem joinBytes_highByte_lowByte (v : UInt16) : joinBytes (highByte v) (lowByte v) = v := by
  refine UInt16.toNat_inj.mp ?_
  rw [toNat_joinBytes, toNat_highByte, toNat_lowByte]
  omega

theorem joinBytes_inj {h l h' l' : UInt8} :
    joinBytes h l = joinBytes h' l' ↔ h = h' ∧ l = l' := by
  constructor
  · intro he
    have hnat := congrArg UInt16.toNat he
    rw [toNat_joinBytes, toNat_joinBytes] at hnat
    have hl : l.toNat < 256 := l.toNat_lt
    have hl' : l'.toNat < 256 := l'.toNat_lt
    exact ⟨UInt8.toNat_inj.mp (by omega), UInt8.toNat_inj.mp (by omega)⟩
  · rintro ⟨rfl, rfl⟩
    rfl

theorem toNat_highHalf (v : UInt32) : (highHalf v).toNat = v.toNat / 65536 := by
  have hv : v.toNat < 4294967296 := v.toNat_lt
  have hshift : (v >>> 16).toNat = v.toNat / 65536 := by
    rw [UInt32.toNat_shiftRight, Nat.shiftRight_eq_div_pow]
    rfl
  rw [highHalf, UInt32.toNat_toUInt16, hshift]
  omega

theorem toNat_lowHalf (v : UInt32) : (lowHalf v).toNat = v.toNat % 65536 :=
  UInt32.toNat_toUInt16 v

theorem toNat_joinHalves (high low : UInt16) :
    (joinHalves high low).toNat = 65536 * high.toNat + low.toNat := by
  have hh : high.toNat < 65536 := high.toNat_lt
  rw [joinHalves, UInt32.toNat_or, UInt32.toNat_shiftLeft, UInt16.toNat_toUInt32,
    UInt16.toNat_toUInt32, Nat.or_comm]
  exact or_shiftLeft low.toNat_lt (by omega : high.toNat * 2 ^ 16 < 2 ^ 32)

theorem joinHalves_highHalf_lowHalf (v : UInt32) : joinHalves (highHalf v) (lowHalf v) = v := by
  refine UInt32.toNat_inj.mp ?_
  rw [toNat_joinHalves, toNat_highHalf, toNat_lowHalf]
  omega

theorem joinHalves_inj {h l h' l' : UInt16} :
    joinHalves h l = joinHalves h' l' ↔ h = h' ∧ l = l' := by
  constructor
  · intro he
    have hnat := congrArg UInt32.toNat he
    rw [toNat_joinHalves, toNat_joinHalves] at hnat
    have hl : l.toNat < 65536 := l.toNat_lt
    have hl' : l'.toNat < 65536 := l'.toNat_lt
    exact ⟨UInt16.toNat_inj.mp (by omega), UInt16.toNat_inj.mp (by omega)⟩
  · rintro ⟨rfl, rfl⟩
    rfl

/-! ## Pairs -/

universe u

variable {α : Type u}

/-- The elements of a list, two by two. -/
def pairs : List α → List (α × α)
  | a :: b :: l => (a, b) :: pairs l
  | _ => []

/-- The elements of some pairs. -/
def unpairs (ps : List (α × α)) : List α := ps.flatMap fun p => [p.1, p.2]

theorem unpairs_pairs : ∀ {l : List α}, l.length % 2 = 0 → unpairs (pairs l) = l
  | [], _ => rfl
  | [_], h => by cases h
  | a :: b :: l, h => by
    have hl : l.length % 2 = 0 := by
      simp only [length_cons] at h
      omega
    rw [pairs, unpairs, flatMap_cons, ← unpairs, unpairs_pairs hl]
    rfl

theorem length_unpairs (ps : List (α × α)) : (unpairs ps).length = 2 * ps.length := by
  induction ps with
  | nil => rfl
  | cons p ps ih =>
    rw [unpairs, flatMap_cons, ← unpairs, length_append, ih, length_cons]
    simp only [length_cons, length_nil]
    omega

theorem length_pairs {l : List α} (h : l.length % 2 = 0) : (pairs l).length = l.length / 2 := by
  have := length_unpairs (pairs l)
  rw [unpairs_pairs h] at this
  omega

theorem getElem?_unpairs (ps : List (α × α)) (j : ℕ) :
    (unpairs ps)[2 * j]? = ps[j]?.map Prod.fst ∧
      (unpairs ps)[2 * j + 1]? = ps[j]?.map Prod.snd := by
  induction ps generalizing j with
  | nil => exact ⟨rfl, rfl⟩
  | cons p ps ih =>
    rw [unpairs, flatMap_cons, ← unpairs]
    cases j with
    | zero => exact ⟨rfl, rfl⟩
    | succ j => exact ih j

/-! ## Sequences of words -/

/-- The bytes of some words, each with its high byte first. -/
def bytesOf (ws : List UInt16) : List UInt8 := unpairs (ws.map fun w => (highByte w, lowByte w))

/-- The words that some bytes are. -/
def words (data : List UInt8) : List UInt16 := (pairs data).map fun p => joinBytes p.1 p.2

theorem length_bytesOf (ws : List UInt16) : (bytesOf ws).length = 2 * ws.length := by
  rw [bytesOf, length_unpairs, length_map]

theorem length_words {data : List UInt8} (h : data.length % 2 = 0) :
    (words data).length = data.length / 2 := by
  rw [words, length_map, length_pairs h]

theorem bytesOf_words {data : List UInt8} (h : data.length % 2 = 0) :
    bytesOf (words data) = data := by
  have hmap : ((words data).map fun w => (highByte w, lowByte w)) = pairs data := by
    rw [words, List.map_map]
    refine map_id'' (fun p => ?_) _
    have := joinBytes_inj.mp (joinBytes_highByte_lowByte (joinBytes p.1 p.2))
    exact Prod.ext this.1 this.2
  rw [bytesOf, hmap, unpairs_pairs h]

/-- The value of the word at an index. -/
def half (data : List UInt8) (i : ℕ) : ℕ :=
  256 * (data.getD i 0).toNat + (data.getD (i + 1) 0).toNat

theorem half_append_left {data more : List UInt8} {i : ℕ} (h : i + 1 < data.length) :
    half (data ++ more) i = half data i := by
  simp only [half, getD_eq_getElem?_getD]
  rw [getElem?_append_left (by omega), getElem?_append_left h]

theorem half_append_right {data more : List UInt8} {i : ℕ} :
    half (data ++ more) (data.length + i) = half more i := by
  simp only [half, getD_eq_getElem?_getD]
  rw [getElem?_append_right (by omega), getElem?_append_right (by omega),
    Nat.add_sub_cancel_left, Nat.add_assoc, Nat.add_sub_cancel_left]

theorem half_bytesOf {ws : List UInt16} {j : ℕ} {w : UInt16} (h : ws[j]? = some w) :
    half (bytesOf ws) (2 * j) = w.toNat := by
  obtain ⟨h1, h2⟩ := getElem?_unpairs (ws.map fun w => (highByte w, lowByte w)) j
  rw [getElem?_map, h] at h1 h2
  rw [half, bytesOf, getD_eq_getElem?_getD, getD_eq_getElem?_getD, h1, h2]
  show 256 * (highByte w).toNat + (lowByte w).toNat = w.toNat
  rw [toNat_highByte, toNat_lowByte]
  omega

/-- The words between some other bytes. -/
theorem half_between {front more : List UInt8} {ws : List UInt16} {j : ℕ} {w : UInt16}
    (h : ws[j]? = some w) :
    half (front ++ (bytesOf ws ++ more)) (front.length + 2 * j) = w.toNat := by
  obtain ⟨hj, -⟩ := List.getElem?_eq_some_iff.mp h
  rw [half_append_right, half_append_left, half_bytesOf h]
  rw [length_bytesOf]
  omega

/-- Bytes with words in the middle of them. -/
theorem exists_between (data : List UInt8) (a k : ℕ) (h : a + 2 * k ≤ data.length) :
    ∃ front ws more, data = front ++ (bytesOf ws ++ more) ∧ front.length = a ∧ ws.length = k ∧
      more.length = data.length - (a + 2 * k) := by
  have hmid : ((data.drop a).take (2 * k)).length = 2 * k := by
    rw [length_take, length_drop]
    omega
  refine ⟨data.take a, words ((data.drop a).take (2 * k)), (data.drop a).drop (2 * k), ?_, ?_, ?_,
    ?_⟩
  · rw [bytesOf_words (by omega), take_append_drop, take_append_drop]
  · rw [length_take]
    omega
  · rw [length_words (by omega)]
    omega
  · rw [length_drop, length_drop]
    omega

end Mh40.Lib.Bytes
