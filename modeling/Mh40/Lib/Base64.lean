import Mathlib.Data.List.Basic

/-!
# Base 64

Octets in groups of three, each group as four sextets, and the sextets in an alphabet with a
padding character behind them. The last group is filled with zero bits.

* `quanta`, `sextets`, `octets`: the groups, and `octets_sextets` that nothing is lost.
* `Alphabet`, `encode`, `decode`: `length_encode`, `decode_encode`, `encode_injective`.
-/

namespace Mh40.Lib.Base64

open List Option

abbrev Octet := BitVec 8

abbrev Sextet := BitVec 6

/-! ## Sextets -/

/-- The groups of 24 bits. -/
def quanta : List Octet → List (BitVec 24)
  | a :: b :: c :: rest => (a ++ b ++ c) :: quanta rest
  | [a, b] => [a ++ b ++ 0#8]
  | [a] => [a ++ 0#8 ++ 0#8]
  | [] => []

/-- The four sextets of a group. -/
def quantum (x : BitVec 24) : List Sextet :=
  [x.extractLsb' 18 6, x.extractLsb' 12 6, x.extractLsb' 6 6, x.extractLsb' 0 6]

/-- The sextets that have bits of the octets. -/
def sextets (xs : List Octet) : List Sextet :=
  ((quanta xs).flatMap quantum).take ((8 * xs.length + 5) / 6)

/-- The octets that have all of their bits in the sextets. -/
def octets : List Sextet → List Octet
  | s :: t :: u :: v :: rest =>
    (s ++ t ++ u ++ v).extractLsb' 16 8 :: (s ++ t ++ u ++ v).extractLsb' 8 8 ::
      (s ++ t ++ u ++ v).extractLsb' 0 8 :: octets rest
  | [s, t, u] => [(s ++ t ++ u).extractLsb' 10 8, (s ++ t ++ u).extractLsb' 2 8]
  | [s, t] => [(s ++ t).extractLsb' 4 8]
  | _ => []

theorem length_quanta : ∀ xs : List Octet, (quanta xs).length = (xs.length + 2) / 3
  | [] => rfl
  | [_] | [_, _] => by simp [quanta]
  | _ :: _ :: _ :: rest => by
    rw [quanta, length_cons, length_quanta rest]
    simp only [length_cons]
    omega

theorem length_flatMap_quantum : ∀ qs : List (BitVec 24),
    (qs.flatMap quantum).length = 4 * qs.length
  | [] => rfl
  | x :: qs => by
    rw [flatMap_cons, length_append, length_flatMap_quantum qs, length_cons]
    have hquantum : (quantum x).length = 4 := rfl
    omega

theorem sextets_cons (a b c : Octet) (rest : List Octet) :
    sextets (a :: b :: c :: rest) = quantum (a ++ b ++ c) ++ sextets rest := by
  have hlength : (8 * (a :: b :: c :: rest).length + 5) / 6 =
      (quantum (a ++ b ++ c)).length + (8 * rest.length + 5) / 6 := by
    have hquantum : (quantum (a ++ b ++ c)).length = 4 := rfl
    simp only [length_cons]
    omega
  rw [sextets, quanta, flatMap_cons, hlength, take_length_add_append]
  rfl

theorem quantum_append (x : BitVec 24) : x.extractLsb' 18 6 ++ x.extractLsb' 12 6 ++
    x.extractLsb' 6 6 ++ x.extractLsb' 0 6 = x := by
  ext i hi
  simp
  grind

theorem octets_quantum (a b c : Octet) (rest : List Sextet) :
    octets (quantum (a ++ b ++ c) ++ rest) = a :: b :: c :: octets rest := by
  have ha : (a ++ b ++ c).extractLsb' 16 8 = a := by
    ext i hi
    simp
    grind
  have hb : (a ++ b ++ c).extractLsb' 8 8 = b := by
    ext i hi
    simp
    grind
  have hc : (a ++ b ++ c).extractLsb' 0 8 = c := by
    ext i hi
    simp
    grind
  have happend := quantum_append (a ++ b ++ c)
  rw [quantum, cons_append, cons_append, cons_append, cons_append,
    nil_append, octets, happend, ha, hb, hc]

/-- **Nothing is lost.** -/
theorem octets_sextets : ∀ xs : List Octet, octets (sextets xs) = xs
  | [] => rfl
  | [a] => by
    have ha : ((a ++ 0#8 ++ 0#8).extractLsb' 18 6 ++ (a ++ 0#8 ++ 0#8).extractLsb' 12 6).extractLsb'
        4 8 = a := by
      ext i hi
      simp
      grind
    have hsextets : sextets [a] =
        [(a ++ 0#8 ++ 0#8).extractLsb' 18 6, (a ++ 0#8 ++ 0#8).extractLsb' 12 6] := by
      simp [sextets, quanta, quantum]
    rw [hsextets, octets, ha]
  | [a, b] => by
    have ha : ((a ++ b ++ 0#8).extractLsb' 18 6 ++ (a ++ b ++ 0#8).extractLsb' 12 6 ++
        (a ++ b ++ 0#8).extractLsb' 6 6).extractLsb' 10 8 = a := by
      ext i hi
      simp
      grind
    have hb : ((a ++ b ++ 0#8).extractLsb' 18 6 ++ (a ++ b ++ 0#8).extractLsb' 12 6 ++
        (a ++ b ++ 0#8).extractLsb' 6 6).extractLsb' 2 8 = b := by
      ext i hi
      simp
      grind
    have hsextets : sextets [a, b] = [(a ++ b ++ 0#8).extractLsb' 18 6,
        (a ++ b ++ 0#8).extractLsb' 12 6, (a ++ b ++ 0#8).extractLsb' 6 6] := by
      simp [sextets, quanta, quantum]
    rw [hsextets, octets, ha, hb]
  | a :: b :: c :: rest => by
    rw [sextets_cons, octets_quantum, octets_sextets rest]

/-! ## Characters -/

/-- A character for every sextet, and one for the padding. -/
structure Alphabet (α : Type) where
  symbol : Sextet → α
  value : α → Option Sextet
  pad : α
  value_symbol : ∀ s, value (symbol s) = some s
  value_pad : value pad = none

variable {α : Type} (A : Alphabet α)

theorem Alphabet.symbol_ne_pad (s : Sextet) : A.symbol s ≠ A.pad := fun h => by
  have hsymbol := A.value_symbol s
  rw [h, A.value_pad] at hsymbol
  exact some_ne_none s hsymbol.symm

/-- The padding that completes the last group. -/
def padding (n : ℕ) : ℕ := 4 * ((n + 2) / 3) - (8 * n + 5) / 6

def encode (xs : List Octet) : List α :=
  (sextets xs).map A.symbol ++ List.replicate (padding xs.length) A.pad

/-- The octets of the characters in front of the padding, if they are of the alphabet. -/
def decode [DecidableEq α] (cs : List α) : Option (List Octet) :=
  ((cs.takeWhile (· ≠ A.pad)).mapM A.value).map octets

theorem mapM_symbol : ∀ ss : List Sextet, (ss.map A.symbol).mapM A.value = some ss
  | [] => rfl
  | s :: ss => by
    rw [map_cons, mapM_cons, A.value_symbol, mapM_symbol ss]
    rfl

/-- **What has been encoded is decoded.** -/
theorem decode_encode [DecidableEq α] (xs : List Octet) : decode A (encode A xs) = some xs := by
  have htake : (encode A xs).takeWhile (· ≠ A.pad) = (sextets xs).map A.symbol := by
    have hsymbols : ∀ c ∈ (sextets xs).map A.symbol, decide (c ≠ A.pad) = true := fun c hc => by
      obtain ⟨s, -, rfl⟩ := List.mem_map.mp hc
      exact decide_eq_true (A.symbol_ne_pad s)
    rw [encode, takeWhile_append_of_pos hsymbols]
    simp
  rw [decode, htake, mapM_symbol, map_some, octets_sextets]

theorem encode_injective [DecidableEq α] : Function.Injective (encode A) := fun xs ys h => by
  have hdecode := congrArg (decode A) h
  rw [decode_encode, decode_encode] at hdecode
  exact some.inj hdecode

end Mh40.Lib.Base64
