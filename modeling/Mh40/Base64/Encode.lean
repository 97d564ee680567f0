import Mathlib.Algebra.Order.Ring.Nat
import Mh40.Lib.Base64

/-!
# Base 64 encoding

Model of `base64.c`, with its 32-bit lengths. The pointers are not `NULL`.

* `base64Encode`: the memory of the output afterwards, or `none` for a panic or an access outside
  of the input, the output or the table.
* `standard`: the standard alphabet.
* **`encode_right_iff`**: the output is the encoding of the input exactly when the number of its
  bits fits 32 bits.
-/

namespace Mh40.Base64

open Lib.Base64 List Option

/-! ## Model -/

/-- `base_64_lookup_table`. -/
def base64LookupTable : List Char :=
  ['A', 'B', 'C', 'D', 'E', 'F', 'G', 'H',
    'I', 'J', 'K', 'L', 'M', 'N', 'O', 'P',
    'Q', 'R', 'S', 'T', 'U', 'V', 'W', 'X',
    'Y', 'Z', 'a', 'b', 'c', 'd', 'e', 'f',
    'g', 'h', 'i', 'j', 'k', 'l', 'm', 'n',
    'o', 'p', 'q', 'r', 's', 't', 'u', 'v',
    'w', 'x', 'y', 'z', '0', '1', '2', '3',
    '4', '5', '6', '7', '8', '9', '+', '/']

/-- `base64_RoundUpToNearestMultipleOf`. -/
def roundUpToNearestMultipleOf (numberToRoundUp : UInt32) (roundToMultipleOf : UInt8) :
    Option UInt32 :=
  if roundToMultipleOf ≠ 0 then
    let remainder := numberToRoundUp % roundToMultipleOf.toUInt32
    some (if remainder = 0 then numberToRoundUp
      else numberToRoundUp + roundToMultipleOf.toUInt32 - remainder)
  else none

/-- `Base64_GetEncodedOutputLength`. -/
def getEncodedOutputLength (numberOfOctetsInInput : UInt32) : Option UInt32 :=
  (roundUpToNearestMultipleOf (numberOfOctetsInInput * 8) 6).bind fun nearestNumberOfBits =>
    roundUpToNearestMultipleOf (nearestNumberOfBits / 6) 4

/-- `base64_GetNumberOfPaddingCharacters`. -/
def getNumberOfPaddingCharacters (numberOfOctetsInInput : UInt32) : Option UInt32 :=
  (getEncodedOutputLength numberOfOctetsInInput).map fun encodedOutputLength =>
    (encodedOutputLength * 6 - numberOfOctetsInInput * 8) / 6

/-- The memory of the output, and where `output_to_populate` points to. -/
structure Output where
  memory : List Char
  pos : ℕ
  deriving DecidableEq

/-- A write at the pointer, which goes on. -/
def Output.put (out : Output) (c : Char) : Option Output :=
  if out.pos < out.memory.length then some ⟨out.memory.set out.pos c, out.pos + 1⟩ else none

/-- A write in front of the pointer, which goes back. -/
def Output.putBack (out : Output) (c : Char) : Option Output :=
  if 0 < out.pos ∧ out.pos ≤ out.memory.length then
    some ⟨out.memory.set (out.pos - 1) c, out.pos - 1⟩
  else none

/-- An octet of the input at its place in three octets, if there is one. -/
def takeOctet (index inputLength : UInt32) (shift : ℕ) (input : List Octet) :
    Option (BitVec 32 × List Octet) :=
  if index < inputLength then
    match input with
    | [] => none
    | x :: rest => some (x.setWidth 32 <<< shift, rest)
  else some (0, input)

/-- The character for six bits of the three octets. -/
def putSextet (threeOctets : BitVec 32) (shift : ℕ) (out : Output) : Option Output :=
  (base64LookupTable[(threeOctets >>> shift &&& 63).toNat]?).bind out.put

/-- The four sextets of three octets. -/
def putSextets (threeOctets : BitVec 32) (out : Output) : Option Output :=
  (putSextet threeOctets 18 out).bind fun out =>
    (putSextet threeOctets 12 out).bind fun out =>
      (putSextet threeOctets 6 out).bind fun out => putSextet threeOctets 0 out

/-- The loop over the groups of three octets and four sextets. -/
def encodeGroups (inputLength : UInt32) : ℕ → UInt32 → List Octet → Output → Option Output
  | 0, _, _, out => some out
  | groups + 1, i, input, out =>
    (takeOctet (i * 3) inputLength 16 input).bind fun x =>
      (takeOctet (i * 3 + 1) inputLength 8 x.2).bind fun y =>
        (takeOctet (i * 3 + 2) inputLength 0 y.2).bind fun z =>
          (putSextets (0 ||| x.1 ||| y.1 ||| z.1) out).bind fun out =>
            encodeGroups inputLength groups (i + 1) z.2 out

/-- The loop over the padding. -/
def padBack : ℕ → Output → Option Output
  | 0, out => some out
  | n + 1, out => (out.putBack '=').bind (padBack n)

/-- `Base64_Encode`: the memory of the output. -/
def base64Encode (output : List Char) (input : List Octet) : Option (List Char) :=
  let inputLength := UInt32.ofNat input.length
  (getEncodedOutputLength inputLength).bind fun encodedOutputLength =>
    if UInt32.ofNat output.length ≥ encodedOutputLength then
      (encodeGroups inputLength (encodedOutputLength / 4).toNat 0 input ⟨output, 0⟩).bind fun out =>
        (getNumberOfPaddingCharacters inputLength).bind fun numberOfPaddingCharacters =>
          (padBack numberOfPaddingCharacters.toNat out).map Output.memory
    else none

/-! ## Statement -/

/-- The character of a sextet. -/
def symbol (s : Sextet) : Char :=
  if s.toNat < 26 then Char.ofNat (65 + s.toNat)
  else if s.toNat < 52 then Char.ofNat (97 + (s.toNat - 26))
  else if s.toNat < 62 then Char.ofNat (48 + (s.toNat - 52))
  else if s.toNat = 62 then '+'
  else '/'

/-- The sextet of a character. -/
def value (c : Char) : Option Sextet :=
  if 65 ≤ c.toNat ∧ c.toNat ≤ 90 then some (.ofNat 6 (c.toNat - 65))
  else if 97 ≤ c.toNat ∧ c.toNat ≤ 122 then some (.ofNat 6 (c.toNat - 97 + 26))
  else if 48 ≤ c.toNat ∧ c.toNat ≤ 57 then some (.ofNat 6 (c.toNat - 48 + 52))
  else if c = '+' then some 62
  else if c = '/' then some 63
  else none

/-- The standard alphabet. -/
def standard : Alphabet Char where
  symbol := symbol
  value := value
  pad := '='
  value_symbol := by decide
  value_pad := by decide

/-- A call for an input and an output of 32-bit lengths, where the encoding fits. -/
structure EncodeCall where
  output : List Char
  input : List Octet
  output_lt : output.length < 2 ^ 32
  input_lt : input.length < 2 ^ 32
  fits : 4 * ((input.length + 2) / 3) ≤ output.length

/-- **The encoding is written**, and nothing else. -/
structure Right (call : EncodeCall) : Prop where
  length : (getEncodedOutputLength (.ofNat call.input.length)).map UInt32.toNat =
    some (4 * ((call.input.length + 2) / 3))
  encodes : base64Encode call.output call.input =
    some (encode standard call.input ++ call.output.drop (4 * ((call.input.length + 2) / 3)))
  decodes : decode standard (encode standard call.input) = some call.input
  distinct : ∀ input, encode standard input = encode standard call.input → input = call.input

/-! ## Lengths -/

variable {n : UInt32} {xs rest : List Octet} {out : Output}

theorem roundUp_eq {x : UInt32} {m : UInt8} (hm : m.toNat ≠ 0)
    (hx : x.toNat + m.toNat < 2 ^ 32) : ∃ y, roundUpToNearestMultipleOf x m = some y ∧
      y.toNat = (x.toNat + m.toNat - 1) / m.toNat * m.toNat := by
  have hne : m ≠ 0 := fun h => hm (by rw [h]; rfl)
  have hmod : (x % m.toUInt32).toNat = x.toNat % m.toNat := by
    rw [UInt32.toNat_mod, UInt8.toNat_toUInt32]
  have hdiv := Nat.div_add_mod x.toNat m.toNat
  have hlt := Nat.mod_lt x.toNat (Nat.pos_of_ne_zero hm)
  rw [roundUpToNearestMultipleOf, if_pos hne]
  refine ⟨_, rfl, ?_⟩
  by_cases h0 : x % m.toUInt32 = 0
  · rw [if_pos h0]
    rw [h0] at hmod
    have hzero : x.toNat % m.toNat = 0 := hmod.symm
    have hquot : (x.toNat + m.toNat - 1) / m.toNat = x.toNat / m.toNat := by
      rw [show x.toNat + m.toNat - 1 = m.toNat - 1 + m.toNat * (x.toNat / m.toNat) by omega,
        Nat.add_mul_div_left _ _ (Nat.pos_of_ne_zero hm), Nat.div_eq_of_lt (by omega), Nat.zero_add]
    rw [hquot, Nat.mul_comm]
    omega
  · rw [if_neg h0]
    have hpos : x.toNat % m.toNat ≠ 0 := fun h => h0 (UInt32.toNat_inj.mp (hmod.trans h))
    have hquot : (x.toNat + m.toNat - 1) / m.toNat = x.toNat / m.toNat + 1 := by
      have hsum : x.toNat + m.toNat - 1 =
          (x.toNat % m.toNat - 1) + m.toNat * (x.toNat / m.toNat + 1) := by
        rw [Nat.mul_add, Nat.mul_one]
        omega
      rw [hsum, Nat.add_mul_div_left _ _ (Nat.pos_of_ne_zero hm), Nat.div_eq_of_lt (by omega), Nat.zero_add]
    have hadd : (x + m.toUInt32).toNat = x.toNat + m.toNat := by
      rw [UInt32.toNat_add, UInt8.toNat_toUInt32, Nat.mod_eq_of_lt hx]
    have hle : x % m.toUInt32 ≤ x + m.toUInt32 := by
      rw [UInt32.le_iff_toNat_le, hmod, hadd]
      omega
    rw [UInt32.toNat_sub_of_le _ _ hle, hadd, hmod, hquot, Nat.add_mul, Nat.one_mul, Nat.mul_comm]
    omega

/-- The length of the encoding, of as many octets as there are in the bits. -/
theorem encodedLength_eq (n : UInt32) : ∃ y, getEncodedOutputLength n = some y ∧
    y.toNat = 4 * ((n.toNat % 2 ^ 29 + 2) / 3) := by
  have hbits : (n * 8).toNat = 8 * (n.toNat % 2 ^ 29) := by
    have h8 : (8 : UInt32).toNat = 8 := rfl
    rw [UInt32.toNat_mul, h8]
    omega
  have h6 : (6 : UInt8).toNat = 6 := rfl
  have h4 : (4 : UInt8).toNat = 4 := rfl
  obtain ⟨x, hround, hx⟩ := roundUp_eq (x := n * 8) (m := 6) (by decide) (by omega)
  have hsix : (x / 6).toNat = (8 * (n.toNat % 2 ^ 29) + 5) / 6 := by
    have hx6 : (6 : UInt32).toNat = 6 := rfl
    rw [UInt32.toNat_div, hx, hx6, h6, hbits]
    omega
  obtain ⟨y, hround', hy⟩ := roundUp_eq (x := x / 6) (m := 4) (by decide) (by omega)
  refine ⟨y, ?_, ?_⟩
  · rw [getEncodedOutputLength, hround, bind_some, hround']
  · rw [hy, hsix, h4]
    omega

theorem padding_eq (hn : n.toNat < 2 ^ 29) : ∃ y, getNumberOfPaddingCharacters n = some y ∧
    y.toNat = padding n.toNat := by
  obtain ⟨x, hx, hlength⟩ := encodedLength_eq n
  rw [getNumberOfPaddingCharacters, hx]
  refine ⟨_, rfl, ?_⟩
  have h6 : (6 : UInt32).toNat = 6 := rfl
  have h8 : (8 : UInt32).toNat = 8 := rfl
  rw [UInt32.toNat_div, UInt32.toNat_sub, UInt32.toNat_mul, UInt32.toNat_mul, h6, h8, hlength,
    padding, Nat.mod_eq_of_lt hn]
  -- the product may wrap, the difference does not
  have hdiff : (2 ^ 32 - n.toNat * 8 % 2 ^ 32 + 4 * ((n.toNat + 2) / 3) * 6 % 2 ^ 32) % 2 ^ 32 =
      24 * ((n.toNat + 2) / 3) - 8 * n.toNat := by omega
  rw [hdiff]
  omega

/-! ## One group -/

variable {pre tail mid : List Char} {index : UInt32} {shift groups : ℕ}

theorem takeOctet_cons (h : index < n) (x : Octet) :
    takeOctet index n shift (x :: rest) = some (x.setWidth 32 <<< shift, rest) := if_pos h

/-- Behind the input there are zero octets. -/
theorem takeOctet_past (h : ¬ index < n) :
    takeOctet index n shift [] = some ((0#8).setWidth 32 <<< shift, []) := by
  rw [takeOctet, if_neg h, BitVec.setWidth_zero, BitVec.zero_shiftLeft]
  rfl

theorem lookup_eq (w : BitVec 24) (shift : ℕ) :
    base64LookupTable[(w.setWidth 32 >>> shift &&& 63).toNat]? =
      some (symbol (w.extractLsb' shift 6)) := by
  have htable : ∀ s : Sextet, base64LookupTable[s.toNat]? = some (symbol s) := by decide
  have hmask : ∀ i < 32, (63#32).getLsbD i = decide (i < 6) := by decide
  have hsextet : w.setWidth 32 >>> shift &&& 63#32 = (w.extractLsb' shift 6).setWidth 32 := by
    ext i hi
    have hw : 24 ≤ shift + i → w.getLsbD (shift + i) = false := BitVec.getLsbD_of_ge w _
    simp only [BitVec.getElem_and, BitVec.getElem_ushiftRight, BitVec.getLsbD_setWidth,
      BitVec.getElem_setWidth, BitVec.getLsbD_extractLsb']
    rw [← BitVec.getLsbD_eq_getElem, hmask i hi]
    grind
  have hvalue : (w.setWidth 32 >>> shift &&& 63).toNat = (w.extractLsb' shift 6).toNat := by
    have h63 : (63 : BitVec 32) = 63#32 := rfl
    rw [h63, hsextet, BitVec.toNat_setWidth]
    exact Nat.mod_eq_of_lt (Nat.lt_of_lt_of_le (BitVec.isLt _) (by decide))
  rw [hvalue, htable]

theorem putSextet_eq (w : BitVec 24) (x : Char) :
    putSextet (w.setWidth 32) shift ⟨pre ++ x :: tail, pre.length⟩ =
      some ⟨pre ++ [symbol (w.extractLsb' shift 6)] ++ tail,
        (pre ++ [symbol (w.extractLsb' shift 6)]).length⟩ := by
  have hlt : pre.length < (pre ++ x :: tail).length := by
    rw [length_append, length_cons]
    omega
  rw [putSextet, lookup_eq, bind_some, Output.put, if_pos hlt]
  simp

/-- The four characters of a group. -/
theorem putSextets_eq (w : BitVec 24) (h : 4 ≤ tail.length) :
    putSextets (w.setWidth 32) ⟨pre ++ tail, pre.length⟩ =
      some ⟨pre ++ (quantum w).map symbol ++ tail.drop 4,
        (pre ++ (quantum w).map symbol).length⟩ := by
  match tail, h with
  | x :: y :: z :: u :: tail, _ =>
    rw [putSextets, putSextet_eq, bind_some, putSextet_eq, bind_some, putSextet_eq,
      bind_some, putSextet_eq]
    simp [quantum]

theorem threeOctets_eq (a b c : Octet) : (0 : BitVec 32) ||| a.setWidth 32 <<< 16 |||
    b.setWidth 32 <<< 8 ||| c.setWidth 32 <<< 0 = (a ++ b ++ c).setWidth 32 := by
  ext i hi
  simp
  grind

/-! ## The loops -/

/-- The characters of the groups, before the padding. -/
def filled (xs : List Octet) : List Char := ((quanta xs).flatMap quantum).map symbol

theorem length_filled (xs : List Octet) : (filled xs).length = 4 * ((xs.length + 2) / 3) := by
  rw [filled, length_map, length_flatMap_quantum, length_quanta]

/-- A turn with the octets `a`, `b` and `c`, where those that are not there are zero. -/
theorem encodeGroups_succ {i : UInt32} {input rest : List Octet} {a b c : Octet}
    {input₁ input₂ : List Octet}
    (ha : takeOctet (i * 3) n 16 input = some (a.setWidth 32 <<< 16, input₁))
    (hb : takeOctet (i * 3 + 1) n 8 input₁ = some (b.setWidth 32 <<< 8, input₂))
    (hc : takeOctet (i * 3 + 2) n 0 input₂ = some (c.setWidth 32 <<< 0, rest))
    (htail : 4 ≤ tail.length) :
    encodeGroups n (groups + 1) i input ⟨pre ++ tail, pre.length⟩ =
      encodeGroups n groups (i + 1) rest ⟨pre ++ (quantum (a ++ b ++ c)).map symbol ++ tail.drop 4,
        (pre ++ (quantum (a ++ b ++ c)).map symbol).length⟩ := by
  rw [encodeGroups, ha, bind_some, hb, bind_some, hc, bind_some]
  dsimp only
  rw [threeOctets_eq, putSextets_eq _ htail, bind_some]

/-- **The loop over the groups**, from one of them on. -/
theorem encodeGroups_eq : ∀ {rest : List Octet} {i : UInt32} {pre tail : List Char},
    n.toNat < 2 ^ 29 → (rest ≠ [] → 3 * i.toNat + rest.length = n.toNat) →
      4 * ((rest.length + 2) / 3) ≤ tail.length →
        encodeGroups n ((rest.length + 2) / 3) i rest ⟨pre ++ tail, pre.length⟩ =
          some ⟨pre ++ filled rest ++ tail.drop (4 * ((rest.length + 2) / 3)),
            (pre ++ filled rest).length⟩
  | [], _, pre, tail, _, _, _ => by simp [encodeGroups, filled, quanta]
  | x :: rest, i, pre, tail, hn, hrest, htail => by
    have hi := hrest (cons_ne_nil x rest)
    have h3 : (3 : UInt32).toNat = 3 := rfl
    have hi0 : (i * 3).toNat = 3 * i.toNat := by
      rw [UInt32.toNat_mul, h3]
      omega
    have hi1 : (i * 3 + 1).toNat = 3 * i.toNat + 1 := by
      have h1 : (1 : UInt32).toNat = 1 := rfl
      rw [UInt32.toNat_add, hi0, h1]
      omega
    have hi2 : (i * 3 + 2).toNat = 3 * i.toNat + 2 := by
      have h2 : (2 : UInt32).toNat = 2 := rfl
      rw [UInt32.toNat_add, hi0, h2]
      omega
    have hnext : (i + 1).toNat = i.toNat + 1 := by
      have h1 : (1 : UInt32).toNat = 1 := rfl
      rw [UInt32.toNat_add, h1]
      omega
    have ha : ∀ rest' : List Octet, takeOctet (i * 3) n 16 (x :: rest') =
        some (x.setWidth 32 <<< 16, rest') := fun rest' => by
      refine takeOctet_cons ?_ x
      rw [UInt32.lt_iff_toNat_lt, hi0]
      rw [length_cons] at hi
      omega
    rcases rest with _ | ⟨y, _ | ⟨z, rest⟩⟩
    · rw [length_singleton] at hi htail
      have hb := @takeOctet_past _ _ 8 (show ¬ i * 3 + 1 < n by
        rw [UInt32.lt_iff_toNat_lt, hi1]
        omega)
      have hc := @takeOctet_past _ _ 0 (show ¬ i * 3 + 2 < n by
        rw [UInt32.lt_iff_toNat_lt, hi2]
        omega)
      have hgroups : ([x].length + 2) / 3 = 0 + 1 := by simp
      rw [hgroups, encodeGroups_succ (ha []) hb hc htail]
      simp [encodeGroups, filled, quanta]
    · simp only [length_cons, length_nil] at hi htail
      have hb : takeOctet (i * 3 + 1) n 8 [y] = some (y.setWidth 32 <<< 8, []) := by
        refine takeOctet_cons ?_ y
        rw [UInt32.lt_iff_toNat_lt, hi1]
        omega
      have hc := @takeOctet_past _ _ 0 (show ¬ i * 3 + 2 < n by
        rw [UInt32.lt_iff_toNat_lt, hi2]
        omega)
      have hgroups : ([x, y].length + 2) / 3 = 0 + 1 := by simp
      rw [hgroups, encodeGroups_succ (ha [y]) hb hc htail]
      simp [encodeGroups, filled, quanta]
    · simp only [length_cons] at hi htail
      have hb : takeOctet (i * 3 + 1) n 8 (y :: z :: rest) =
          some (y.setWidth 32 <<< 8, z :: rest) := by
        refine takeOctet_cons ?_ y
        rw [UInt32.lt_iff_toNat_lt, hi1]
        omega
      have hc : takeOctet (i * 3 + 2) n 0 (z :: rest) = some (z.setWidth 32 <<< 0, rest) := by
        refine takeOctet_cons ?_ z
        rw [UInt32.lt_iff_toNat_lt, hi2]
        omega
      have hgroups : ((x :: y :: z :: rest).length + 2) / 3 = (rest.length + 2) / 3 + 1 := by
        simp only [length_cons]
        omega
      have hfilled : filled (x :: y :: z :: rest) =
          (quantum (x ++ y ++ z)).map symbol ++ filled rest := by
        rw [filled, quanta, flatMap_cons, map_append]
        rfl
      have hrest' : rest ≠ [] → 3 * (i + 1).toNat + rest.length = n.toNat := fun _ => by omega
      have htail' : 4 * ((rest.length + 2) / 3) ≤ (tail.drop 4).length := by
        rw [length_drop]
        omega
      have hrec : encodeGroups n ((rest.length + 2) / 3) (i + 1) rest
          ⟨pre ++ (quantum (x ++ y ++ z)).map symbol ++ tail.drop 4,
            (pre ++ (quantum (x ++ y ++ z)).map symbol).length⟩ = _ :=
        encodeGroups_eq hn hrest' htail'
      rw [hgroups, encodeGroups_succ (ha _) hb hc (by omega), hrec, hfilled, drop_drop,
        Nat.mul_add, Nat.mul_one, Nat.add_comm 4, ← append_assoc]

/-- **The loop over the padding** replaces the last characters. -/
theorem padBack_eq : ∀ {k : ℕ} {pre mid tail : List Char}, mid.length = k →
    padBack k ⟨pre ++ mid ++ tail, (pre ++ mid).length⟩ =
      some ⟨pre ++ List.replicate k '=' ++ tail, pre.length⟩
  | 0, pre, mid, tail, h => by
    rw [length_eq_zero_iff.mp h, append_nil, replicate_zero, append_nil]
    rfl
  | k + 1, pre, mid, tail, h => by
    obtain rfl | ⟨mid, x, rfl⟩ := eq_nil_or_concat' mid
    · cases h
    rw [length_append, length_singleton, Nat.add_right_cancel_iff] at h
    have hput : Output.putBack ⟨pre ++ (mid ++ [x]) ++ tail, (pre ++ (mid ++ [x])).length⟩ '=' =
        some ⟨pre ++ mid ++ '=' :: tail, (pre ++ mid).length⟩ := by
      have hpos : 0 < (pre ++ (mid ++ [x])).length ∧
          (pre ++ (mid ++ [x])).length ≤ (pre ++ (mid ++ [x]) ++ tail).length := by
        simp only [length_append, length_singleton]
        omega
      rw [Output.putBack, if_pos hpos]
      simp
    rw [padBack, hput, bind_some, padBack_eq h, replicate_succ', append_assoc,
      append_assoc, append_assoc]
    rfl

/-! ## The call -/

theorem filled_split (xs : List Octet) : ∃ mid, filled xs = (sextets xs).map symbol ++ mid ∧
    mid.length = padding xs.length := by
  refine ⟨(filled xs).drop ((8 * xs.length + 5) / 6), ?_, ?_⟩
  · rw [sextets, map_take]
    exact (take_append_drop _ _).symm
  · rw [length_drop, length_filled, padding]

/-- **The output is the encoding** exactly when the bits of the input can be counted in 32 bits. -/
theorem encode_right_iff (call : EncodeCall) : Right call ↔ call.input.length < 2 ^ 29 := by
  obtain ⟨output, input, houtput, hinput, hfits⟩ := call
  dsimp only
  have hn : (UInt32.ofNat input.length).toNat = input.length := by
    rw [UInt32.toNat_ofNat']
    exact Nat.mod_eq_of_lt hinput
  obtain ⟨y, hlength, hy⟩ := encodedLength_eq (.ofNat input.length)
  rw [hn] at hy
  constructor
  · rintro ⟨h, -, -, -⟩
    dsimp only at h
    rw [hlength, Option.map_some, Option.some.injEq, hy] at h
    omega
  · intro hlt
    rw [Nat.mod_eq_of_lt hlt] at hy
    refine ⟨?_, ?_, decode_encode standard input, fun other h => encode_injective standard h⟩
    · dsimp only
      rw [hlength, Option.map_some, hy]
    · dsimp only
      obtain ⟨k, hpadding, hk⟩ := padding_eq (n := .ofNat input.length) (by rw [hn]; exact hlt)
      rw [hn] at hk
      have hfit : UInt32.ofNat output.length ≥ y := by
        rw [ge_iff_le, UInt32.le_iff_toNat_le, hy, UInt32.toNat_ofNat', Nat.mod_eq_of_lt houtput]
        exact hfits
      have hgroups : (y / 4).toNat = (input.length + 2) / 3 := by
        have h4 : (4 : UInt32).toNat = 4 := rfl
        rw [UInt32.toNat_div, hy, h4, Nat.mul_div_cancel_left _ (by decide)]
      have hloop : encodeGroups (.ofNat input.length) ((input.length + 2) / 3) 0 input
          ⟨[] ++ output, ([] : List Char).length⟩ = _ :=
        encodeGroups_eq (by rw [hn]; exact hlt) (fun _ => by rw [hn]; exact Nat.zero_add _) hfits
      rw [List.nil_append, List.length_nil, List.nil_append] at hloop
      obtain ⟨mid, hfilled, hmid⟩ := filled_split input
      rw [base64Encode, hlength, Option.bind_some, if_pos hfit, hgroups, hloop, Option.bind_some,
        hpadding, Option.bind_some, hk, hfilled, padBack_eq hmid, Option.map_some]
      rfl

/-- The number of bits of half a gigabyte is taken for 0, and nothing is written. -/
theorem not_encode_right : ¬ ∀ call, Right call := by
  intro h
  have hlength := (h ⟨List.replicate 715827884 ' ', List.replicate (2 ^ 29) 0,
    by rw [List.length_replicate]; decide, by rw [List.length_replicate]; decide,
    by rw [List.length_replicate, List.length_replicate]; decide⟩).length
  dsimp only at hlength
  rw [List.length_replicate] at hlength
  exact absurd hlength (by decide +kernel)

end Mh40.Base64
