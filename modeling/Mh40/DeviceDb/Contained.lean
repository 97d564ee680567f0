import Mh40.DeviceDb.RoundTrip

/-!
# Frames from storage

`deviceDbSerialiser_DeserialisePddFrame` takes whatever frame it reads from persistent storage: the
loop compares the start of a part with the end of the frame, and goes on by the length that the part
says it has.

* `accessesFrom`: the octets that the loop reads and hands on.
* `Contained`: what is to hold of them.
* `Parts`: the octets of a payload that are a row of parts; `contained_iff`: no other payload is
  read in bounds and to its end.
* `not_contained_zero`: a part with a length of 0.
-/

namespace Mh40.DeviceDb

open Lib.Buffer List Option

variable {Device : Type} {r : Registry Device} {frame octets : List UInt8} {id len : UInt8}
  {calls : List DeserCall} {endOfPddFrame watchdog payload left : ℕ}

/-! ## Accesses -/

/-- The data of the part at `payload`, when there is a user to hand it to. -/
def handedOn (r : Registry Device) (payload : ℕ) (thisPdduId thisPdduLen : UInt8) : List (ℕ × ℕ) :=
  match getRegisteredPddu r thisPdduId with
  | some _ => [(payload + payloadOffsetInFrame, (dataLength thisPdduLen).toNat)]
  | none => []

/-- The octets that `deserialisePddFrameFrom` reads or hands on, as offsets and lengths. -/
def accessesFrom (r : Registry Device) (pddFrame : List UInt8) (endOfPddFrame : ℕ) :
    (watchdog payload : ℕ) → List (ℕ × ℕ)
  | 0, _ => []
  | watchdog + 1, payload =>
    if payload < endOfPddFrame then
      (payload + typeOffsetInFrame, 1) :: (payload + lenOffsetInFrame, 1) ::
        match pddFrame[payload + typeOffsetInFrame]?, pddFrame[payload + lenOffsetInFrame]? with
        | some thisPdduId, some thisPdduLen =>
          handedOn r payload thisPdduId thisPdduLen ++
            accessesFrom r pddFrame endOfPddFrame watchdog (payload + thisPdduLen.toNat)
        | _, _ => []
    else []

/-- The octets lie in the declared length and in what has been allocated. -/
def Inside (pddFrame : List UInt8) (endOfPddFrame : ℕ) (access : ℕ × ℕ) : Prop :=
  access.1 + access.2 ≤ endOfPddFrame ∧ access.1 + access.2 ≤ pddFrame.length

/-- What is to hold of a frame: its parts are read to its end without a panic, and all that is read
and handed on lies in it. -/
def Contained (r : Registry Device) (pddFrame : List UInt8) : Prop :=
  ∃ endOfPddFrame calls, pddFrame[lenOffsetInFrame]? = some endOfPddFrame ∧
    deserialisePddFrame r pddFrame = some calls ∧
    ∀ access ∈ accessesFrom r pddFrame endOfPddFrame.toNat 255 payloadOffsetInFrame,
      Inside pddFrame endOfPddFrame.toNat access

/-! ## Rows of parts -/

/-- The octets start with a row of parts, `left` octets long: no part has length 0, its id and its
length are in the row, and so are the data of a user. A part of no user may be the last one and
longer than what is left. -/
inductive Parts (r : Registry Device) : List UInt8 → ℕ → Prop
  | done (octets : List UInt8) : Parts r octets 0
  | part {id len : UInt8} {rest : List UInt8} {left : ℕ} (hlen : len ≠ 0) (hleft : 2 ≤ left)
      (hdata : (getRegisteredPddu r id).isSome → len.toNat ≤ left ∧ len.toNat ≤ rest.length + 2)
      (hrest : Parts r ((id :: len :: rest).drop len.toNat) (left - len.toNat)) :
      Parts r (id :: len :: rest) left

/-- The frame has its two octets, and its payload is a row of parts. -/
def WellFormed (r : Registry Device) (pddFrame : List UInt8) : Prop :=
  ∃ type endOfPddFrame rest, pddFrame = type :: endOfPddFrame :: rest ∧
    Parts r rest (endOfPddFrame.toNat - sizeOfTypeAndLen)

/-- The length that a user is told, as a number. -/
theorem toNat_dataLength (len : UInt8) : (dataLength len).toNat = len.toNat - 2 := by
  have h2 : (UInt8.ofNat sizeOfMetadata).toNat = 2 := rfl
  have hlt := len.toNat_lt
  unfold dataLength
  split_ifs with h
  · unfold sizeOfMetadata at h
    simp only [UInt8.toNat_zero]
    omega
  · unfold sizeOfMetadata at h
    rw [UInt8.toNat_sub, h2]
    omega

/-- A part starts where there are two octets. -/
theorem drop_eq_cons_cons (hid : frame[payload + typeOffsetInFrame]? = some id)
    (hlen : frame[payload + lenOffsetInFrame]? = some len) :
    frame.drop payload = id :: len :: frame.drop (payload + 2) := by
  obtain ⟨hidLt, hid⟩ := List.getElem?_eq_some_iff.mp hid
  obtain ⟨hlenLt, hlen⟩ := List.getElem?_eq_some_iff.mp hlen
  unfold lenOffsetInFrame at hlenLt hlen
  rw [drop_eq_getElem_cons (by omega), drop_eq_getElem_cons hlenLt, hlen]
  exact congrArg (· :: _) hid

/-- **What is read in bounds and to its end is a row of parts.** -/
theorem parts_of_inside
    (hcalls : deserialisePddFrameFrom r frame endOfPddFrame watchdog payload = some calls)
    (hinside : ∀ access ∈ accessesFrom r frame endOfPddFrame watchdog payload,
      Inside frame endOfPddFrame access) :
    Parts r (frame.drop payload) (endOfPddFrame - payload) := by
  induction watchdog generalizing payload calls with
  | zero => cases hcalls
  | succ watchdog ih =>
    by_cases hlt : payload < endOfPddFrame
    · unfold deserialisePddFrameFrom at hcalls
      rw [if_pos hlt] at hcalls
      simp only [bind_eq_bind, bind_eq_some_iff] at hcalls
      obtain ⟨id, hid, len, hlen, _, -, rest, hrest, -⟩ := hcalls
      unfold accessesFrom at hinside
      rw [if_pos hlt, hid, hlen] at hinside
      obtain ⟨-, hinside⟩ := forall_mem_cons.mp hinside
      obtain ⟨hlenInside, hinside⟩ := forall_mem_cons.mp hinside
      obtain ⟨hdata, hinside⟩ := forall_mem_append.mp hinside
      have hparts := ih hrest hinside
      rw [drop_eq_cons_cons hid hlen]
      by_cases hzero : len = 0
      · -- The next round starts at the same part.
        rwa [hzero, UInt8.toNat_zero, Nat.add_zero, drop_eq_cons_cons hid hlen] at hparts
      · have hleft : 2 ≤ endOfPddFrame - payload := by
          have hle := hlenInside.1
          unfold lenOffsetInFrame at hle
          omega
        refine .part hzero hleft (fun hsome => ?_) ?_
        · obtain ⟨pddu, hpddu⟩ := isSome_iff_exists.mp hsome
          have hin := hdata (payload + payloadOffsetInFrame, (dataLength len).toNat) (by
            rw [handedOn, hpddu]
            exact mem_singleton_self _)
          obtain ⟨hend, hframe⟩ := hin
          rw [toNat_dataLength] at hend hframe
          unfold payloadOffsetInFrame sizeOfTypeAndLen at hend hframe
          rw [length_drop]
          omega
        · rwa [← drop_eq_cons_cons hid hlen, drop_drop, Nat.sub_sub]
    · rw [Nat.sub_eq_zero_of_le (Nat.not_lt.mp hlt)]
      exact .done _

/-- **A row of parts is read in bounds and to its end**: no part has length 0, so that there are
fewer of them than the watchdog counts. -/
theorem Parts.inside (h : Parts r octets left) (hdrop : frame.drop payload = octets)
    (hleft : endOfPddFrame - payload = left) (hwatchdog : left < watchdog) :
    ∃ calls, deserialisePddFrameFrom r frame endOfPddFrame watchdog payload = some calls ∧
      ∀ access ∈ accessesFrom r frame endOfPddFrame watchdog payload,
        Inside frame endOfPddFrame access := by
  induction h generalizing payload watchdog with
  | done octets =>
    obtain ⟨watchdog, rfl⟩ : ∃ n, watchdog = n + 1 := ⟨watchdog - 1, by omega⟩
    have hge : ¬payload < endOfPddFrame := by omega
    refine ⟨[], ?_, ?_⟩
    · rw [deserialisePddFrameFrom, if_neg hge]
    · rw [accessesFrom, if_neg hge]
      exact fun access haccess => absurd haccess not_mem_nil
  | @part id len rest left hlen htwo hdata hrest ih =>
    obtain ⟨watchdog, rfl⟩ : ∃ n, watchdog = n + 1 := ⟨watchdog - 1, by omega⟩
    have hpos : 0 < len.toNat :=
      Nat.pos_of_ne_zero fun hzero => hlen (UInt8.toNat_inj.mp hzero)
    have hlt : payload < endOfPddFrame := by omega
    have hlength : frame.length = payload + (rest.length + 2) := by
      have hlen := congrArg List.length hdrop
      rw [length_drop, length_cons, length_cons] at hlen
      omega
    have hid : frame[payload + typeOffsetInFrame]? = some id := by
      rw [← getElem?_drop, hdrop]
      rfl
    have hlenOctet : frame[payload + lenOffsetInFrame]? = some len := by
      rw [← getElem?_drop, hdrop]
      rfl
    obtain ⟨calls, hcalls, hinside⟩ := @ih watchdog (payload + len.toNat)
      (by rw [← hdrop, drop_drop]) (by omega) (by omega)
    -- The data of a user end in the frame.
    have hbound : ∀ pddu, getRegisteredPddu r id = some pddu →
        payload + payloadOffsetInFrame + (dataLength len).toNat ≤ endOfPddFrame ∧
          payload + payloadOffsetInFrame + (dataLength len).toNat ≤ frame.length := by
      intro pddu hpddu
      obtain ⟨hend, hframe⟩ := hdata (by rw [hpddu]; rfl)
      rw [toNat_dataLength]
      unfold payloadOffsetInFrame sizeOfTypeAndLen
      omega
    have hhanded : (∃ first, deserialisePddu r frame payload id len = some first) ∧
        ∀ access ∈ handedOn r payload id len, Inside frame endOfPddFrame access := by
      unfold deserialisePddu handedOn
      cases hpddu : getRegisteredPddu r id with
      | none => exact ⟨⟨[], rfl⟩, fun access haccess => absurd haccess not_mem_nil⟩
      | some pddu =>
        refine ⟨?_, fun access haccess => ?_⟩
        · dsimp only
          rw [readAt, if_pos (hbound pddu hpddu).2]
          exact ⟨_, rfl⟩
        · rw [mem_singleton.mp haccess]
          exact hbound pddu hpddu
    obtain ⟨⟨first, hfirst⟩, hhanded⟩ := hhanded
    refine ⟨first ++ calls, ?_, ?_⟩
    · rw [deserialisePddFrameFrom, if_pos hlt, hid, hlenOctet]
      simp only [bind_eq_bind, bind_some, hfirst, hcalls]
    · rw [accessesFrom, if_pos hlt, hid, hlenOctet]
      refine forall_mem_cons.mpr ⟨?_, forall_mem_cons.mpr ⟨?_,
        forall_mem_append.mpr ⟨hhanded, hinside⟩⟩⟩
      · unfold Inside typeOffsetInFrame
        omega
      · unfold Inside lenOffsetInFrame
        omega

/-- **A frame is read in bounds and to its end iff** its payload is a row of parts. -/
theorem contained_iff (r : Registry Device) (pddFrame : List UInt8) :
    Contained r pddFrame ↔ WellFormed r pddFrame := by
  constructor
  · rintro ⟨endOfPddFrame, calls, hend, hcalls, hinside⟩
    rcases pddFrame with _ | ⟨type, _ | ⟨len, rest⟩⟩
    · cases hend
    · cases hend
    · obtain rfl := Option.some.inj hend
      exact ⟨type, len, rest, rfl, parts_of_inside hcalls hinside⟩
  · rintro ⟨type, endOfPddFrame, rest, rfl, hparts⟩
    have hlt := endOfPddFrame.toNat_lt
    have hdrop : (type :: endOfPddFrame :: rest).drop payloadOffsetInFrame = rest := rfl
    obtain ⟨calls, hcalls, hinside⟩ := hparts.inside hdrop rfl
      (show endOfPddFrame.toNat - sizeOfTypeAndLen < 255 by unfold sizeOfTypeAndLen; omega)
    exact ⟨endOfPddFrame, calls, rfl, hcalls, hinside⟩

/-- **Not every frame is read to its end**: the second part is behind a first one of length 0. -/
theorem not_contained_zero :
    ¬ ∀ (r : Registry Unit) (pddFrame : List UInt8), Contained r pddFrame := by
  intro h
  obtain ⟨_, calls, -, hcalls, -⟩ := h pdduInit [0xDB, 4, 1, 0]
  have hnone : deserialisePddFrame (pdduInit : Registry Unit) [0xDB, 4, 1, 0] = none := by
    decide +kernel
  rw [hnone] at hcalls
  cases hcalls

end Mh40.DeviceDb
