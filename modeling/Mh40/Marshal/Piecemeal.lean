import Mh40.Marshal.Chunks
import Mh40.Marshal.Windows

/-!
# Piecemeal marshalling and unmarshalling

`marshal_set_buffer` and `marshal` repeated over buffers of any sizes, `unmarshal_set_buffer` and
`unmarshal` repeated over windows that start at the first byte not consumed.

* `piecemeal_eq_oneShot`: when the marshaller returns `true` on one buffer, every sequence of
  buffers gives the same bytes and the same sets; when the unmarshaller returns `true` on all the
  data, every sequence of windows gives the same heap and the same sets. A call that returns
  `false` stops between two chunks, or between two items, of the one run.

The marshaller may be in any state, and the tables and the memory are arbitrary: also shared
members, and objects that were marshalled before.
-/

namespace Mh40.Marshal

open List Option

/-! ## Repeated calls -/

/-- `marshal_set_buffer` and `marshal` on buffers of the sizes `ns`, until `marshal` returns
`true`: whether it did, and the produced bytes. -/
def marshalCalls (T : TypeTable) (mem : Memory) (addr : Addr) (type : MarshalType) :
    Marshaller → List ℕ → Option (Bool × List UInt8 × Marshaller)
  | m, [] => some (false, [], m)
  | m, n :: ns =>
    match marshal T mem (marshalSetBuffer m n) addr type with
    | none => none
    | some (true, m') => some (true, m'.written, m')
    | some (false, m') =>
      (marshalCalls T mem addr type m' ns).map fun (finished, bs, m'') =>
        (finished, m'.written ++ bs, m'')

/-- `unmarshal_set_buffer` and `unmarshal` on windows of the lengths `ns`, each from the first
byte that is not consumed, until `unmarshal` returns `true`: the root, and the bytes consumed. -/
def unmarshalCalls (T : TypeTable) (stream : List UInt8) :
    ℕ → Unmarshaller → List ℕ → Option (Option Mob × ℕ × Unmarshaller)
  | consumed, u, [] => some (none, consumed, u)
  | consumed, u, n :: ns =>
    match unmarshal T (unmarshalSetBuffer u ((stream.drop consumed).take n)) with
    | none => none
    | some (some root, u') => some (some root, consumed + unmarshalConsumed u', u')
    | some (none, u') => unmarshalCalls T stream (consumed + unmarshalConsumed u') u' ns

/-- The marshallers are the same but for the buffer. -/
def Marshaller.SameButBuffer (m m' : Marshaller) : Prop :=
  marshalSetBuffer m 0 = marshalSetBuffer m' 0

/-- The unmarshallers are the same but for the data. -/
def Unmarshaller.SameButBuffer (u u' : Unmarshaller) : Prop :=
  unmarshalSetBuffer u [] = unmarshalSetBuffer u' []

/-- The marshaller with the root and all it reaches registered, unless the root was before. -/
def marshalStart (T : TypeTable) (mem : Memory) (addr : Addr) (type : MarshalType)
    (m : Marshaller) : Option Marshaller :=
  match m.state with
  | .registerPointers => do
    let disambiguator ← objDisambiguator T mem (some addr) (.member 0 type) none
    let (pushed, objectSet) ← mobsPush m.base.objectSet ⟨some addr, type, disambiguator⟩
    if pushed then
      let base ← registerObjects T mem m.nextValuesIndex { m.base with objectSet }
      some { m with base, state := .marshalValues }
    else some m
  | _ => some m

/-- `m'` has written `produced` of `stream`, which are whole chunks of the registered `m`, and the
others are pending. Its sets are those after the registration. -/
structure BetweenChunks (T : TypeTable) (mem : Memory) (m m' : Marshaller)
    (stream produced : List UInt8) : Prop where
  chunks : ∃ done rest, pending T mem m = some (done ++ rest) ∧
    stream = (done ++ rest).flatten ∧ produced = done.flatten ∧ pending T mem m' = some rest
  base : m'.base = m.base

variable {T : TypeTable} {mem : Memory} {addr : Addr} {type : MarshalType} {m m' : Marshaller}

/-! ## Marshalling -/

/-- A call is the registration, then a call on what is registered. -/
theorem marshal_eq_start (n : ℕ) (htype : type.toNat < T.length) :
    marshal T mem (marshalSetBuffer m n) addr type =
      (marshalStart T mem addr type m).bind fun m₀ =>
        if m₀.state = .registerPointers then some (true, marshalSetBuffer m n)
        else marshal T mem (marshalSetBuffer m₀ n) addr type := by
  have hstate : ∀ m' : Marshaller, (marshalSetBuffer m' n).state = m'.state := fun _ => rfl
  unfold marshal marshalStart
  simp only [if_pos htype, hstate]
  cases hs : m.state with
  | registerPointers =>
    simp only [registerPointersState, bind_eq_bind]
    rcases objDisambiguator T mem (some addr) (.member 0 type) none with _ | d
    · rfl
    simp only [bind_some]
    have hbase : (marshalSetBuffer m n).base = m.base := rfl
    have hnext : (marshalSetBuffer m n).nextValuesIndex = m.nextValuesIndex := rfl
    rw [hbase, hnext]
    rcases mobsPush m.base.objectSet ⟨some addr, type, d⟩ with _ | ⟨_ | _, objectSet⟩
    · rfl
    · simp [hs]
    · simp only [bind_some, if_true]
      rcases registerObjects T mem m.nextValuesIndex { m.base with objectSet } with _ | base
      · rfl
      · simp [marshalSetBuffer]
  | marshalValues | marshalValuesEnd | marshalPointerIndexes => simp [hs]

theorem marshalCalls_spec {cs : List (List UInt8)} (addr : Addr) (htype : type.toNat < T.length)
    (hm : m.Bounded) (hs : m.state ≠ .registerPointers) (h : pending T mem m = some cs)
    (ns : List ℕ) :
    ∃ finished produced m', marshalCalls T mem addr type m ns = some (finished, produced, m') ∧
      (finished = true → produced = cs.flatten ∧ m'.SameButBuffer (m.finish [])) ∧
      (finished = false → BetweenChunks T mem m m' cs.flatten produced) ∧
      ((∃ n ∈ ns, cs.flatten.length ≤ n) → finished = true) := by
  induction ns generalizing m cs with
  | nil =>
    refine ⟨false, [], m, rfl, nofun, fun _ => ⟨⟨[], cs, h, rfl, rfl, h⟩, rfl⟩, ?_⟩
    rintro ⟨n, hn, _⟩
    cases hn
  | cons n ns ih =>
    have hspec := marshal_spec addr (m := marshalSetBuffer m n) htype rfl
      ⟨hm.objects, hm.pointers⟩ (Nat.zero_le _) hs h
    have hwritten : (marshalSetBuffer m n).written = [] := rfl
    have hsize : (marshalSetBuffer m n).size = n := rfl
    rw [hwritten, hsize, length_nil, Nat.zero_add] at hspec
    unfold marshalCalls
    split at hspec
    · rw [hspec]
      refine ⟨true, _, _, rfl, fun _ => ⟨rfl, rfl⟩, nofun, fun _ => rfl⟩
    · obtain ⟨m₁, hcall, hsus⟩ := hspec
      obtain ⟨done, rest, hcs, hw1, hpending⟩ := hsus.progress
      rw [hwritten, nil_append] at hw1
      obtain ⟨finished, produced, m', hcalls, htrue, hfalse, hfit⟩ :=
        ih hsus.bounded hsus.state hpending
      rw [hcall]
      refine ⟨finished, m₁.written ++ produced, m', by simp [hcalls], ?_, ?_, ?_⟩
      · intro hf
        obtain ⟨hp, hsame⟩ := htrue hf
        refine ⟨by rw [hp, hw1, hcs, flatten_append], hsame.trans ?_⟩
        rw [hsus.finish]
        rfl
      · intro hf
        obtain ⟨⟨done', rest', hp', hst, hpr, hpe⟩, hbase⟩ := hfalse hf
        rw [hpending, some.injEq] at hp'
        subst hp'
        refine ⟨⟨done ++ done', rest', ?_, ?_, ?_, hpe⟩, hbase.trans hsus.base⟩
        · rw [h, hcs, append_assoc]
        · rw [hcs, append_assoc]
        · rw [hw1, hpr, flatten_append]
      · rintro ⟨k, hk, hle⟩
        rcases mem_cons.mp hk with rfl | hk
        · omega
        · refine hfit ⟨k, hk, Nat.le_trans ?_ hle⟩
          rw [hcs, flatten_append, length_append]
          omega

/-- What one big enough buffer and any sequence of buffers have in common. -/
theorem marshalCalls_of_marshal {space : ℕ}
    (h : marshal T mem (marshalSetBuffer m space) addr type = some (true, m')) (ns : List ℕ) :
    ∃ finished produced m'',
      marshalCalls T mem addr type m ns = some (finished, produced, m'') ∧
      (finished = true → produced = m'.written ∧ m''.SameButBuffer m') ∧
      (finished = false → ns ≠ [] → ∃ m₀, marshalStart T mem addr type m = some m₀ ∧
        BetweenChunks T mem m₀ m'' m'.written produced) ∧
      ((∃ n ∈ ns, m'.written.length ≤ n) → finished = true) := by
  have htype : type.toNat < T.length := by
    unfold marshal at h
    split at h
    · assumption
    · cases h
  rcases ns with _ | ⟨n, ns⟩
  · refine ⟨false, [], m, rfl, nofun, fun _ hne => absurd rfl hne, ?_⟩
    rintro ⟨n, hn, _⟩
    cases hn
  rw [marshal_eq_start space htype, bind_eq_some_iff] at h
  obtain ⟨m₀, hstart, h⟩ := h
  by_cases hs : m₀.state = .registerPointers
  · rw [if_pos hs] at h
    cases h
    refine ⟨true, [], marshalSetBuffer m n, ?_, fun _ => ⟨rfl, rfl⟩, nofun, fun _ => rfl⟩
    have hcall : marshal T mem (marshalSetBuffer m n) addr type =
        some (true, marshalSetBuffer m n) := by
      rw [marshal_eq_start n htype, hstart]
      exact if_pos hs
    simp only [marshalCalls, hcall]
    rfl
  · rw [if_neg hs] at h
    obtain ⟨⟨cs, hcs⟩, hb⟩ := pending_of_marshal (m := marshalSetBuffer m₀ space) rfl hs h
    have hbounded : m₀.Bounded := ⟨hb.objects, hb.pointers⟩
    have hm' : m' = (marshalSetBuffer m₀ space).finish cs.flatten := by
      have hspec := marshal_spec addr htype rfl hb (Nat.zero_le _) hs hcs
      split at hspec
      · rw [h, some.injEq, Prod.mk.injEq] at hspec
        exact hspec.2
      · obtain ⟨_, hcall, _⟩ := hspec
        rw [h] at hcall
        cases hcall
    subst hm'
    obtain ⟨finished, produced, m'', hcalls, htrue, hfalse, hfit⟩ :=
      marshalCalls_spec addr htype hbounded hs hcs (n :: ns)
    refine ⟨finished, produced, m'', ?_, htrue, fun hf _ => ⟨m₀, hstart, hfalse hf⟩, hfit⟩
    have hcall : marshal T mem (marshalSetBuffer m n) addr type =
        marshal T mem (marshalSetBuffer m₀ n) addr type := by
      rw [marshal_eq_start n htype, hstart]
      exact if_neg hs
    rw [← hcalls]
    simp only [marshalCalls, hcall]

/-! ## Unmarshalling -/

theorem unmarshalCalls_spec {stream : List UInt8} {root : Mob} {u' : Unmarshaller} (ns : List ℕ) :
    ∀ {u v : Unmarshaller}, Completes T root u' v → v.buf = stream → u.SameButBuffer v →
      ∃ r consumed w, unmarshalCalls T stream v.outdex u ns = some (r, consumed, w) ∧
        (∀ r', r = some r' → r' = root ∧ consumed = u'.outdex ∧ w.SameButBuffer u') ∧
        (r = none → ∃ x, Items T v x ∧ consumed = x.outdex ∧ w.SameButBuffer x) ∧
        ((∃ n ∈ ns, stream.length ≤ n) → r ≠ none) := by
  induction ns with
  | nil =>
    intro u v _ _ hsame
    refine ⟨none, v.outdex, u, rfl, fun _ h => absurd h (by simp),
      fun _ => ⟨v, .refl v, rfl, hsame⟩, ?_⟩
    rintro ⟨n, hn, _⟩
    cases hn
  | cons n ns ih =>
    intro u v hc hbuf hsame
    have hwin : unmarshalSetBuffer u ((stream.drop v.outdex).take n) =
        v.window v.outdex ((stream.drop v.outdex).take n) := by
      have := congrArg (fun x => unmarshalSetBuffer x ((stream.drop v.outdex).take n)) hsame
      simpa [unmarshalSetBuffer, Unmarshaller.window] using this
    have hs : v.Sees v.outdex ((stream.drop v.outdex).take n) :=
      ⟨Nat.le_refl _, hbuf ▸ take_prefix _ _⟩
    unfold unmarshalCalls
    rw [hwin]
    rcases unmarshal_window hc hs with ⟨hcall, hs'⟩ | ⟨x, hi, hsx, hcall, hcx, hlt⟩
    · rw [hcall]
      refine ⟨some root, _, _, rfl, ?_, fun h => absurd h (by simp), fun _ => by simp⟩
      intro r' hr'
      cases hr'
      exact ⟨rfl, Nat.add_sub_cancel' hs'.skip_le, rfl⟩
    · rw [hcall]
      have hcons : v.outdex + unmarshalConsumed (x.window v.outdex
          ((stream.drop v.outdex).take n)) = x.outdex := Nat.add_sub_cancel' hsx.skip_le
      obtain ⟨r, consumed, w, hcalls, hsome, hnone, hfit⟩ :=
        ih (u := x.window v.outdex ((stream.drop v.outdex).take n)) hcx
          (hi.buf_eq.trans hbuf) rfl
      simp only [hcons]
      refine ⟨r, consumed, w, hcalls, hsome, ?_, ?_⟩
      · intro hr
        obtain ⟨y, hy, hcy, hsy⟩ := hnone hr
        exact ⟨y, hi.trans hy, hcy, hsy⟩
      · rintro ⟨k, hk, hle⟩
        rcases mem_cons.mp hk with rfl | hk
        · rw [take_of_length_le (by rw [length_drop]; omega), length_drop,
            hbuf] at hlt
          omega
        · exact hfit ⟨k, hk, hle⟩

/-- **Piecemeal is one-shot.** -/
theorem piecemeal_eq_oneShot (T : TypeTable) :
    (∀ mem m addr type space m',
      marshal T mem (marshalSetBuffer m space) addr type = some (true, m') →
      ∀ ns, ∃ finished produced m'',
        marshalCalls T mem addr type m ns = some (finished, produced, m'') ∧
        (finished = true → produced = m'.written ∧ m''.SameButBuffer m') ∧
        (finished = false → ns ≠ [] → ∃ m₀, marshalStart T mem addr type m = some m₀ ∧
          BetweenChunks T mem m₀ m'' m'.written produced) ∧
        ((∃ n ∈ ns, m'.written.length ≤ n) → finished = true)) ∧
    (∀ u stream root u',
      unmarshal T (unmarshalSetBuffer u stream) = some (some root, u') →
      ∀ ns, ∃ r consumed w,
        unmarshalCalls T stream 0 u ns = some (r, consumed, w) ∧
        (∀ r', r = some r' → r' = root ∧ consumed = unmarshalConsumed u' ∧ w.SameButBuffer u') ∧
        (r = none → ∃ x, Items T (unmarshalSetBuffer u stream) x ∧ consumed = x.outdex ∧
          w.SameButBuffer x) ∧
        ((∃ n ∈ ns, stream.length ≤ n) → r ≠ none)) := by
  refine ⟨fun mem m addr type space m' h ns => marshalCalls_of_marshal h ns, ?_⟩
  intro u stream root u' h ns
  exact unmarshalCalls_spec ns (completes_of_unmarshal h) rfl rfl

/-- A byte; a structure of a byte and a pointer to such a structure. -/
def nodeTable : TypeTable := [.basic 1, .struct 8 [.member 0 0, .pointer 4 1]]

/-- Two structures that point at each other. -/
def nodeCycle : Memory :=
  [⟨8, fun _ => 7, fun _ => some ⟨1, 0⟩⟩, ⟨8, fun _ => 9, fun _ => some ⟨0, 0⟩⟩]

/-- Their stream: two objects, the end marker, two indexes. -/
def nodeStream : List UInt8 := [1, 7, 1, 9, 255, 2, 1]

theorem piecemeal_eq_oneShot_cycle :
    (∃ m'', marshalCalls nodeTable nodeCycle ⟨0, 0⟩ 1 marshalInit [0, 3, 2, 1, 7] =
      some (true, nodeStream, m'')) ∧
    ∃ root w, unmarshalCalls nodeTable nodeStream 0 (unmarshalInit []) [0, 3, 2, 1, 7] =
      some (some root, nodeStream.length, w) := by
  obtain ⟨hmarshal, hunmarshal⟩ := piecemeal_eq_oneShot nodeTable
  constructor
  · have hone : (marshal nodeTable nodeCycle (marshalSetBuffer marshalInit 7) ⟨0, 0⟩ 1).map
        (fun r => (r.1, r.2.written)) = some (true, nodeStream) := by decide
    obtain ⟨⟨_, m'⟩, h, hr⟩ := Option.map_eq_some_iff.mp hone
    obtain ⟨rfl, hw⟩ := Prod.mk.inj hr
    obtain ⟨finished, produced, m'', hcalls, htrue, _, hfit⟩ :=
      hmarshal _ _ _ _ _ _ h [0, 3, 2, 1, 7]
    have hfinished := hfit ⟨7, by simp, by rw [hw]; decide⟩
    rw [hfinished, (htrue hfinished).1, hw] at hcalls
    exact ⟨m'', hcalls⟩
  · have hone : (unmarshal nodeTable (unmarshalSetBuffer (unmarshalInit []) nodeStream)).map
        (fun r => (r.1.isSome, unmarshalConsumed r.2)) = some (true, nodeStream.length) := by decide
    obtain ⟨⟨r, u'⟩, h, hr⟩ := Option.map_eq_some_iff.mp hone
    obtain ⟨hsome, hconsumed⟩ := Prod.mk.inj hr
    obtain ⟨root, rfl⟩ := Option.isSome_iff_exists.mp hsome
    obtain ⟨r, consumed, w, hcalls, heq, _, hfit⟩ := hunmarshal _ _ _ _ h [0, 3, 2, 1, 7]
    obtain ⟨root', rfl⟩ := Option.ne_none_iff_exists'.mp (hfit ⟨7, by simp, by decide⟩)
    rw [(heq _ rfl).2.1, hconsumed] at hcalls
    exact ⟨root', w, hcalls⟩

end Mh40.Marshal
