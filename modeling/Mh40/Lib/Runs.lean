import Mathlib.Algebra.Order.Ring.Nat
import Mathlib.Data.List.Nodup

/-!
# Maximal runs

A run is a block of consecutive numbers that have a property, given by its start and its length, and
it is maximal when it cannot be made longer on either side.

* `IsRun` — a maximal run, `Runs` — a list of all of them, in ascending order;
* `Runs.erase` — the runs that are left when the numbers of one run lose the property;
* `scanRuns` — a scan from 0 on that closes each run at the first number behind it,
  `scanned_scanRuns` that it finds them all.
-/

namespace Mh40.Lib

open List

/-- `r.1` is the start and `r.2` the length of a maximal run of the numbers with `p`. -/
structure IsRun (p : ℕ → Prop) (r : ℕ × ℕ) : Prop where
  pos : 0 < r.2
  all : ∀ i, r.1 ≤ i → i < r.1 + r.2 → p i
  before : ∀ i, i + 1 = r.1 → ¬p i
  after : ¬p (r.1 + r.2)

/-- The maximal runs, each once and in ascending order. -/
structure Runs (p : ℕ → Prop) (rs : List (ℕ × ℕ)) : Prop where
  ascending : rs.Pairwise fun r s => r.1 < s.1
  mem_iff : ∀ r, r ∈ rs ↔ IsRun p r

/-- The numbers of a run. -/
def InRun (r : ℕ × ℕ) (i : ℕ) : Prop := r.1 ≤ i ∧ i < r.1 + r.2

section Runs

variable {p q : ℕ → Prop} {r s : ℕ × ℕ} {rs : List (ℕ × ℕ)} {i : ℕ} {n : ℕ}

theorem IsRun.inRun (h : IsRun p r) : InRun r r.1 := ⟨le_rfl, by have := h.pos; omega⟩

theorem IsRun.congr (h : ∀ i, p i ↔ q i) : IsRun p r ↔ IsRun q r := by
  rw [show p = q from funext fun i => propext (h i)]

/-- A run that starts in another one does not go past its start. -/
theorem IsRun.start_le (hr : IsRun p r) (hs : IsRun p s) (hri : InRun r i) (hsi : InRun s i) :
    r.1 ≤ s.1 := by
  obtain ⟨hri, -⟩ := hri
  obtain ⟨-, hsi⟩ := hsi
  by_contra hlt
  exact hr.before (r.1 - 1) (by omega) (hs.all _ (by omega) (by omega))

theorem IsRun.end_le (hr : IsRun p r) (hs : IsRun p s) (hri : InRun r i) (hsi : InRun s i) :
    s.1 + s.2 ≤ r.1 + r.2 := by
  obtain ⟨-, hri⟩ := hri
  obtain ⟨hsi, -⟩ := hsi
  by_contra hlt
  exact hr.after (hs.all _ (by omega) (by omega))

/-- A number is in one run at most. -/
theorem IsRun.unique (hr : IsRun p r) (hs : IsRun p s) (hri : InRun r i) (hsi : InRun s i) :
    r = s := by
  have h1 := hr.start_le hs hri hsi
  have h2 := hs.start_le hr hsi hri
  have h3 := hr.end_le hs hri hsi
  have h4 := hs.end_le hr hsi hri
  exact Prod.ext (by omega) (by omega)

/-- Between two runs there is a gap. -/
theorem IsRun.gap (hr : IsRun p r) (hs : IsRun p s) (h : r.1 < s.1) : r.1 + r.2 < s.1 := by
  by_contra hlt
  have hpos := hs.pos
  have hne : r.1 + r.2 ≠ s.1 := fun he => hr.after (hs.all _ he.ge (by omega))
  have := hr.unique hs (i := s.1) ⟨h.le, by omega⟩ hs.inRun
  rw [this] at h
  exact lt_irrefl _ h

theorem exists_start (hi : p i) :
    ∃ a ≤ i, (∀ j, a ≤ j → j ≤ i → p j) ∧ ∀ j, j + 1 = a → ¬p j := by
  induction i with
  | zero => exact ⟨0, le_rfl, fun j _ hj => by rwa [Nat.le_zero.mp hj], fun j hj => by omega⟩
  | succ i ih =>
    by_cases hp : p i
    · obtain ⟨a, ha, hall, hbefore⟩ := ih hp
      refine ⟨a, by omega, fun j hj hji => ?_, hbefore⟩
      rcases Nat.lt_or_eq_of_le hji with hlt | rfl
      · exact hall j hj (by omega)
      · exact hi
    · refine ⟨i + 1, le_rfl, fun j hj hji => ?_, fun j hj => ?_⟩
      · rwa [show j = i + 1 by omega]
      · rwa [show j = i by omega]

theorem exists_end {d : ℕ} (hn : ∀ j, p j → j < i + d) (hi : p i) :
    ∃ b, i < b ∧ (∀ j, i ≤ j → j < b → p j) ∧ ¬p b := by
  induction d generalizing i with
  | zero => exact absurd (hn i hi) (lt_irrefl _)
  | succ d ih =>
    by_cases hp : p (i + 1)
    · obtain ⟨b, hib, hall, hb⟩ := ih (fun j hj => by have := hn j hj; omega) hp
      refine ⟨b, by omega, fun j hij hjb => ?_, hb⟩
      rcases Nat.lt_or_eq_of_le hij with hlt | rfl
      · exact hall j hlt hjb
      · exact hi
    · exact ⟨i + 1, by omega, fun j hij hjb => by rwa [show j = i by omega], hp⟩

/-- Below a bound every number with the property is in a run. -/
theorem exists_isRun (hn : ∀ i, p i → i < n) (hi : p i) : ∃ r, IsRun p r ∧ InRun r i := by
  obtain ⟨a, hai, hstart, hbefore⟩ := exists_start hi
  obtain ⟨b, hib, hend, hafter⟩ := exists_end (d := n) (fun j hj => by have := hn j hj; omega) hi
  refine ⟨(a, b - a), ⟨by dsimp only; omega, fun j hj hjb => ?_, hbefore, ?_⟩, hai, by
    dsimp only; omega⟩
  · by_cases hji : j ≤ i
    · exact hstart j hj hji
    · exact hend j (by omega) (by dsimp only at hjb; omega)
  · rwa [show a + (b - a) = b by omega]

/-- Taking the property from the numbers of one run takes that run away. -/
theorem isRun_without_iff (hr : IsRun p r) :
    IsRun (fun i => p i ∧ ¬InRun r i) s ↔ IsRun p s ∧ s ≠ r := by
  constructor
  · intro h
    have hmem := h.all s.1 le_rfl (by have := h.pos; omega)
    refine ⟨⟨h.pos, fun i h1 h2 => (h.all i h1 h2).1, fun i hi hp => ?_, fun hp => ?_⟩, ?_⟩
    · refine h.before i hi ⟨hp, fun hin => hr.after ?_⟩
      have : r.1 + r.2 = s.1 := by
        have hout := hmem.2
        unfold InRun at hin hout
        omega
      rw [this]
      exact hmem.1
    · refine h.after ⟨hp, fun hin => ?_⟩
      have hlast := h.all (s.1 + s.2 - 1) (by have := h.pos; omega) (by have := h.pos; omega)
      have hpos := h.pos
      refine hr.before (s.1 + s.2 - 1) ?_ hlast.1
      have hout := hlast.2
      unfold InRun at hin hout
      omega
    · rintro rfl
      exact hmem.2 hr.inRun
  · rintro ⟨hs, hne⟩
    refine ⟨hs.pos, fun i h1 h2 => ⟨hs.all i h1 h2, fun hin => hne (hs.unique hr ⟨h1, h2⟩ hin)⟩,
      fun i hi h => hs.before i hi h.1, fun h => hs.after h.1⟩

theorem Runs.congr (h : ∀ i, p i ↔ q i) : Runs p rs ↔ Runs q rs := by
  rw [show p = q from funext fun i => propext (h i)]

section

variable (h : Runs p rs)
include h

theorem Runs.nodup : rs.Nodup :=
  h.ascending.imp fun hlt he => by rw [he] at hlt; exact lt_irrefl _ hlt

theorem Runs.erase (hr : r ∈ rs) :
    Runs (fun i => p i ∧ ¬InRun r i) (rs.erase r) where
  ascending := h.ascending.sublist erase_sublist
  mem_iff s := by
    rw [h.nodup.mem_erase_iff, h.mem_iff, isRun_without_iff ((h.mem_iff r).mp hr), and_comm]

/-- The list of the runs is unique. -/
theorem Runs.unique {rs' : List (ℕ × ℕ)} (h' : Runs p rs') : rs = rs' := by
  have hperm : rs.Perm rs' := (perm_ext_iff_of_nodup h.nodup h'.nodup).mpr fun r => by
    rw [h.mem_iff, h'.mem_iff]
  refine hperm.eq_of_pairwise (fun a b _ _ hab hba => ?_) h.ascending h'.ascending
  exact absurd hba (lt_asymm hab)

/-- There is no run iff nothing has the property. -/
theorem Runs.eq_nil_iff (hn : ∀ i, p i → i < n) : rs = [] ↔ ∀ i, ¬p i := by
  constructor
  · rintro rfl i hi
    obtain ⟨r, hr, -⟩ := exists_isRun hn hi
    exact not_mem_nil ((h.mem_iff r).mpr hr)
  · intro hnone
    refine eq_nil_iff_forall_not_mem.mpr fun r hr => ?_
    have hrun := (h.mem_iff r).mp hr
    exact hnone r.1 (hrun.all _ hrun.inRun.1 hrun.inRun.2)

/-- Each run starts at least two numbers behind the one before it. -/
theorem Runs.two_mul_le {k : ℕ} (hk : k < rs.length) : 2 * k ≤ rs[k].1 := by
  induction k with
  | zero => exact Nat.zero_le _
  | succ k ih =>
    have ih := ih (by omega)
    have hr := (h.mem_iff _).mp (getElem_mem (show k < rs.length by omega))
    have hgap := hr.gap ((h.mem_iff _).mp (getElem_mem hk))
      (pairwise_iff_getElem.mp h.ascending k (k + 1) (by omega) hk (by omega))
    have := hr.pos
    omega

end

/-- The runs from `a` on do not take more numbers than there are. -/
theorem sum_lengths_le {a n : ℕ} (hgap : rs.Pairwise fun r s => r.1 + r.2 < s.1)
    (hin : ∀ r ∈ rs, a ≤ r.1 ∧ r.1 + r.2 ≤ n) (ha : a ≤ n) : a + (rs.map Prod.snd).sum ≤ n := by
  induction rs generalizing a with
  | nil => simpa using ha
  | cons r rs ih =>
    obtain ⟨har, hrn⟩ := hin r mem_cons_self
    rw [pairwise_cons] at hgap
    have := ih hgap.2 (a := r.1 + r.2) (fun s hs =>
      ⟨(hgap.1 s hs).le, (hin s (mem_cons_of_mem _ hs)).2⟩) hrn
    rw [map_cons, sum_cons]
    omega

theorem Runs.gaps (h : Runs p rs) : rs.Pairwise fun r s => r.1 + r.2 < s.1 :=
  h.ascending.imp_of_mem fun hr hs hlt =>
    ((h.mem_iff _).mp hr).gap ((h.mem_iff _).mp hs) hlt

/-- Below a bound the runs have no more numbers than the bound. -/
theorem Runs.sum_le (h : Runs p rs) (hn : ∀ i, p i → i < n) :
    (rs.map Prod.snd).sum ≤ n := by
  have := sum_lengths_le (a := 0) (n := n) h.gaps (fun r hr => ⟨Nat.zero_le _, ?_⟩) (Nat.zero_le _)
  · omega
  · have hrun := (h.mem_iff r).mp hr
    have := hn _ (hrun.all (r.1 + r.2 - 1) (by have := hrun.pos; omega) (by
      have := hrun.pos
      omega))
    omega

end Runs

/-! ## The scan -/

/-- One number of the scan: the runs that are closed, and the start and the length of the one that
is open, `(0, 0)` between two runs. -/
def scanNext (p : ℕ → Bool) (n : ℕ) (st : List (ℕ × ℕ) × ℕ × ℕ) : List (ℕ × ℕ) × ℕ × ℕ :=
  if p n then (st.1, if st.2.2 = 0 then (n, 1) else (st.2.1, st.2.2 + 1))
  else (if st.2.2 = 0 then st.1 else st.1 ++ [st.2], (0, 0))

/-- The scan of the numbers below `n`. -/
def scanRuns (p : ℕ → Bool) : ℕ → List (ℕ × ℕ) × ℕ × ℕ
  | 0 => ([], (0, 0))
  | n + 1 => scanNext p n (scanRuns p n)

/-- The closed runs with the open one behind them. -/
def allRuns (st : List (ℕ × ℕ) × ℕ × ℕ) : List (ℕ × ℕ) :=
  if st.2.2 = 0 then st.1 else st.1 ++ [st.2]

section Scan

variable {p : ℕ → Bool} {n : ℕ}

/-- What a scan has found among the numbers below `n`. -/
structure Scanned (p : ℕ → Bool) (n : ℕ) (st : List (ℕ × ℕ) × ℕ × ℕ) : Prop where
  runs : Runs (fun i => i < n ∧ p i = true) (allRuns st)
  open_end : st.2.2 ≠ 0 → st.2.1 + st.2.2 = n
  closed_end : ∀ r ∈ st.1, r.1 + r.2 < n
  idle : st.2.2 = 0 → st.2 = (0, 0) ∧ ∀ i, i + 1 = n → p i = false

/-- A number without the property changes none of the runs below it. -/
theorem below_succ_of_false (hp : p n = false) (i : ℕ) :
    (i < n + 1 ∧ p i = true) ↔ i < n ∧ p i = true := by
  constructor
  · rintro ⟨hi, h⟩
    refine ⟨Nat.lt_of_le_of_ne (by omega) ?_, h⟩
    rintro rfl
    rw [hp] at h
    cases h
  · rintro ⟨hi, h⟩
    exact ⟨by omega, h⟩

/-- The run that ends with `n` is the only one that `n` is in. -/
theorem isRun_below_succ_iff {a len : ℕ} (hp : p n = true) (ha : a + len = n)
    (hall : ∀ i, a ≤ i → i < n → p i = true) (hbefore : ∀ i, i + 1 = a → p i = false)
    (r : ℕ × ℕ) : IsRun (fun i => i < n + 1 ∧ p i = true) r ↔
      r = (a, len + 1) ∨ IsRun (fun i => i < n ∧ p i = true) r ∧ r.1 + r.2 < a := by
  have hrun : IsRun (fun i => i < n + 1 ∧ p i = true) (a, len + 1) := by
    refine ⟨Nat.succ_pos _, fun i h1 h2 => ?_, fun i hi h => ?_, fun h => ?_⟩
    · refine ⟨by dsimp only at h2; omega, ?_⟩
      by_cases hin : i = n
      · rwa [hin]
      · exact hall i h1 (by dsimp only at h2; omega)
    · rw [hbefore i hi] at h
      cases h.2
    · have := h.1
      dsimp only at this
      omega
  constructor
  · intro hr
    have hpos := hr.pos
    have hend := (hr.all (r.1 + r.2 - 1) (by omega) (by omega)).1
    by_cases hlt : r.1 < a
    · have hgap := hr.gap hrun hlt
      refine .inr ⟨⟨hpos, fun i h1 h2 => ⟨?_, (hr.all i h1 h2).2⟩, fun i hi h =>
        hr.before i hi ⟨by omega, h.2⟩, fun h => hr.after ⟨by omega, h.2⟩⟩, hgap⟩
      dsimp only at hgap
      omega
    · refine .inl (hr.unique hrun (i := r.1) hr.inRun ⟨by dsimp only; omega, ?_⟩)
      dsimp only
      omega
  · rintro (rfl | ⟨hr, hlt⟩)
    · exact hrun
    · refine ⟨hr.pos, fun i h1 h2 => ⟨by omega, (hr.all i h1 h2).2⟩,
        fun i hi h => hr.before i hi ⟨by have := hr.pos; omega, h.2⟩,
        fun h => hr.after ⟨by omega, h.2⟩⟩

/-- Where the open run starts, or would start; the runs in front of it are the closed ones. -/
theorem Scanned.exists_tip {st : List (ℕ × ℕ) × ℕ × ℕ} (h : Scanned p n st) :
    ∃ a, a + st.2.2 = n ∧ (st.2.2 ≠ 0 → st.2.1 = a) ∧ (∀ i, a ≤ i → i < n → p i = true) ∧
      (∀ i, i + 1 = a → p i = false) ∧
      ∀ r, r ∈ st.1 ↔ IsRun (fun i => i < n ∧ p i = true) r ∧ r.1 + r.2 < a := by
  by_cases hlen : st.2.2 = 0
  · refine ⟨n, by omega, fun hne => absurd hlen hne, fun i h1 h2 => by omega, (h.idle hlen).2,
      fun r => ?_⟩
    have hmem := h.runs.mem_iff r
    rw [allRuns, if_pos hlen] at hmem
    rw [← hmem]
    exact ⟨fun hr => ⟨hr, h.closed_end r hr⟩, fun hr => hr.1⟩
  · have hruns := h.runs
    rw [allRuns, if_neg hlen] at hruns
    have hopen := (hruns.mem_iff st.2).mp (by simp)
    have hend := h.open_end hlen
    refine ⟨st.2.1, hend, fun _ => rfl, fun i h1 h2 => (hopen.all i h1 (by omega)).2,
      fun i hi => ?_, fun r => ?_⟩
    · have hb := hopen.before i hi
      by_contra hp
      exact hb ⟨by omega, by simpa using hp⟩
    · rw [← hruns.mem_iff]
      constructor
      · intro hr
        have hmem : r ∈ st.1 ++ [st.2] := mem_append_left _ hr
        refine ⟨hmem, ((hruns.mem_iff r).mp hmem).gap hopen ?_⟩
        exact (pairwise_append.mp hruns.ascending).2.2 r hr st.2 (mem_singleton_self _)
      · rintro ⟨hr, hlt⟩
        rcases mem_append.mp hr with hr | hr
        · exact hr
        · rw [mem_singleton.mp hr] at hlt
          omega

/-- One number of the scan. -/
theorem Scanned.next {st : List (ℕ × ℕ) × ℕ × ℕ} (h : Scanned p n st) :
    Scanned p (n + 1) (scanNext p n st) := by
  cases hp : p n with
  | true =>
    obtain ⟨a, ha, hstart, hall, hbefore, hclosed⟩ := h.exists_tip
    have hnext : scanNext p n st = (st.1, (a, st.2.2 + 1)) := by
      rw [scanNext, if_pos hp]
      by_cases hlen : st.2.2 = 0
      · rw [if_pos hlen, hlen, show n = a by omega]
      · rw [if_neg hlen, hstart hlen]
    rw [hnext]
    refine ⟨⟨?_, fun r => ?_⟩, fun _ => by dsimp only; omega, fun r hr => ?_, fun h0 => by cases h0⟩
    · rw [allRuns, if_neg (Nat.succ_ne_zero _), pairwise_append]
      refine ⟨?_, pairwise_singleton _ _, fun r hr s hs => ?_⟩
      · refine h.runs.ascending.sublist ?_
        rw [allRuns]
        split_ifs
        · exact Sublist.refl _
        · exact sublist_append_left _ _
      · have := (hclosed r).mp hr
        rw [mem_singleton.mp hs]
        dsimp only
        omega
    · rw [isRun_below_succ_iff hp ha hall hbefore, ← hclosed, allRuns, if_neg (Nat.succ_ne_zero _),
        mem_append, mem_singleton, or_comm]
    · have := h.closed_end r hr
      omega
  | false =>
    have hnext : scanNext p n st = (allRuns st, (0, 0)) := by rw [scanNext, if_neg (by simp [hp])]; rfl
    rw [hnext]
    refine ⟨?_, fun h0 => absurd rfl h0, fun r hr => ?_, fun _ => ⟨rfl, fun i hi => ?_⟩⟩
    · rw [allRuns, if_pos rfl, Runs.congr (below_succ_of_false hp)]
      exact h.runs
    · dsimp only [allRuns] at hr
      split_ifs at hr with hlen
      · have := h.closed_end r hr
        omega
      · rcases mem_append.mp hr with hr | hr
        · have := h.closed_end r hr
          omega
        · have := h.open_end hlen
          rw [mem_singleton.mp hr]
          omega
    · rwa [show i = n by omega]

theorem scanned_scanRuns (p : ℕ → Bool) (n : ℕ) : Scanned p n (scanRuns p n) := by
  induction n with
  | zero =>
    refine ⟨⟨List.Pairwise.nil, fun r => ?_⟩, fun h => absurd rfl h, fun r hr => ?_,
      fun _ => ⟨rfl, fun i hi => by omega⟩⟩
    · refine iff_of_false not_mem_nil fun hr => ?_
      have := (hr.all r.1 le_rfl (by have := hr.pos; omega)).1
      omega
    · exact absurd hr not_mem_nil
  | succ n ih => exact ih.next

/-- What a scan has closed it keeps. -/
theorem closed_of_take (p : ℕ → Bool) {n k : ℕ} (h : n ≤ k) :
    (scanRuns p n).1 <+: (scanRuns p k).1 := by
  induction h with
  | refl => exact prefix_rfl
  | step _ ih =>
    refine ih.trans ?_
    rw [scanRuns, scanNext]
    split_ifs
    · exact prefix_rfl
    · exact prefix_rfl
    · exact prefix_rfl
    · exact prefix_append _ _

theorem closed_take_allRuns (p : ℕ → Bool) {n k : ℕ} (h : n ≤ k) :
    (scanRuns p n).1 <+: allRuns (scanRuns p k) := by
  refine (closed_of_take p h).trans ?_
  rw [allRuns]
  split_ifs
  · exact prefix_rfl
  · exact prefix_append _ _

end Scan

end Mh40.Lib
