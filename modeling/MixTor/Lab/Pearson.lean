/-
  MixTor.Lab.Pearson

  The statistics of the lab's adversary (correlation_attack.rs): mean, variance and the
  correlation coefficient of two series, and its peak over a window of lags.

  The arithmetic is a parameter: that of f64, or an exact one.  What is constant is
  correlated with nothing in both; in exact arithmetic the peak is between 0 and 1,
  and it is 1 for a series that follows the other with a delay.
-/

import MixTor.Lab.VolumeAttack
import MixTor.Lib.Correlation
import Mathlib.Algebra.BigOperators.Fin
import Mathlib.Analysis.Real.Sqrt

namespace MixTor

variable {K : Type*} [Field K] [LinearOrder K]

/-- The arithmetic of the statistics: how a result is rounded, and the square root. -/
structure Arith (K : Type*) where
  round : K → K
  sqrt : K → K

namespace Arith

/-- The arithmetic of f64. -/
def ofF64 (F : F64) (sqrt : Rat → Rat) : Arith Rat := ⟨F.round, sqrt⟩

variable (A : Arith K)

def add (x y : K) : K := A.round (x + y)
def sub (x y : K) : K := A.round (x - y)
def mul (x y : K) : K := A.round (x * y)
def div (x y : K) : K := A.round (x / y)

/-- `iter().sum::<f64>()`. -/
def sum (xs : List K) : K := xs.foldl A.add 0

/-- What the attacks need of the arithmetic of f64: rounding is monotone, a rounded value
    and the whole numbers up to 2^53 are representable, and the root of 0 is 0. -/
structure Lawful (A : Arith K) : Prop where
  round_mono : Monotone A.round
  round_natCast : ∀ n : ℕ, n ≤ 2 ^ 53 → A.round n = n
  round_round : ∀ x, A.round (A.round x) = A.round x
  sqrt_zero : A.sqrt 0 = 0

/-- Nothing is rounded, and squares have roots. -/
structure Exact (A : Arith K) : Prop where
  round_eq : ∀ x, A.round x = x
  isSqrt : Correlation.IsSqrt A.sqrt

theorem lawful_ofF64 {F : F64} (hF : F.Nearest) {sqrt : Rat → Rat} (h : sqrt 0 = 0) :
    (ofF64 F sqrt).Lawful :=
  ⟨hF.round_mono, hF.round_natCast, hF.round_round, h⟩

variable {A}

theorem Lawful.round_zero (hA : A.Lawful) : A.round 0 = 0 := by
  simpa using hA.round_natCast 0 (Nat.zero_le _)

end Arith

-- ============================================================================
-- The statistics
-- ============================================================================

/-- `mean`. -/
def mean (A : Arith K) (xs : List K) : K :=
  if xs.isEmpty then 0 else A.div (A.sum xs) (A.round (xs.length : ℕ))

/-- `variance`. -/
def variance (A : Arith K) (xs : List K) : K :=
  if xs.isEmpty then 0
  else
    let m := mean A xs
    A.div (A.sum (xs.map fun x => A.mul (A.sub x m) (A.sub x m))) (A.round (xs.length : ℕ))

/-- What the loop of `pearson` sums up. -/
structure Moments (K : Type*) where
  num : K
  da2 : K
  db2 : K

/-- The body of the loop. -/
def Moments.add (A : Arith K) (ma mb : K) (m : Moments K) (w : K × K) : Moments K :=
  let da := A.sub w.1 ma
  let db := A.sub w.2 mb
  ⟨A.add m.num (A.mul da db), A.add m.da2 (A.mul da da), A.add m.db2 (A.mul db db)⟩

/-- `pearson`. -/
def pearson (A : Arith K) (a b : List Rat) : K :=
  let n := min a.length b.length
  if n < 2 then 0
  else
    let a : List K := (a.take n).map fun x : Rat => (x : K)
    let b : List K := (b.take n).map fun x : Rat => (x : K)
    let m := (a.zip b).foldl (Moments.add A (mean A a) (mean A b)) ⟨0, 0, 0⟩
    let den := A.mul (A.sqrt m.da2) (A.sqrt m.db2)
    if den = 0 then 0 else A.div m.num den

-- ============================================================================
-- The window of lags
-- ============================================================================

/-- A lag that is searched, for series of `n` bins: half of the bins, and three of them,
    overlap. -/
def InWindow (n maxLag : ℕ) (lag : Int) : Prop :=
  lag.natAbs ≤ maxLag ∧ max (n / 2) 3 ≤ n - lag.natAbs

/-- The peak is the correlation at a lag of the window, or nothing is correlated; and no
    lag of the window has more. -/
theorem peak_spec (p : List Rat → List Rat → K) (a b : List Rat) (maxLag : ℕ) :
    (peakCrossCorrelation p a b maxLag = (0, 0) ∨
      ∃ lag, InWindow (min a.length b.length) maxLag lag ∧
        peakCrossCorrelation p a b maxLag = (lag, |shiftedPearson p a b lag|)) ∧
    ∀ lag, InWindow (min a.length b.length) maxLag lag →
      |shiftedPearson p a b lag| ≤ (peakCrossCorrelation p a b maxLag).2 := by
  unfold peakCrossCorrelation
  dsimp only
  generalize min a.length b.length = n
  constructor
  · refine (RunningMax.best_eq_or_mem Prod.snd _ _).imp_right fun hmem => ?_
    obtain ⟨lag, hlag, heq⟩ := List.mem_map.mp hmem
    obtain ⟨hlag, hover⟩ := List.mem_filter.mp hlag
    obtain ⟨i, hi, rfl⟩ := List.mem_map.mp hlag
    rw [decide_eq_true_eq] at hover
    exact ⟨_, ⟨by have := List.mem_range.mp hi; omega, hover⟩, heq.symm⟩
  · rintro lag ⟨hle, hover⟩
    have hwindow : lag.natAbs ≤ min maxLag (n - max (n / 2) 3) := by omega
    generalize min maxLag (n - max (n / 2) 3) = m at hwindow
    have hlag : lag ∈ (List.range (2 * m + 1)).map fun i : Nat => (i : Int) - m :=
      List.mem_map.mpr ⟨(lag + m).toNat, List.mem_range.mpr (by omega), by omega⟩
    have hsearched := List.mem_filter (p := fun lag : Int =>
      decide (max (n / 2) 3 ≤ n - lag.natAbs)).mpr ⟨hlag, decide_eq_true hover⟩
    exact RunningMax.le_best Prod.snd ((0 : Int), (0 : K))
      (List.mem_map_of_mem (f := fun lag => (lag, |shiftedPearson p a b lag|)) hsearched)

-- ============================================================================
-- A constant series
-- ============================================================================

section Constant

variable {A : Arith K}

/-- Equal whole numbers are added up exactly, up to 2^53. -/
theorem foldl_add_replicate (hA : A.Lawful) (c n s : ℕ) (h : s + n * c ≤ 2 ^ 53) :
    (List.replicate n (c : K)).foldl A.add (s : K) = ((s + n * c : ℕ) : K) := by
  induction n generalizing s with
  | zero => rw [Nat.zero_mul, Nat.add_zero]; rfl
  | succ n ih =>
      rw [Nat.succ_mul] at h ⊢
      have hs : A.add (s : K) c = ((s + c : ℕ) : K) := by
        rw [Arith.add, ← Nat.cast_add]
        exact hA.round_natCast _ (by omega)
      rw [List.replicate_succ, List.foldl_cons, hs, ih (s + c) (by omega)]
      congr 1
      omega

theorem sum_replicate (hA : A.Lawful) {c n : ℕ} (h : n * c ≤ 2 ^ 53) :
    A.sum (List.replicate n (c : K)) = (n * c : ℕ) := by
  have hfold := foldl_add_replicate hA c n 0 (by omega)
  rwa [Nat.cast_zero, Nat.zero_add] at hfold

/-- The mean of equal whole numbers is that number. -/
theorem mean_replicate [CharZero K] (hA : A.Lawful) {c n : ℕ} (hn : 0 < n) (hlen : n ≤ 2 ^ 53)
    (h : n * c ≤ 2 ^ 53) : mean A (List.replicate n (c : K)) = c := by
  have hcle : c ≤ 2 ^ 53 := le_trans (Nat.le_mul_of_pos_left c hn) h
  have hne : (n : K) ≠ 0 := Nat.cast_ne_zero.mpr hn.ne'
  rw [mean, List.isEmpty_replicate, decide_eq_false hn.ne', sum_replicate hA h,
    List.length_replicate, hA.round_natCast n hlen, Arith.div, Nat.cast_mul,
    mul_div_cancel_left₀ _ hne]
  exact hA.round_natCast c hcle

theorem sum_of_zeros (hA : A.Lawful) {xs : List K} (h : ∀ x ∈ xs, x = 0) : A.sum xs = 0 := by
  have hsum : A.sum (List.replicate xs.length ((0 : ℕ) : K)) = (xs.length * 0 : ℕ) :=
    sum_replicate hA (by omega)
  rw [List.eq_replicate_of_mem h]
  rwa [Nat.cast_zero, Nat.mul_zero, Nat.cast_zero] at hsum

/-- Equal whole numbers do not vary. -/
theorem variance_replicate [CharZero K] (hA : A.Lawful) {c n : ℕ} (hlen : n ≤ 2 ^ 53)
    (h : n * c ≤ 2 ^ 53) : variance A (List.replicate n (c : K)) = 0 := by
  unfold variance
  split
  · rfl
  · next hne =>
    have hn : 0 < n := by
      rw [List.isEmpty_replicate, decide_eq_true_eq] at hne
      omega
    have hsum : A.sum ((List.replicate n (c : K)).map fun x => A.mul (A.sub x c) (A.sub x c))
        = 0 := by
      refine sum_of_zeros hA fun x hx => ?_
      obtain ⟨y, hy, rfl⟩ := List.mem_map.mp hx
      obtain rfl := List.eq_of_mem_replicate hy
      rw [Arith.sub, sub_self, hA.round_zero, Arith.mul, mul_zero, hA.round_zero]
    dsimp only
    rw [mean_replicate hA hn hlen h, hsum, Arith.div, zero_div, hA.round_zero]

/-- A deviation that is 0 all along adds up to 0. -/
theorem foldl_moments_da2 (hA : A.Lawful) {ma mb : K} {ws : List (K × K)}
    (h : ∀ w ∈ ws, w.1 = ma) {m : Moments K} (hm : m.da2 = 0) :
    (ws.foldl (Moments.add A ma mb) m).da2 = 0 := by
  induction ws generalizing m with
  | nil => exact hm
  | cons w ws ih =>
      obtain ⟨hw, hws⟩ := List.forall_mem_cons.mp h
      refine ih hws ?_
      rw [Moments.add, hm, hw]
      simp only [Arith.sub, Arith.mul, Arith.add, sub_self, hA.round_zero, mul_zero, add_zero]

/-- A constant series of whole numbers is correlated with nothing. -/
theorem pearson_replicate [CharZero K] (hA : A.Lawful) {c n : ℕ} (hlen : n ≤ 2 ^ 53)
    (h : n * c ≤ 2 ^ 53) (b : List Rat) : pearson A (List.replicate n (c : Rat)) b = 0 := by
  unfold pearson
  rw [List.length_replicate]
  dsimp only
  split
  · rfl
  · next h2 =>
    have hle : min n b.length ≤ n := min_le_left _ _
    have ha : ((List.replicate n (c : Rat)).take (min n b.length)).map (fun x : Rat => (x : K))
        = List.replicate (min n b.length) (c : K) := by
      rw [List.take_replicate, min_eq_left hle, List.map_replicate, Rat.cast_natCast]
    have hmean : mean A (List.replicate (min n b.length) (c : K)) = c :=
      mean_replicate hA (by omega) (hle.trans hlen) ((Nat.mul_le_mul_right c hle).trans h)
    rw [ha, hmean, foldl_moments_da2 hA (fun w hw =>
      List.eq_of_mem_replicate (List.of_mem_zip hw).1) rfl, hA.sqrt_zero, Arith.mul, zero_mul,
      hA.round_zero, if_pos rfl]

/-- Neither is a part of it. -/
theorem shiftedPearson_replicate [CharZero K] (hA : A.Lawful) {c n : ℕ} (hlen : n ≤ 2 ^ 53)
    (h : n * c ≤ 2 ^ 53) (b : List Rat) (lag : Int) :
    shiftedPearson (pearson A) (List.replicate n (c : Rat)) b lag = 0 := by
  unfold shiftedPearson
  dsimp only
  generalize hpairs : (List.range (min (List.replicate n (c : Rat)).length b.length)).filterMap
    _ = pairs
  have hfst : pairs.map Prod.fst = List.replicate pairs.length (c : Rat) := by
    rw [List.eq_replicate_iff, List.length_map]
    refine ⟨rfl, fun x hx => ?_⟩
    obtain ⟨w, hw, rfl⟩ := List.mem_map.mp hx
    rw [← hpairs, List.mem_filterMap] at hw
    obtain ⟨i, hi, hi'⟩ := hw
    rw [List.mem_range, List.length_replicate, lt_min_iff] at hi
    split at hi'
    · obtain rfl := Option.some.inj hi'
      simp [hi.1]
    · cases hi'
  have hle : pairs.length ≤ n := by
    rw [← hpairs]
    refine (List.length_filterMap_le _ _).trans ?_
    rw [List.length_range, List.length_replicate]
    exact min_le_left _ _
  rw [hfst]
  exact pearson_replicate hA (hle.trans hlen) ((Nat.mul_le_mul_right c hle).trans h) _

/-- A constant series has no peak. -/
theorem peak_replicate [IsStrictOrderedRing K] (hA : A.Lawful) {c n : ℕ} (hlen : n ≤ 2 ^ 53)
    (h : n * c ≤ 2 ^ 53) (b : List Rat) (maxLag : ℕ) :
    (peakCrossCorrelation (pearson A) (List.replicate n (c : Rat)) b maxLag).2 = 0 := by
  rcases (peak_spec (pearson A) (List.replicate n (c : Rat)) b maxLag).1 with hpeak |
    ⟨lag, -, hpeak⟩
  · rw [hpeak]
  · rw [hpeak, shiftedPearson_replicate hA hlen h, abs_zero]

end Constant

-- ============================================================================
-- In exact arithmetic
-- ============================================================================

section Exact

variable [IsStrictOrderedRing K] {A : Arith K}

/-- A series as a measurement of its first `n` bins. -/
def measure (K : Type*) [RatCast K] (a : List Rat) (n : ℕ) (i : Fin n) : K := (a.getD i 0 : Rat)

omit [LinearOrder K] [IsStrictOrderedRing K] in
theorem take_eq_ofFn {a : List Rat} {n : ℕ} (h : n ≤ a.length) :
    (a.take n).map (fun x : Rat => (x : K)) = List.ofFn (measure K a n) := by
  refine List.ext_getElem (by simp [h]) fun i hi hi' => ?_
  have hin : i < a.length := by
    rw [List.length_ofFn] at hi'
    exact hi'.trans_le h
  rw [List.getElem_map, List.getElem_take, List.getElem_ofFn, measure,
    List.getD_eq_getElem?_getD, List.getElem?_eq_getElem hin, Option.getD_some]

theorem mean_ofFn (hA : A.Exact) {n : ℕ} (f : Fin n → K) :
    mean A (List.ofFn f) = Finset.expect Finset.univ f := by
  rw [Fintype.expect_eq_sum_div_card, Fintype.card_fin, mean]
  split
  · next h =>
    rw [List.isEmpty_iff, List.ofFn_eq_nil_iff] at h
    subst h
    rw [Nat.cast_zero, div_zero]
  · have hadd : A.add = (· + ·) := funext₂ fun _ _ => hA.round_eq _
    rw [Arith.div, hA.round_eq, hA.round_eq, Arith.sum, hadd, ← List.sum_eq_foldl, List.sum_ofFn,
      List.length_ofFn]

omit [LinearOrder K] [IsStrictOrderedRing K] in
/-- The loop adds up the products of the deviations. -/
theorem foldl_moments (h : ∀ x, A.round x = x) (ma mb : K) (ws : List (K × K)) (m : Moments K) :
    ws.foldl (Moments.add A ma mb) m = ⟨m.num + (ws.map fun w => (w.1 - ma) * (w.2 - mb)).sum,
      m.da2 + (ws.map fun w => (w.1 - ma) * (w.1 - ma)).sum,
      m.db2 + (ws.map fun w => (w.2 - mb) * (w.2 - mb)).sum⟩ := by
  induction ws generalizing m with
  | nil => simp
  | cons w ws ih =>
      rw [List.foldl_cons, ih]
      simp only [Moments.add, Arith.add, Arith.sub, Arith.mul, h, List.map_cons, List.sum_cons,
        add_assoc]

/-- The correlation is the coefficient of the two series as measurements. -/
theorem pearson_exact (hA : A.Exact) (a b : List Rat) :
    pearson A a b = Correlation.coefficient A.sqrt (measure K a (min a.length b.length))
      (measure K b (min a.length b.length)) := by
  unfold pearson
  dsimp only
  have hla : min a.length b.length ≤ a.length := min_le_left _ _
  have hlb : min a.length b.length ≤ b.length := min_le_right _ _
  generalize min a.length b.length = n at hla hlb
  split
  · next h2 =>
    have hconst : ∃ c, ∀ i : Fin n, measure K a n i = c := by
      refine ⟨measure K a 1 0, fun i => ?_⟩
      rw [measure, measure, show i.1 = 0 by omega]
      rfl
    rw [Correlation.coefficient_of_const hA.isSqrt hconst]
  · have hzip : (List.ofFn (measure K a n)).zip (List.ofFn (measure K b n))
        = List.ofFn fun i => (measure K a n i, measure K b n i) :=
      List.ext_getElem (by simp) fun i _ _ => by simp
    have hmap : ∀ h : K × K → K, ((List.ofFn fun i => (measure K a n i, measure K b n i)).map h).sum
        = ∑ i, h (measure K a n i, measure K b n i) := fun h => by
      rw [List.map_ofFn, List.sum_ofFn]
      rfl
    rw [take_eq_ofFn hla, take_eq_ofFn hlb, hzip, foldl_moments hA.round_eq, hmap, hmap, hmap,
      mean_ofFn hA, mean_ofFn hA]
    simp only [zero_add, Arith.mul, Arith.div, hA.round_eq]
    rfl

/-- Series in other units have the same correlation. -/
theorem pearson_scale (hA : A.Exact) {c d : Rat} (hc : 0 < c) (hd : 0 < d) (a b : List Rat) :
    pearson A (a.map (c * ·)) (b.map (d * ·)) = pearson A a b := by
  have hgetD : ∀ (e : Rat) (xs : List Rat) (i : ℕ), (xs.map (e * ·)).getD i 0 = e * xs.getD i 0 := by
    intro e xs i
    rw [List.getD_eq_getElem?_getD, List.getD_eq_getElem?_getD, List.getElem?_map]
    cases xs[i]? with
    | none => exact (mul_zero e).symm
    | some x => rfl
  rw [pearson_exact hA, pearson_exact hA, List.length_map, List.length_map]
  refine Correlation.coefficient_scale hA.isSqrt (Rat.cast_pos.mpr hc) (Rat.cast_pos.mpr hd)
    (fun i => ?_) fun i => ?_
  · rw [measure, measure, hgetD, Rat.cast_mul]
  · rw [measure, measure, hgetD, Rat.cast_mul]

/-- The peak is a magnitude of correlation. -/
theorem peak_le_one (hA : A.Exact) (a b : List Rat) (maxLag : ℕ) :
    (peakCrossCorrelation (pearson A) a b maxLag).2 ≤ 1 := by
  rcases (peak_spec (pearson A) a b maxLag).1 with hpeak | ⟨lag, -, hpeak⟩
  · rw [hpeak]
    exact zero_le_one
  · rw [hpeak, shiftedPearson, pearson_exact hA]
    exact Correlation.abs_coefficient_le_one hA.isSqrt _ _

omit [Field K] [LinearOrder K] [IsStrictOrderedRing K] in
/-- A delay drops the first bins of one series and the last ones of the other. -/
theorem shiftedPearson_natCast (p : List Rat → List Rat → K) {a b : List Rat} {n k : ℕ}
    (ha : a.length = n) (hb : b.length = n) (hk : k ≤ n) :
    shiftedPearson p a b k = p (a.drop k) (b.take (n - k)) := by
  have hpairs : ((List.range n).filterMap fun i : Nat =>
      let j := (i : Int) - k
      if 0 ≤ j ∧ j < n then some (a.getD i 0, b.getD j.toNat 0) else none)
      = (List.range (n - k)).map fun i => (a.getD (k + i) 0, b.getD i 0) := by
    conv_lhs => rw [← Nat.add_sub_cancel' hk, List.range_add, List.filterMap_append]
    rw [List.filterMap_map, List.filterMap_eq_nil_iff.mpr, List.nil_append,
      ← List.filterMap_eq_map]
    · refine List.filterMap_congr fun i hi => ?_
      have hlt := List.mem_range.mp hi
      dsimp only [Function.comp_apply]
      rw [if_pos (by omega)]
      simp only [Option.some.injEq, Prod.mk.injEq, true_and]
      congr 1
      omega
    · intro i hi
      have hlt := List.mem_range.mp hi
      dsimp only
      rw [if_neg (by omega)]
  unfold shiftedPearson
  simp only [ha, hb, min_self]
  rw [hpairs, List.map_map, List.map_map]
  refine congrArg₂ p (List.ext_getElem (by simp [ha]) fun i h h' => ?_)
    (List.ext_getElem (by simp [hb]) fun i h h' => ?_)
  · rw [List.length_drop] at h'
    simp [show k + i < a.length by omega]
  · rw [List.length_take] at h'
    simp [show i < b.length by omega]

/-- The series `a` follows `b` with a delay of `k` bins, up to a scale and an offset. -/
def Follows (k : ℕ) (a b : List Rat) : Prop :=
  ∃ c d : Rat, c ≠ 0 ∧ ∀ i, i + k < a.length → a.getD (i + k) 0 = c * b.getD i 0 + d

/-- The first `n` bins of a series differ. -/
def Varies (n : ℕ) (b : List Rat) : Prop := ¬ ∃ c, ∀ i < n, b.getD i 0 = c

/-- A series that follows another one is fully correlated with it at the delay. -/
theorem shiftedPearson_of_follows (hA : A.Exact) {a b : List Rat} {n k : ℕ} (ha : a.length = n)
    (hb : b.length = n) (hk : k ≤ n) (h : Follows k a b) (hvaries : Varies (n - k) b) :
    |shiftedPearson (pearson A) a b k| = 1 := by
  obtain ⟨c, d, hc, haffine⟩ := h
  rw [shiftedPearson_natCast _ ha hb hk, pearson_exact hA, Correlation.coefficient_comm]
  have hn : min (a.drop k).length (b.take (n - k)).length = n - k := by
    rw [List.length_drop, List.length_take, ha, hb]
    omega
  have htake : ∀ i < n - k, (b.take (n - k)).getD i 0 = b.getD i 0 := fun i hi => by
    rw [List.getD_eq_getElem?_getD, List.getD_eq_getElem?_getD, List.getElem?_take_of_lt hi]
  rw [hn]
  refine Correlation.abs_coefficient_affine hA.isSqrt (c := (c : K)) (d := (d : K))
    (Rat.cast_ne_zero.mpr hc) (fun i => ?_) fun ⟨x, hx⟩ => hvaries ?_
  · have hi : i + k < a.length := by omega
    rw [measure, measure, htake i i.2, List.getD_eq_getElem?_getD, List.getElem?_drop,
      Nat.add_comm k, ← List.getD_eq_getElem?_getD, haffine i hi, Rat.cast_add, Rat.cast_mul]
  · refine ⟨b.getD 0 0, fun i hi => ?_⟩
    have hfirst := hx ⟨0, by omega⟩
    have hthis := hx ⟨i, hi⟩
    rw [measure, htake _ (by omega)] at hfirst hthis
    exact Rat.cast_injective (hthis.trans hfirst.symm)

/-- At a lag of the window the peak is 1. -/
theorem peak_of_follows (hA : A.Exact) {a b : List Rat} {n k maxLag : ℕ} (ha : a.length = n)
    (hb : b.length = n) (hk : InWindow n maxLag k) (h : Follows k a b)
    (hvaries : Varies (n - k) b) : (peakCrossCorrelation (pearson A) a b maxLag).2 = 1 := by
  have hwindow : InWindow (min a.length b.length) maxLag k := by rwa [ha, hb, min_self]
  have hle : k ≤ n := by
    have := hk.2
    rw [Int.natAbs_natCast] at this
    omega
  refine le_antisymm (peak_le_one hA a b maxLag) ?_
  rw [← shiftedPearson_of_follows hA ha hb hle h hvaries]
  exact (peak_spec (pearson A) a b maxLag).2 k hwindow

end Exact

/-- The arithmetic of the reals. -/
noncomputable def realArith : Arith ℝ := ⟨id, Real.sqrt⟩

theorem realArith_exact : realArith.Exact where
  round_eq _ := rfl
  isSqrt := ⟨fun x _ => Real.sqrt_nonneg x, fun _ => Real.mul_self_sqrt⟩

end MixTor
