/-
  MixTor.Shaping.SelfTest

  The statistical self test (self_test.rs, `lag1_autocorrelation` of spectral.rs), and
  what it can see of a shaped session.

  A session stamps its frames with a counter, so every interval the tester records is
  one, and pads both kinds of frames to one size.  The size test, the
  autocorrelation and the spectral test then see constant samples and never fail;
  the verdict is a function of the numbers of real frames and dummies.

  Sums and quotients are rounded as f64 are.  The trigonometric functions and the
  square root are parameters.
-/

import MixTor.Lab.SizeAttack
import MixTor.Shaping.ShapedSession
import MixTor.Shaping.SlotQueue

namespace MixTor

-- ============================================================================
-- Rounded statistics
-- ============================================================================

namespace F64

def div (F : F64) (x y : Rat) : Rat := F.round (x / y)

/-- `iter().sum::<f64>()`. -/
def sum (F : F64) (xs : List Rat) : Rat := xs.foldl F.add 0

/-- `std::f64::consts::PI`. -/
def pi : Rat := 884279719003555 / 2 ^ 48

/-- `x.round() as u32`. -/
def roundAsU32 (x : Rat) : Nat := min (x + 1 / 2).floor.toNat (2 ^ 32 - 1)

/-- `x.round() as i32`: half away from zero, then a saturating cast. -/
def roundAsI32 (x : Rat) : Int :=
  if x < 0 then max (-(-x + 1 / 2).floor) (-2 ^ 31) else min (x + 1 / 2).floor (2 ^ 31 - 1)

end F64

/-- The functions of the platform's mathematical library the spectral test uses. -/
structure Libm where
  cos : Rat → Rat
  sin : Rat → Rat
  sqrt : Rat → Rat

/-- The lag-1 autocorrelation of the samples. -/
def lag1Autocorrelation (F : F64) (samples : List Rat) : Rat :=
  if samples.length < 2 then 0
  else
    let n := F.round samples.length
    let mean := F.div (F.sum samples) n
    let variance :=
      F.div (F.sum (samples.map fun x => F.mul (F.sub x mean) (F.sub x mean))) n
    if variance < F64.epsilon then 0
    else
      let covariance := F.div (F.sum ((samples.zip samples.tail).map fun w =>
        F.mul (F.sub w.1 mean) (F.sub w.2 mean))) (F.sub n 1)
      F.div covariance variance

structure SelfTestConfig where
  ksThreshold : Rat
  autocorrThreshold : Rat
  dummyRatioMin : Rat
  dummyRatioMax : Rat
  spectralPeakRatioThreshold : Rat

def SelfTestConfig.default (F : F64) : SelfTestConfig where
  ksThreshold := F.round 0.15
  autocorrThreshold := F.round 0.20
  dummyRatioMin := F.round 0.30
  dummyRatioMax := F.round 0.98
  spectralPeakRatioThreshold := 8

inductive SelfTestFailure where
  | ksTestFailed (statistic : Nat)
  | autocorrelationTooHigh (lag1Times1000 : Int)
  | dummyRatioOutOfBounds (ratioTimes1000 : Nat)
  | spectralPeakDetected (ratioTimes100 : Nat)
  | insufficientData
  deriving DecidableEq, Repr

structure SelfTestResult where
  passed : Bool
  failures : List SelfTestFailure
  ksStatistic : Option Rat
  lag1Autocorr : Option Rat
  dummyRatio : Option Rat
  spectralPeakRatio : Option Rat
  deriving DecidableEq, Repr

namespace SelfTester

/-- The part of one frequency: `re` or `im`. -/
def dftPart (F : F64) (wave : Rat → Rat) (centered : List Rat) (k n : Nat) : Rat :=
  F.sum (centered.zipIdx.map fun p => F.mul p.1
    (wave (F.div (F.mul (F.mul (F.mul 2 F64.pi) (F.round k)) (F.round p.2)) (F.round n))))

def magnitude (F : F64) (m : Libm) (centered : List Rat) (n k : Nat) : Rat :=
  let re := dftPart F m.cos centered k n
  let im := dftPart F m.sin (centered.map Neg.neg) k n
  F.round (m.sqrt (F.add (F.mul re re) (F.mul im im)))

/-- The largest magnitude over the mean magnitude, of the last 256 samples. -/
def spectralPeakRatio (F : F64) (m : Libm) (samples : List Rat) : Option Rat :=
  if samples.length < 16 then none
  else
    let s := if 256 < samples.length then samples.drop (samples.length - 256) else samples
    let n := s.length
    let mean := F.div (F.sum s) (F.round n)
    let magnitudes := (List.range' 1 (n / 2 - 1)).map
      (magnitude F m (s.map fun x => F.sub x mean) n)
    let largest := magnitudes.foldl max 0
    let meanMag := F.div (F.sum magnitudes) (F.round magnitudes.length)
    if meanMag < F64.epsilon then none else some (F.div largest meanMag)

/-- Run all tests on what was recorded.  The walk of the size test ends, so the result is
    never `none`. -/
def runTests (F : F64) (m : Libm) (config : SelfTestConfig) (st : SelfTester) :
    Option SelfTestResult :=
  let total := st.realCount + st.dummyCount
  if total < 20 then
    some ⟨false, [.insufficientData], none, none, none, none⟩
  else do
    let ks ← SelfTester.ksStatistic (st.dummySizes.length + st.realSizes.length + 1)
      st.dummySizes st.realSizes
    let ac := lag1Autocorrelation F st.iatSamples
    let dummyRatio := F.div (F.round st.dummyCount) (F.round total)
    let peakRatio := spectralPeakRatio F m st.iatSamples
    let failures :=
      (if config.ksThreshold < ks then [.ksTestFailed (F64.roundAsU32 (F.mul ks 1000))] else [])
      ++ (if config.autocorrThreshold < |ac| then
          [.autocorrelationTooHigh (F64.roundAsI32 (F.mul ac 1000))] else [])
      ++ (if dummyRatio < config.dummyRatioMin ∨ config.dummyRatioMax < dummyRatio then
          [.dummyRatioOutOfBounds (F64.roundAsU32 (F.mul dummyRatio 1000))] else [])
      ++ (match peakRatio with
          | none => []
          | some ratio =>
              if config.spectralPeakRatioThreshold < ratio then
                [.spectralPeakDetected (F64.roundAsU32 (F.mul ratio 100))] else [])
    return ⟨failures.isEmpty, failures, some ks, some ac, some dummyRatio, peakRatio⟩

/-- `assert_passing`. -/
def assertPassing (F : F64) (m : Libm) (config : SelfTestConfig) (st : SelfTester) :
    Option (Except (List SelfTestFailure) SelfTestResult) :=
  (st.runTests F m config).map fun result =>
    if result.passed then .ok result else .error result.failures

end SelfTester

/-- Run the self test of a session. -/
def ShapedSession.runSelfTest {ρ : Type} (F : F64) (m : Libm) (s : ShapedSession ρ) :
    Option SelfTestResult :=
  s.composer.selfTester.runTests F m (.default F)

-- ============================================================================
-- Constant samples
-- ============================================================================

section Constant

variable {F : F64}

/-- Up to 2^53 ones are counted exactly. -/
theorem foldl_add_ones (hF : F.Lawful) (n k : Nat) (h : k + n ≤ 2 ^ 53) :
    (List.replicate n (1 : Rat)).foldl F.add (k : Rat) = ((k + n : Nat) : Rat) := by
  induction n generalizing k with
  | zero => rfl
  | succ n ih =>
      have hk : F.add (k : Rat) 1 = ((k + 1 : Nat) : Rat) := by
        rw [F64.add, ← Nat.cast_succ]
        exact hF.round_natCast _ (by omega)
      rw [List.replicate_succ, List.foldl_cons, hk, ih (k + 1) (by omega)]
      congr 1
      omega

theorem round_zero (hF : F.Lawful) : F.round 0 = 0 := by
  simpa using hF.round_natCast 0 (Nat.zero_le _)

theorem round_one (hF : F.Lawful) : F.round 1 = 1 := by
  simpa using hF.round_natCast 1 (by norm_num)

theorem sum_zeros (hF : F.Lawful) {xs : List Rat} (h : ∀ x ∈ xs, x = 0) : F.sum xs = 0 := by
  have hfold : ∀ ys : List Rat, (∀ y ∈ ys, y = 0) → ys.foldl F.add 0 = 0 := by
    intro ys hys
    induction ys with
    | nil => rfl
    | cons y ys ih =>
        obtain ⟨rfl, hrest⟩ := List.forall_mem_cons.mp hys
        rw [List.foldl_cons, F64.add, add_zero, round_zero hF]
        exact ih hrest
  exact hfold xs h

/-- The mean of ones is one. -/
theorem mean_ones (hF : F.Lawful) {n : Nat} (hpos : 0 < n) (hn : n ≤ 2 ^ 53) :
    F.div (F.sum (List.replicate n 1)) (F.round n) = 1 := by
  have hsum : F.sum (List.replicate n 1) = n := by
    have := foldl_add_ones hF n 0 (by omega)
    rwa [Nat.zero_add] at this
  rw [hsum, hF.round_natCast n hn, F64.div, div_self (Nat.cast_ne_zero.mpr hpos.ne'),
    round_one hF]

theorem div_zero_left (hF : F.Lawful) (x : Rat) : F.div 0 x = 0 := by
  rw [F64.div, zero_div, round_zero hF]

theorem zero_lt_epsilon : (0 : Rat) < F64.epsilon := by norm_num [F64.epsilon]

/-- Constant intervals are not correlated. -/
theorem lag1Autocorrelation_ones (hF : F.Lawful) {n : Nat} (hn : n ≤ 2 ^ 53) :
    lag1Autocorrelation F (List.replicate n 1) = 0 := by
  unfold lag1Autocorrelation
  split
  · rfl
  · next h2 =>
    rw [List.length_replicate] at h2
    have hcentered : ∀ x ∈ (List.replicate n (1 : Rat)).map fun x =>
        F.mul (F.sub x 1) (F.sub x 1), x = 0 := by
      intro x hx
      obtain ⟨y, hy, rfl⟩ := List.mem_map.mp hx
      obtain rfl := List.eq_of_mem_replicate hy
      rw [F64.sub, sub_self, round_zero hF, F64.mul, zero_mul, round_zero hF]
    dsimp only
    rw [List.length_replicate, mean_ones hF (by omega) hn, sum_zeros hF hcentered,
      div_zero_left hF, if_pos zero_lt_epsilon]

/-- Constant intervals have no spectrum to peak. -/
theorem magnitude_zeros (hF : F.Lawful) {m : Libm} (hm : m.sqrt 0 = 0) {centered : List Rat}
    (h : ∀ x ∈ centered, x = 0) (n k : Nat) : SelfTester.magnitude F m centered n k = 0 := by
  have hpart : ∀ (wave : Rat → Rat) (xs : List Rat), (∀ x ∈ xs, x = 0) →
      SelfTester.dftPart F wave xs k n = 0 := by
    intro wave xs hxs
    refine sum_zeros hF fun x hx => ?_
    obtain ⟨p, hp, rfl⟩ := List.mem_map.mp hx
    have hzero : p.1 = 0 := hxs p.1 (List.fst_mem_of_mem_zipIdx hp)
    rw [hzero, F64.mul, zero_mul, round_zero hF]
  have hneg : ∀ x ∈ centered.map Neg.neg, x = 0 := by
    intro x hx
    obtain ⟨y, hy, rfl⟩ := List.mem_map.mp hx
    rw [h y hy, neg_zero]
  rw [SelfTester.magnitude, hpart _ _ h, hpart _ _ hneg]
  simp only [F64.mul, F64.add, mul_zero, round_zero hF, add_zero, hm]

theorem spectralPeakRatio_ones (hF : F.Lawful) {m : Libm} (hm : m.sqrt 0 = 0) (n : Nat) :
    SelfTester.spectralPeakRatio F m (List.replicate n 1) = none := by
  unfold SelfTester.spectralPeakRatio
  split
  · rfl
  · next h16 =>
    rw [List.length_replicate] at h16
    obtain ⟨l, hs, hpos, hle⟩ : ∃ l, (if 256 < (List.replicate n (1 : Rat)).length then
        (List.replicate n (1 : Rat)).drop ((List.replicate n (1 : Rat)).length - 256)
        else List.replicate n 1) = List.replicate l 1 ∧ 0 < l ∧ l ≤ 2 ^ 53 := by
      rw [List.length_replicate]
      split
      · next hbig =>
        refine ⟨256, ?_, by norm_num, by norm_num⟩
        rw [List.drop_replicate, Nat.sub_sub_self hbig.le]
      · next hsmall => exact ⟨n, rfl, by omega, (not_lt.mp hsmall).trans (by norm_num)⟩
    have hcentered : ∀ x ∈ (List.replicate l (1 : Rat)).map fun x => F.sub x 1, x = 0 := by
      intro x hx
      obtain ⟨y, hy, rfl⟩ := List.mem_map.mp hx
      obtain rfl := List.eq_of_mem_replicate hy
      rw [F64.sub, sub_self, round_zero hF]
    dsimp only
    rw [hs, List.length_replicate, mean_ones hF hpos hle, sum_zeros hF, div_zero_left hF,
      if_pos zero_lt_epsilon]
    intro x hx
    obtain ⟨k, -, rfl⟩ := List.mem_map.mp hx
    exact magnitude_zeros hF hm hcentered l k

/-- Frames of one size are not told apart. -/
theorem selfTester_ksStatistic_replicate (cell m n fuel : Nat) (hfuel : m + n < fuel) :
    SelfTester.ksStatistic fuel (List.replicate m cell) (List.replicate n cell) = some 0 := by
  have hsizes : ∀ k, asSizes (List.replicate k cell) = List.replicate k (cell : ℚ) :=
    fun k => List.map_replicate
  unfold SelfTester.ksStatistic
  split
  · rfl
  · next hne =>
    have hks := ksStatistic_replicate (cell : ℚ) m n fuel hfuel
    rw [ksStatistic, if_neg (by simpa using hne)] at hks
    rwa [hsizes, hsizes]

end Constant

-- ============================================================================
-- What a session records
-- ============================================================================

namespace SelfTester

/-- `real` frames and `dummy` dummies of `cell` bytes, one tick of the counter apart. -/
structure Uniform (cell real dummy : Nat) (st : SelfTester) : Prop where
  realSizes : st.realSizes = List.replicate real cell
  dummySizes : st.dummySizes = List.replicate dummy cell
  counts : st.realCount = real ∧ st.dummyCount = dummy
  iats : st.iatSamples = List.replicate (real + dummy - 1) 1
  last : st.lastFrameAtMs = if real + dummy = 0 then none else some (real + dummy)

variable {cell real dummy : Nat} {st : SelfTester}

/-- The next frame is one tick behind the last. -/
theorem recordFrame_iats (h : st.Uniform cell real dummy) (frame : MixedFrame) :
    (st.recordFrame frame (real + dummy + 1)).iatSamples
        = List.replicate (real + dummy + 1 - 1) 1 ∧
      (st.recordFrame frame (real + dummy + 1)).lastFrameAtMs = some (real + dummy + 1) := by
  have hlast := h.last
  have hiats := h.iats
  rcases Nat.eq_zero_or_pos (real + dummy) with hzero | hpos
  · rw [if_pos hzero] at hlast
    rw [hzero] at hiats ⊢
    cases frame <;> simp [recordFrame, hlast, hiats]
  · rw [if_neg hpos.ne'] at hlast
    have hone : ((real + dummy + 1 - (real + dummy) : Nat) : Rat) = 1 := by
      rw [Nat.add_sub_cancel_left]
      rfl
    have hgrow : List.replicate (real + dummy - 1) (1 : Rat) ++ [1]
        = List.replicate (real + dummy + 1 - 1) 1 := by
      rw [← List.replicate_succ']
      congr 1
      omega
    cases frame <;> simp only [recordFrame, hlast, hiats, hone, hgrow, and_self]

/-- Recording a frame of the cell size adds it to the frames of its kind. -/
theorem recordFrame_uniform (h : st.Uniform cell real dummy) {frame : MixedFrame}
    (hlen : frame.len = cell) :
    (st.recordFrame frame (real + dummy + 1)).Uniform cell
      (if frame.isDummy then real else real + 1) (if frame.isDummy then dummy + 1 else dummy) := by
  obtain ⟨hiats, hlast⟩ := recordFrame_iats h frame
  cases frame with
  | real p =>
      have hp : p.len = cell := hlen
      have hsum : real + 1 + dummy = real + dummy + 1 := by omega
      refine ⟨?_, ?_, ?_, ?_, ?_⟩ <;> simp only [MixedFrame.isDummy, Bool.false_eq_true, if_false]
      · cases hl : st.lastFrameAtMs <;>
          simp [recordFrame, hl, h.realSizes, hp, List.replicate_succ']
      · cases hl : st.lastFrameAtMs <;> simp [recordFrame, hl, h.dummySizes]
      · cases hl : st.lastFrameAtMs <;> simp [recordFrame, hl, h.counts]
      · rw [hsum, hiats]
      · rw [hsum, hlast, if_neg (Nat.succ_ne_zero _)]
  | dummy b =>
      have hb : b.length = cell := hlen
      refine ⟨?_, ?_, ?_, ?_, ?_⟩ <;> simp only [MixedFrame.isDummy, if_true]
      · cases hl : st.lastFrameAtMs <;> simp [recordFrame, hl, h.realSizes]
      · cases hl : st.lastFrameAtMs <;>
          simp [recordFrame, hl, h.dummySizes, hb, List.replicate_succ']
      · cases hl : st.lastFrameAtMs <;> simp [recordFrame, hl, h.counts]
      · rw [← Nat.add_assoc, hiats]
      · rw [← Nat.add_assoc, hlast, if_neg (Nat.succ_ne_zero _)]

/-- The verdict on so many real frames and dummies: enough frames, and a share of dummies
    within the bounds. -/
def countVerdict (F : F64) (config : SelfTestConfig) (real dummy : Nat) : SelfTestResult :=
  let ratio := F.div (F.round dummy) (F.round (real + dummy : Nat))
  if real + dummy < 20 then ⟨false, [.insufficientData], none, none, none, none⟩
  else if ratio < config.dummyRatioMin ∨ config.dummyRatioMax < ratio then
    ⟨false, [.dummyRatioOutOfBounds (F64.roundAsU32 (F.mul ratio 1000))], some 0, some 0,
      some ratio, none⟩
  else ⟨true, [], some 0, some 0, some ratio, none⟩

/-- The tests see nothing but the counts. -/
theorem runTests_uniform {F : F64} (hF : F.Lawful) {m : Libm} (hm : m.sqrt 0 = 0)
    {config : SelfTestConfig} (hks : 0 ≤ config.ksThreshold) (hac : 0 ≤ config.autocorrThreshold)
    (h : st.Uniform cell real dummy) (hsmall : real + dummy ≤ 2 ^ 53) :
    st.runTests F m config = some (countVerdict F config real dummy) := by
  obtain ⟨hreal, hdummy, ⟨hrc, hdc⟩, hiats, -⟩ := h
  rw [runTests, hrc, hdc, hreal, hdummy, hiats]
  unfold countVerdict
  split
  · rfl
  · rw [List.length_replicate, List.length_replicate,
      selfTester_ksStatistic_replicate cell dummy real _ (Nat.lt_succ_self _),
      lag1Autocorrelation_ones hF (by omega), spectralPeakRatio_ones hF hm]
    simp only [Option.bind_eq_bind, Option.bind_some, abs_zero, if_neg (not_lt.mpr hks),
      if_neg (not_lt.mpr hac), List.nil_append, List.append_nil]
    split <;> rfl

end SelfTester

namespace ShapedSession

open Crypto (Blake3)

variable {ρ : Type} [RngCore ρ] {F : F64} {s t : ShapedSession ρ}

inductive Event where
  | injectReal (clk : Clock) (packet : Packet)
  | tick (clk : Clock)
  | restartClock (clk : Clock)

def step (F : F64) (s : ShapedSession ρ) : Event → Option (ShapedSession ρ)
  | .injectReal clk packet => some (s.injectReal F clk packet).2.1
  | .tick clk => some (s.tick F clk).2.1
  | .restartClock clk => some (s.restartClock F clk).1

/-- The tester has the frames the correlator has counted, all of the cell size. -/
structure Recorded (cell : Nat) (s : ShapedSession ρ) : Prop where
  cellBytes : s.correlator.config.cellBytes = cell
  mean : s.correlator.MeanBounded
  clock : s.composer.frameClockMs = s.correlator.realEmitted + s.correlator.dummyEmitted
  uniform : s.composer.selfTester.Uniform cell s.correlator.realEmitted s.correlator.dummyEmitted

/-- Padding draws random bytes and changes nothing else of the composer. -/
theorem padRealPacket_composer (c : SeedBComposer ρ) (packet : Packet) :
    ∃ rng, (c.padRealPacket packet).2 = { c with rng } := by
  rw [SeedBComposer.padRealPacket]
  split
  · exact ⟨c.rng, rfl⟩
  · dsimp only
    split <;> exact ⟨_, rfl⟩

theorem step_recorded {cell : Nat} {e : Event} (h : s.Recorded cell)
    (hstep : step F s e = some t) : t.Recorded cell := by
  obtain ⟨hcell, hmean, hclock, huniform⟩ := h
  cases e with
  | injectReal clk packet =>
      obtain rfl := Option.some.inj hstep
      obtain ⟨rng, hrng⟩ := padRealPacket_composer s.composer packet
      rcases hpad : s.composer.padRealPacket packet with ⟨padded, composer⟩
      obtain rfl : composer = { s.composer with rng } := by rw [← hrng, hpad]
      rw [injectReal, hpad]
      rcases TimingCorrelator.injectReal_cases F clk s.correlator padded hmean with
        ⟨-, hinj⟩ | ⟨tc, clk', hinj, -, -, hcfg, hmean', hreal, hdummy⟩
      · simp only [hinj]
        exact ⟨hcell, hmean, hclock, huniform⟩
      · simp only [hinj]
        rw [← hreal, ← hdummy] at hclock huniform
        exact ⟨hcfg ▸ hcell, hmean', hclock, huniform⟩
  | tick clk =>
      obtain rfl := Option.some.inj hstep
      rw [tick]
      rcases TimingCorrelator.tick_slot (F := F) clk s.correlator with ⟨clk', htick⟩ |
        ⟨frame, tc, clk', htick, hslot⟩
      · simp only [htick]
        exact ⟨hcell, hmean, hclock, huniform⟩
      · simp only [htick]
        have hrecord : frame.len = cell →
            (recordFrame s.composer frame).selfTester.Uniform cell _ _ := fun hlen =>
          hclock ▸ SelfTester.recordFrame_uniform huniform hlen
        have htime : (recordFrame s.composer frame).frameClockMs
            = s.correlator.realEmitted + s.correlator.dummyEmitted + 1 :=
          congrArg (· + 1) hclock
        cases hslot with
        | real head fits counts same =>
            obtain ⟨q, rfl, hq⟩ := fits
            refine ⟨same.1 ▸ hcell, ?_, ?_, ?_⟩
            · rwa [TimingCorrelator.MeanBounded, same.1, same.2]
            · rw [htime, counts.1, counts.2, Nat.add_right_comm]
            · rw [counts.1, counts.2]
              exact hrecord (hq.len_eq.trans hcell)
        | dummy waits fits counts same =>
            obtain ⟨b, rfl, hb⟩ := fits
            refine ⟨same.1 ▸ hcell, ?_, ?_, ?_⟩
            · rwa [TimingCorrelator.MeanBounded, same.1, same.2]
            · rw [htime, counts.1, counts.2, Nat.add_assoc]
            · rw [counts.1, counts.2]
              exact hrecord ((hb _ rfl).trans hcell)
  | restartClock clk =>
      obtain rfl := Option.some.inj hstep
      exact ⟨hcell, hmean, hclock, huniform⟩

/-- A new session has recorded nothing. -/
theorem new_recorded {H : Blake3} {clk clk' : Clock} {seed : EphemeralSeed}
    {config : CompositionConfig} {composerRng : ρ}
    (hnew : new F H clk seed config composerRng = some (.ok (s, clk'))) :
    ∃ cell, s.Recorded cell := by
  unfold new at hnew
  split at hnew
  · cases hnew
  · next cell hcell =>
    split at hnew
    · cases hnew
    · cases hnew
    · cases hnew
    · next correlator clk'' htc =>
      obtain ⟨rfl, -⟩ := Prod.mk.inj (Except.ok.inj (Option.some.inj hnew))
      obtain ⟨hconfig, -⟩ := TimingCorrelator.new_eq_ok htc
      have hvalid := correlator.config_valid
      have hord := correlator.bounds_ordered
      rw [hconfig] at hvalid hord
      rw [TimingCorrelator.new_of_valid hvalid hord] at htc
      obtain ⟨rfl, -⟩ := Prod.mk.inj (Except.ok.inj (Option.some.inj htc))
      exact ⟨cell, rfl, .inl rfl, rfl, rfl, rfl, ⟨rfl, rfl⟩, rfl, rfl⟩

/-- **The self test of a session is a function of its counts.**  For every configuration,
    seed, generator and clock, in every state of every run with at most 2^53 frames: the
    result of the self test is that of the numbers of real frames and dummies, so the
    size test, the autocorrelation and the spectral test pass whatever was sent when. -/
theorem runSelfTest_counts (hF : F.Lawful) (m : Libm) (hm : m.sqrt 0 = 0) (H : Blake3)
    (clk clk' : Clock) (seed : EphemeralSeed) (config : CompositionConfig) (composerRng : ρ)
    {s : ShapedSession ρ} (hnew : new F H clk seed config composerRng = some (.ok (s, clk')))
    (events : List Event) :
    Machine.Always (step F) (fun s =>
      s.correlator.realEmitted + s.correlator.dummyEmitted ≤ 2 ^ 53 →
        s.runSelfTest F m = some (SelfTester.countVerdict F (.default F)
          s.correlator.realEmitted s.correlator.dummyEmitted)) s events := by
  obtain ⟨cell, hstart⟩ := new_recorded hnew
  refine (Machine.always_of_invariant (fun _ _ _ h hs => step_recorded h hs) hstart events).mono ?_
  intro s h hsmall
  have hround : ∀ x : Rat, 0 ≤ x → 0 ≤ F.round x := fun x hx => by
    rw [← round_zero hF]
    exact hF.round_mono hx
  exact SelfTester.runTests_uniform hF hm (hround _ (by norm_num)) (hround _ (by norm_num))
    h.uniform hsmall

/-- A session with cells of two bytes. -/
def twoByteConfig : CompositionConfig := { CompositionConfig.default with cellBytes := some 2 }

theorem twoByteConfig_valid : (correlatorConfig .steep twoByteConfig 2).Valid := by
  constructor <;> decide +kernel

def twoByteSession : ShapedSession FixedRng where
  composer := .withConfig twoByteConfig ⟨0⟩
  correlator := (TimingCorrelator.start .steep (.const 0) _ twoByteConfig_valid
    (by decide +kernel) (correlatorRng .sumBytes ⟨Vector.replicate 32 157⟩)).1

/-- One packet in twenty slots, each long after the last: a share of 19 dummies in 20
    passes. -/
theorem runSelfTest_counts_two_byte :
    (Machine.run (step .steep) twoByteSession (.injectReal (.const 0) ⟨[7], by decide⟩ ::
        (List.range 20).map fun k => .tick (.const (10 ^ 12 * (k + 1))))).map (fun s =>
          (s.correlator.realEmitted, s.correlator.dummyEmitted,
            SelfTester.countVerdict .steep (.default .steep) s.correlator.realEmitted
              s.correlator.dummyEmitted))
      = some (1, 19, ⟨true, [], some 0, some 0, some (19 / 20), none⟩) ∧
    Machine.Always (step .steep) (fun s =>
      s.correlator.realEmitted + s.correlator.dummyEmitted ≤ 2 ^ 53 →
        s.runSelfTest .steep ⟨id, id, id⟩ = some (SelfTester.countVerdict .steep
          (.default .steep) s.correlator.realEmitted s.correlator.dummyEmitted))
      twoByteSession (.injectReal (.const 0) ⟨[7], by decide⟩ ::
        (List.range 20).map fun k => .tick (.const (10 ^ 12 * (k + 1)))) :=
  ⟨by decide +kernel, runSelfTest_counts F64.steep_lawful ⟨id, id, id⟩ rfl .sumBytes (.const 0)
    _ ⟨Vector.replicate 32 157⟩ twoByteConfig (⟨0⟩ : FixedRng)
    (new_of_valid rfl twoByteConfig_valid (by decide +kernel)) _⟩

end ShapedSession

end MixTor
