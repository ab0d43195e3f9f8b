/-
  MixTor.Shaping.Basic

  What the shaping code takes from outside: the monotonic clock, the random
  number generators, the f64 operations that round, and the packets and frames
  it moves around.

  An `Instant` is a number of nanoseconds.  A synchronous call reads the clock
  several times; a `Clock` is the sequence of readings one call gets, in the
  order in which it asks for them.
-/

import MixTor.Crypto.FrameCipher
import Mathlib.Order.Monotone.Basic
import Mathlib.Data.Rat.Floor
import Mathlib.Tactic.Positivity

namespace MixTor

open Crypto (Bytes Key)

/-- `std::time::Instant`, in nanoseconds. -/
abbrev Instant := Nat

/-- `std::time::Duration`, in nanoseconds. -/
abbrev Duration := Nat

namespace Duration

def fromMicros (us : Nat) : Duration := us * 1000
def fromMillis (ms : Nat) : Duration := ms * 1000000
def fromSecs (s : Nat) : Duration := s * 1000000000

end Duration

/-- The readings `Instant::now()` returns during one call, the first at index 0,
    and the instant at which the call returns. -/
structure Clock where
  read : Nat → Instant
  stop : Instant
  mono : Monotone read
  read_le_stop : ∀ i, read i ≤ stop

namespace Clock

/-- `Instant::now()`. -/
def now (clk : Clock) : Instant := clk.read 0

/-- The clock after `n` readings. -/
def after (clk : Clock) (n : Nat) : Clock where
  read i := clk.read (i + n)
  stop := clk.stop
  mono := fun _ _ h => clk.mono (Nat.add_le_add_right h n)
  read_le_stop i := clk.read_le_stop (i + n)

/-- The clock after one reading. -/
def later (clk : Clock) : Clock := clk.after 1

/-- A clock that stands still during the call. -/
def const (t : Instant) : Clock where
  read _ := t
  stop := t
  mono := monotone_const
  read_le_stop _ := le_rfl

@[simp] theorem const_now (t : Instant) : (const t).now = t := rfl
@[simp] theorem const_later (t : Instant) : (const t).later = const t := rfl
@[simp] theorem after_stop (clk : Clock) (n : Nat) : (clk.after n).stop = clk.stop := rfl
@[simp] theorem after_after (clk : Clock) (m n : Nat) :
    (clk.after m).after n = clk.after (m + n) := by
  simp only [after, Nat.add_right_comm _ n m, Nat.add_assoc]
@[simp] theorem later_after (clk : Clock) (n : Nat) : (clk.after n).later = clk.after (n + 1) := by
  simp only [later, after, Nat.add_right_comm _ 1 n, Nat.add_assoc]

theorem now_le_stop (clk : Clock) : clk.now ≤ clk.stop := clk.read_le_stop 0

end Clock

/-- A seedable generator of the `rand` crate, with its state type. -/
class RngCore (ρ : Type) where
  nextU64 : ρ → UInt64 × ρ
  fillBytes : (n : Nat) → ρ → Vector UInt8 n × ρ
  fromSeed : Vector UInt8 32 → ρ

/-- The f64 operations that are not exact: rounding to the nearest f64, and the
    natural logarithm. -/
structure F64 where
  round : Rat → Rat
  ln : Rat → Rat

namespace F64

def mul (F : F64) (x y : Rat) : Rat := F.round (x * y)
def add (F : F64) (x y : Rat) : Rat := F.round (x + y)
def sub (F : F64) (x y : Rat) : Rat := F.round (x - y)

/-- `f64::EPSILON`. -/
def epsilon : Rat := 1 / 2 ^ 52

/-- `f64::clamp`. -/
def clamp (x lo hi : Rat) : Rat := if x < lo then lo else if hi < x then hi else x

/-- `x.round() as u64`: half away from zero, then a saturating cast. -/
def roundAsU64 (x : Rat) : Nat := min (x + 1 / 2).floor.toNat (2 ^ 64 - 1)

/-- What the bounds below need of the rounding of IEEE 754: it is monotone, and the
    whole numbers up to 2^53 are representable. -/
structure Lawful (F : F64) : Prop where
  round_mono : Monotone F.round
  round_natCast : ∀ n : Nat, n ≤ 2 ^ 53 → F.round n = n

theorem le_clamp {x lo hi : Rat} (h : lo ≤ hi) : lo ≤ clamp x lo hi := by
  unfold clamp
  split
  · exact le_rfl
  · next hx =>
    split
    · exact h
    · exact not_lt.mp hx

/-- A whole number below `x` is below `x.round() as u64`, if it is representable. -/
theorem le_roundAsU64 {n : Nat} (hn : n ≤ 2 ^ 53) {x : Rat} (h : (n : Rat) ≤ x) :
    n ≤ roundAsU64 x := by
  have hfloor : (n : Int) ≤ (x + 1 / 2).floor :=
    Rat.le_floor_iff.mpr (h.trans (le_add_of_nonneg_right (by norm_num)))
  rw [roundAsU64]
  omega

end F64

/-- `Duration::as_secs_f64`. -/
def Duration.asSecsF64 (F : F64) (d : Duration) : Rat :=
  F.add (F.round ((d / 1000000000 : Nat) : Rat))
    (F.round (((d % 1000000000 : Nat) : Rat) / 1000000000))

/-- `rng.gen::<f64>()`: 53 bits, uniform in `[0, 1)`. -/
def genF64 {ρ : Type} [RngCore ρ] (rng : ρ) : Rat × ρ :=
  let (word, rng) := RngCore.nextU64 rng
  (((word >>> 11).toNat : Rat) / 2 ^ 53, rng)

theorem genF64_lt_one {ρ : Type} [RngCore ρ] (rng : ρ) : (genF64 rng).1 < 1 := by
  have hword : ((RngCore.nextU64 rng).1 >>> 11).toNat < 2 ^ 53 := by
    have hlt := (RngCore.nextU64 rng).1.toNat_lt
    rw [UInt64.toNat_shiftRight, Nat.shiftRight_eq_div_pow]
    exact Nat.div_lt_of_lt_mul (by simpa using hlt)
  have hcast : (((RngCore.nextU64 rng).1 >>> 11).toNat : Rat) < 2 ^ 53 := by exact_mod_cast hword
  exact (div_lt_one (by positivity)).mpr hcast

/-- A generator that draws one word for ever, for evaluating the model. -/
structure FixedRng where
  word : UInt64
  deriving DecidableEq, Repr

instance : RngCore FixedRng where
  nextU64 rng := (rng.word, rng)
  fillBytes n rng := (Vector.replicate n 0, rng)
  fromSeed seed := ⟨(seed[0]).toUInt64 <<< 56⟩

/-- Unrounded arithmetic with a steep logarithm, for evaluating the model. -/
def F64.steep : F64 where
  round x := x
  ln _ := -100

theorem F64.steep_lawful : F64.steep.Lawful := ⟨monotone_id, fun _ _ => rfl⟩

/-- What is needed of `f64::ln` where a mean can be infinite: the logarithm of a
    number below 1 is not zero. -/
structure F64.LnNegative (F : F64) : Prop where
  ln_neg : ∀ x, 0 < x → x < 1 → F.ln x < 0

theorem F64.steep_lnNegative : F64.steep.LnNegative := ⟨fun _ _ _ => by norm_num [F64.steep]⟩

/-- What more is needed of IEEE 754 in places: a rounded value is representable. -/
structure F64.Nearest (F : F64) : Prop extends F.Lawful where
  round_round : ∀ x, F.round (F.round x) = F.round x

theorem F64.steep_nearest : F64.steep.Nearest := ⟨F64.steep_lawful, fun _ => rfl⟩

/-- A validator accepts behind a guard exactly if the guard does not fire. -/
theorem guard_eq_ok {ε α : Type} {p : Prop} [Decidable p] {e : ε} {x : Except ε α} {y : α} :
    (if p then .error e else x) = .ok y ↔ ¬ p ∧ x = .ok y := by
  by_cases hp : p
  · simp [hp]
  · simp [hp]

/-- Errors of `Packet::new`. -/
inductive ClumpingError where
  | emptyPacket
  deriving DecidableEq, Repr

/-- A non-empty packet. -/
structure Packet where
  bytes : Bytes
  nonempty : bytes ≠ []
  deriving DecidableEq, Repr

def Packet.new (bytes : Bytes) : Except ClumpingError Packet :=
  if h : bytes = [] then .error .emptyPacket else .ok ⟨bytes, h⟩

def Packet.len (p : Packet) : Nat := p.bytes.length

theorem Packet.new_of_ne_nil {bytes : Bytes} (h : bytes ≠ []) :
    Packet.new bytes = .ok ⟨bytes, h⟩ := by
  rw [Packet.new, dif_neg h]

@[simp] theorem Packet.new_self (p : Packet) : Packet.new p.bytes = .ok p :=
  Packet.new_of_ne_nil p.nonempty

/-- A frame on its way out: real data or cover. -/
inductive MixedFrame where
  | real (packet : Packet)
  | dummy (bytes : Bytes)
  deriving DecidableEq, Repr

namespace MixedFrame

def len : MixedFrame → Nat
  | real p => p.len
  | dummy b => b.length

def isDummy : MixedFrame → Bool
  | real _ => false
  | dummy _ => true

end MixedFrame

/-- Fit `data` to exactly `target` bytes: padded with fresh random bytes when it
    is shorter, truncated when it is longer, untouched when it fits. -/
def padToCell {ρ : Type} [RngCore ρ] (target : Nat) (rng : ρ) (data : Bytes) : Bytes × ρ :=
  if data.length = target then (data, rng)
  else if data.length < target then
    let (padding, rng) := RngCore.fillBytes (target - data.length) rng
    (data ++ padding.toList, rng)
  else (data.take target, rng)

/-- Data of the right size passes unchanged and draws nothing. -/
theorem padToCell_of_eq {ρ : Type} [RngCore ρ] {target : Nat} {data : Bytes} (rng : ρ)
    (h : data.length = target) : padToCell target rng data = (data, rng) := by
  rw [padToCell, if_pos h]

@[simp] theorem padToCell_length {ρ : Type} [RngCore ρ] (target : Nat) (rng : ρ) (data : Bytes) :
    (padToCell target rng data).1.length = target := by
  unfold padToCell
  split
  · assumption
  · split
    · next h =>
      simp only [List.length_append, Vector.length_toList]
      omega
    · next h1 h2 =>
      rw [List.length_take]
      omega

end MixTor
