/-
  MixTor.Lib.Utf8

  Lossy decoding of UTF-8, as `String::from_utf8_lossy` does it.

  Bytes are read one at a time.  A byte that continues no character, or a character
  that is cut short, becomes one replacement character for the part that was read.
  Bytes of ASCII are transparent: each stands for itself wherever it appears, and no
  other byte contributes to a character of ASCII.
-/

import MixTor.Lib.Text
import Mathlib.Data.List.Induction
import Mathlib.Tactic.Ring

namespace Utf8

open Text

/-- U+FFFD. -/
def replacement : Char := '\uFFFD'

/-- A character that has begun: the bounds of its next byte, how many bytes are missing
    behind that one, and the bits read so far.  However it goes on, it is a Unicode scalar
    value above ASCII. -/
structure Pending where
  missing : Nat
  lo : Nat
  hi : Nat
  bits : Nat
  continuation : 0x80 ≤ lo ∧ hi ≤ 0xBF
  scalar : ∀ n, lo ≤ n → n ≤ hi → ∀ rest < 64 ^ missing,
    0x80 ≤ (bits * 64 + n % 64) * 64 ^ missing + rest ∧
      ((bits * 64 + n % 64) * 64 ^ missing + rest).isValidChar

/-- What begins with a byte: characters that are complete, and one that is pending. -/
def lead (b : UInt8) : Str × Option Pending :=
  let n := b.toNat
  if n < 0x80 then ([Char.ofNat n], none)
  else if h : 0xC2 ≤ n ∧ n ≤ 0xDF then
    ([], some ⟨0, 0x80, 0xBF, n - 0xC0, by decide, by simp only [Nat.isValidChar]; omega⟩)
  else if n = 0xE0 then
    ([], some ⟨1, 0xA0, 0xBF, 0, by decide, by simp only [Nat.isValidChar]; omega⟩)
  else if h : 0xE1 ≤ n ∧ n ≤ 0xEC ∨ 0xEE ≤ n ∧ n ≤ 0xEF then
    ([], some ⟨1, 0x80, 0xBF, n - 0xE0, by decide, by simp only [Nat.isValidChar]; omega⟩)
  else if n = 0xED then
    ([], some ⟨1, 0x80, 0x9F, 0xD, by decide, by simp only [Nat.isValidChar]; omega⟩)
  else if n = 0xF0 then
    ([], some ⟨2, 0x90, 0xBF, 0, by decide, by simp only [Nat.isValidChar]; omega⟩)
  else if h : 0xF1 ≤ n ∧ n ≤ 0xF3 then
    ([], some ⟨2, 0x80, 0xBF, n - 0xF0, by decide, by simp only [Nat.isValidChar]; omega⟩)
  else if n = 0xF4 then
    ([], some ⟨2, 0x80, 0x8F, 4, by decide, by simp only [Nat.isValidChar]; omega⟩)
  else ([replacement], none)

/-- Where a pending character has a byte more, its bits have the value the whole had. -/
theorem Pending.scalar_extend {p : Pending} {m : Nat} (hm : p.missing = m + 1) {b : Nat}
    (hlo : p.lo ≤ b) (hhi : b ≤ p.hi) (n : Nat) {rest : Nat} (hrest : rest < 64 ^ m) :
    0x80 ≤ ((p.bits * 64 + b % 64) * 64 + n % 64) * 64 ^ m + rest ∧
      (((p.bits * 64 + b % 64) * 64 + n % 64) * 64 ^ m + rest).isValidChar := by
  have hmore : n % 64 * 64 ^ m + rest < 64 ^ (m + 1) := by
    calc n % 64 * 64 ^ m + rest
      _ < (n % 64 + 1) * 64 ^ m := by rw [Nat.succ_mul]; omega
      _ ≤ 64 * 64 ^ m := Nat.mul_le_mul_right _ (Nat.mod_lt n (by decide))
      _ = 64 ^ (m + 1) := by rw [Nat.pow_succ, Nat.mul_comm]
  have hval : ((p.bits * 64 + b % 64) * 64 + n % 64) * 64 ^ m + rest
      = (p.bits * 64 + b % 64) * 64 ^ (m + 1) + (n % 64 * 64 ^ m + rest) := by
    ring
  rw [hval]
  exact hm ▸ p.scalar b hlo hhi _ (hm ▸ hmore)

/-- A pending character with one byte more. -/
def Pending.extend (p : Pending) (b : UInt8) (h : p.lo ≤ b.toNat ∧ b.toNat ≤ p.hi) :
    Str × Option Pending :=
  match hm : p.missing with
  | 0 => ([Char.ofNat (p.bits * 64 + b.toNat % 64)], none)
  | m + 1 =>
      ([], some ⟨m, 0x80, 0xBF, p.bits * 64 + b.toNat % 64, by decide,
        fun n _ _ _ hrest => p.scalar_extend hm h.1 h.2 n hrest⟩)

/-- What one byte adds. -/
def feed (st : Option Pending) (b : UInt8) : Str × Option Pending :=
  match st with
  | none => lead b
  | some p =>
      if h : p.lo ≤ b.toNat ∧ b.toNat ≤ p.hi then p.extend b h
      else (replacement :: (lead b).1, (lead b).2)

/-- What is left of a character that is cut short. -/
def flush : Option Pending → Str
  | none => []
  | some _ => [replacement]

def decodeFrom (st : Option Pending) : List UInt8 → Str
  | [] => flush st
  | b :: bytes => (feed st b).1 ++ decodeFrom (feed st b).2 bytes

/-- `String::from_utf8_lossy`. -/
def fromUtf8Lossy (bytes : List UInt8) : Str := decodeFrom none bytes

-- ============================================================================
-- ASCII is transparent
-- ============================================================================

/-- A character beyond ASCII. -/
def Wide (c : Char) : Prop := 0x80 ≤ c.toNat

theorem wide_replacement : Wide replacement := by
  unfold Wide
  decide

theorem toNat_ofNat_of_valid {n : Nat} (h : n.isValidChar) : (Char.ofNat n).toNat = n := by
  rw [Char.ofNat, dif_pos h]
  rfl

theorem lead_ascii {b : UInt8} (h : b.toNat < 0x80) : lead b = ([Char.ofNat b.toNat], none) :=
  if_pos h

/-- A byte of ASCII ends what is pending, and stands for itself. -/
theorem feed_ascii {b : UInt8} (h : b.toNat < 0x80) (st : Option Pending) :
    feed st b = (flush st ++ [Char.ofNat b.toNat], none) := by
  cases st with
  | none => exact lead_ascii h
  | some p =>
      have hout : ¬ (p.lo ≤ b.toNat ∧ b.toNat ≤ p.hi) := fun hin =>
        absurd (p.continuation.1.trans hin.1) (not_le.mpr h)
      rw [feed, dif_neg hout, lead_ascii h]
      rfl

/-- Another byte completes characters beyond ASCII only, and one of them, or it leaves one
    pending. -/
structure WideOnly (out : Str × Option Pending) : Prop where
  wide : ∀ c ∈ out.1, Wide c
  nonempty : out.1 ≠ [] ∨ out.2.isSome

theorem WideOnly.pending (p : Pending) : WideOnly ([], some p) :=
  ⟨List.forall_mem_nil _, .inr rfl⟩

theorem WideOnly.complete {c : Char} (h : Wide c) (st : Option Pending) : WideOnly ([c], st) :=
  ⟨List.forall_mem_singleton.mpr h, .inl (List.cons_ne_nil c [])⟩

theorem lead_wide {b : UInt8} (h : 0x80 ≤ b.toNat) : WideOnly (lead b) := by
  unfold lead
  rw [if_neg (not_lt.mpr h)]
  repeat' split
  all_goals first | exact .pending _ | exact .complete wide_replacement _

theorem extend_wide (p : Pending) {b : UInt8} (h : p.lo ≤ b.toNat ∧ b.toNat ≤ p.hi) :
    WideOnly (p.extend b h) := by
  unfold Pending.extend
  split
  · next hm =>
      obtain ⟨hwide, hvalid⟩ := p.scalar b.toNat h.1 h.2 0 (by rw [hm]; decide)
      rw [hm, Nat.pow_zero, Nat.mul_one, Nat.add_zero] at hwide hvalid
      refine .complete ?_ _
      rwa [Wide, toNat_ofNat_of_valid hvalid]
  · exact .pending _

theorem feed_wide {b : UInt8} (h : 0x80 ≤ b.toNat) (st : Option Pending) :
    WideOnly (feed st b) := by
  cases st with
  | none => exact lead_wide h
  | some p =>
      rw [feed]
      split
      · next hin => exact extend_wide p hin
      · exact ⟨List.forall_mem_cons.mpr ⟨wide_replacement, (lead_wide h).wide⟩,
          .inl (List.cons_ne_nil _ _)⟩

@[simp] theorem fromUtf8Lossy_nil : fromUtf8Lossy [] = [] := rfl

theorem decodeFrom_append_ascii (st : Option Pending) (xs ys : List UInt8) {b : UInt8}
    (h : b.toNat < 0x80) :
    decodeFrom st (xs ++ b :: ys) = decodeFrom st xs ++ Char.ofNat b.toNat :: fromUtf8Lossy ys := by
  induction xs generalizing st with
  | nil =>
      show (feed st b).1 ++ decodeFrom (feed st b).2 ys = flush st ++ _ :: fromUtf8Lossy ys
      rw [feed_ascii h, List.append_assoc]
      rfl
  | cons x xs ih => rw [List.cons_append, decodeFrom, decodeFrom, ih, List.append_assoc]

/-- **Transparency.** The text can be cut at every byte of ASCII. -/
theorem fromUtf8Lossy_append_ascii (xs ys : List UInt8) {b : UInt8} (h : b.toNat < 0x80) :
    fromUtf8Lossy (xs ++ b :: ys) = fromUtf8Lossy xs ++ Char.ofNat b.toNat :: fromUtf8Lossy ys :=
  decodeFrom_append_ascii none xs ys h

theorem fromUtf8Lossy_cons_ascii (ys : List UInt8) {b : UInt8} (h : b.toNat < 0x80) :
    fromUtf8Lossy (b :: ys) = Char.ofNat b.toNat :: fromUtf8Lossy ys :=
  fromUtf8Lossy_append_ascii [] ys h

theorem fromUtf8Lossy_concat_ascii (xs : List UInt8) {b : UInt8} (h : b.toNat < 0x80) :
    fromUtf8Lossy (xs ++ [b]) = fromUtf8Lossy xs ++ [Char.ofNat b.toNat] :=
  fromUtf8Lossy_append_ascii xs [] h

/-- What is pending ends in a character beyond ASCII. -/
theorem decodeFrom_pending (p : Pending) (ys : List UInt8) :
    ∃ c s, decodeFrom (some p) ys = c :: s ∧ Wide c := by
  induction ys generalizing p with
  | nil => exact ⟨replacement, [], rfl, wide_replacement⟩
  | cons y ys ih =>
      rw [decodeFrom, feed]
      split
      · next hin =>
          have hwide := extend_wide p hin
          rcases hout : p.extend y hin with ⟨out, st⟩
          rw [hout] at hwide
          cases out with
          | cons c out => exact ⟨c, _, rfl, hwide.wide c List.mem_cons_self⟩
          | nil =>
              obtain ⟨q, rfl⟩ := Option.isSome_iff_exists.mp
                (hwide.nonempty.resolve_left fun h => h rfl)
              exact ih q
      · exact ⟨replacement, _, rfl, wide_replacement⟩

/-- Behind a byte beyond ASCII the text starts with a character beyond ASCII. -/
theorem fromUtf8Lossy_cons_wide (ys : List UInt8) {b : UInt8} (h : 0x80 ≤ b.toNat) :
    ∃ c s, fromUtf8Lossy (b :: ys) = c :: s ∧ Wide c := by
  have hwide := lead_wide h
  show ∃ c s, (lead b).1 ++ decodeFrom (lead b).2 ys = c :: s ∧ Wide c
  rcases hout : lead b with ⟨out, st⟩
  rw [hout] at hwide
  cases out with
  | cons c out => exact ⟨c, _, rfl, hwide.wide c List.mem_cons_self⟩
  | nil =>
      obtain ⟨p, rfl⟩ := Option.isSome_iff_exists.mp (hwide.nonempty.resolve_left fun h => h rfl)
      exact decodeFrom_pending p ys

theorem decodeFrom_concat_wide (st : Option Pending) (xs : List UInt8) {b : UInt8}
    (h : 0x80 ≤ b.toNat) : ∃ s c, decodeFrom st (xs ++ [b]) = s ++ [c] ∧ Wide c := by
  induction xs generalizing st with
  | nil =>
      have hwide := feed_wide h st
      rw [List.nil_append, decodeFrom, decodeFrom]
      rcases hout : feed st b with ⟨out, st'⟩
      rw [hout] at hwide
      cases st' with
      | some p => exact ⟨out, replacement, rfl, wide_replacement⟩
      | none =>
          have hne : out ≠ [] := hwide.nonempty.resolve_right Bool.false_ne_true
          refine ⟨out.dropLast, out.getLast hne, ?_, hwide.wide _ (List.getLast_mem hne)⟩
          rw [flush, List.append_nil, List.dropLast_concat_getLast hne]
  | cons x xs ih =>
      obtain ⟨s, c, hs, hc⟩ := ih (feed st x).2
      exact ⟨(feed st x).1 ++ s, c, by rw [List.cons_append, decodeFrom, hs, List.append_assoc], hc⟩

/-- And in front of one it ends with one. -/
theorem fromUtf8Lossy_concat_wide (xs : List UInt8) {b : UInt8} (h : 0x80 ≤ b.toNat) :
    ∃ s c, fromUtf8Lossy (xs ++ [b]) = s ++ [c] ∧ Wide c :=
  decodeFrom_concat_wide none xs h

/-- A rewriting of bytes that is one of characters of ASCII: the others pass. -/
structure AsciiRewrite (f : UInt8 → List UInt8) (g : Char → Str) : Prop where
  byte_wide : ∀ b : UInt8, 0x80 ≤ b.toNat → f b = [b]
  char_wide : ∀ c, Wide c → g c = [c]
  nonempty : ∀ b, f b ≠ []
  ascii : ∀ b : UInt8, b.toNat < 0x80 → ∀ x ∈ f b, x.toNat < 0x80
  char_ascii : ∀ b : UInt8, b.toNat < 0x80 →
    g (Char.ofNat b.toNat) = (f b).map fun x => Char.ofNat x.toNat

theorem fromUtf8Lossy_ascii_append {l : List UInt8} (h : ∀ x ∈ l, x.toNat < 0x80)
    (ys : List UInt8) :
    fromUtf8Lossy (l ++ ys) = (l.map fun x => Char.ofNat x.toNat) ++ fromUtf8Lossy ys := by
  induction l with
  | nil => rfl
  | cons x l ih =>
      rw [List.cons_append, fromUtf8Lossy_cons_ascii _ (h x List.mem_cons_self),
        ih fun y hy => h y (List.mem_cons_of_mem _ hy)]
      rfl

theorem AsciiRewrite.flatMap_wide {f : UInt8 → List UInt8} {g : Char → Str}
    (hfg : AsciiRewrite f g) {s : Str} (h : ∀ c ∈ s, Wide c) : s.flatMap g = s := by
  induction s with
  | nil => rfl
  | cons c s ih =>
      rw [List.flatMap_cons, hfg.char_wide c (h c List.mem_cons_self),
        ih fun d hd => h d (List.mem_cons_of_mem _ hd)]
      rfl

theorem wide_of_mem_flush {st : Option Pending} {c : Char} (h : c ∈ flush st) : Wide c := by
  cases st with
  | none => cases h
  | some p =>
      obtain rfl := List.mem_singleton.mp h
      exact wide_replacement

theorem AsciiRewrite.decodeFrom_flatMap {f : UInt8 → List UInt8} {g : Char → Str}
    (hfg : AsciiRewrite f g) (st : Option Pending) (bytes : List UInt8) :
    decodeFrom st (bytes.flatMap f) = (decodeFrom st bytes).flatMap g := by
  induction bytes generalizing st with
  | nil => exact (hfg.flatMap_wide fun _ => wide_of_mem_flush).symm
  | cons b bytes ih =>
      rcases Nat.lt_or_ge b.toNat 0x80 with hascii | hwide
      · obtain ⟨x, l, hl⟩ := List.exists_cons_of_ne_nil (hfg.nonempty b)
        have hall := hfg.ascii b hascii
        have hg := hfg.char_ascii b hascii
        rw [hl] at hall hg
        have htail := fromUtf8Lossy_ascii_append (fun y hy => hall y (List.mem_cons_of_mem _ hy))
          (bytes.flatMap f)
        calc decodeFrom st ((b :: bytes).flatMap f)
          _ = decodeFrom st ([] ++ x :: (l ++ bytes.flatMap f)) := by rw [List.flatMap_cons, hl]; rfl
          _ = flush st ++ (g (Char.ofNat b.toNat) ++ fromUtf8Lossy (bytes.flatMap f)) := by
              rw [decodeFrom_append_ascii st [] _ (hall x List.mem_cons_self), htail, hg]
              rfl
          _ = (flush st ++ [Char.ofNat b.toNat] ++ decodeFrom none bytes).flatMap g := by
              rw [List.flatMap_append, List.flatMap_append,
                hfg.flatMap_wide fun _ => wide_of_mem_flush, List.flatMap_singleton, fromUtf8Lossy,
                ih, List.append_assoc]
          _ = (decodeFrom st (b :: bytes)).flatMap g := by rw [decodeFrom, feed_ascii hascii]
      · rw [List.flatMap_cons, hfg.byte_wide b hwide, List.singleton_append, decodeFrom, decodeFrom,
          List.flatMap_append, hfg.flatMap_wide (feed_wide hwide st).wide, ih]

/-- Such a rewriting commutes with decoding. -/
theorem AsciiRewrite.fromUtf8Lossy_flatMap {f : UInt8 → List UInt8} {g : Char → Str}
    (hfg : AsciiRewrite f g) (bytes : List UInt8) :
    fromUtf8Lossy (bytes.flatMap f) = (fromUtf8Lossy bytes).flatMap g :=
  hfg.decodeFrom_flatMap none bytes

-- ============================================================================
-- What is ASCII can be read off the bytes
-- ============================================================================

theorem wide_ofNat {b : UInt8} (h : 0x80 ≤ b.toNat) : Wide (Char.ofNat b.toNat) := by
  have hb := b.toNat_lt
  rwa [Wide, toNat_ofNat_of_valid (.inl (by omega))]

theorem ofNat_inj {a b : UInt8} (h : Char.ofNat a.toNat = Char.ofNat b.toNat) : a = b := by
  have ha := a.toNat_lt
  have hb := b.toNat_lt
  have := congrArg Char.toNat h
  rw [toNat_ofNat_of_valid (.inl (by omega)), toNat_ofNat_of_valid (.inl (by omega))] at this
  exact UInt8.toNat_inj.mp this

theorem fromUtf8Lossy_append_asciis (xs : List UInt8) {l : List UInt8}
    (h : ∀ x ∈ l, x.toNat < 0x80) :
    fromUtf8Lossy (xs ++ l) = fromUtf8Lossy xs ++ l.map fun x => Char.ofNat x.toNat := by
  cases l with
  | nil => rw [List.append_nil, List.map_nil, List.append_nil]
  | cons x l =>
      have htail := fromUtf8Lossy_ascii_append (fun y hy => h y (List.mem_cons_of_mem _ hy)) []
      rw [List.append_nil, fromUtf8Lossy_nil, List.append_nil] at htail
      rw [fromUtf8Lossy_append_ascii _ _ (h x List.mem_cons_self), htail]
      rfl

/-- A word of ASCII ends the text exactly when its bytes end the bytes. -/
theorem suffix_fromUtf8Lossy_iff {l : List UInt8} (h : ∀ x ∈ l, x.toNat < 0x80)
    (bytes : List UInt8) :
    (l.map fun x => Char.ofNat x.toNat) <:+ fromUtf8Lossy bytes ↔ l <:+ bytes := by
  constructor
  · intro hsuffix
    induction l using List.reverseRecOn generalizing bytes with
    | nil => exact List.nil_suffix
    | append_singleton l x ih =>
        obtain ⟨a, ha⟩ := hsuffix
        rw [List.map_append, ← List.append_assoc] at ha
        have hx := h x (List.mem_append_right l (List.mem_singleton_self x))
        rcases List.eq_nil_or_concat bytes with rfl | ⟨bytes, b, rfl⟩
        · exact absurd ha (by simp)
        · rw [List.concat_eq_append] at ha ⊢
          rcases Nat.lt_or_ge b.toNat 0x80 with hascii | hwide
          · rw [fromUtf8Lossy_concat_ascii _ hascii] at ha
            obtain ⟨hrest, hlast⟩ := List.append_inj' ha rfl
            obtain rfl := ofNat_inj (List.cons.inj hlast).1
            obtain ⟨t, rfl⟩ := ih (fun y hy => h y (List.mem_append_left _ hy)) bytes ⟨a, hrest⟩
            exact ⟨t, by rw [List.append_assoc]⟩
          · obtain ⟨s, c, hs, hc⟩ := fromUtf8Lossy_concat_wide bytes hwide
            rw [hs] at ha
            have hlast := (List.cons.inj (List.append_inj' ha rfl).2).1
            rw [Wide, ← hlast, toNat_ofNat_of_valid (.inl (by omega))] at hc
            omega
  · rintro ⟨a, rfl⟩
    rw [fromUtf8Lossy_append_asciis a h]
    exact List.suffix_append _ _

/-- So can a run of ASCII characters from the start. -/
theorem takeWhile_fromUtf8Lossy {P : Char → Bool} (hP : ∀ c, Wide c → P c = false)
    (bytes : List UInt8) :
    (fromUtf8Lossy bytes).takeWhile P
      = (bytes.takeWhile fun b => P (Char.ofNat b.toNat)).map fun b => Char.ofNat b.toNat := by
  induction bytes with
  | nil => rfl
  | cons b bytes ih =>
      rcases Nat.lt_or_ge b.toNat 0x80 with hascii | hwide
      · rw [fromUtf8Lossy_cons_ascii _ hascii, List.takeWhile_cons, List.takeWhile_cons, ih]
        split <;> rfl
      · obtain ⟨c, s, hs, hc⟩ := fromUtf8Lossy_cons_wide bytes hwide
        rw [hs, List.takeWhile_cons_of_neg (by rw [hP c hc]; exact Bool.false_ne_true),
          List.takeWhile_cons_of_neg (by rw [hP _ (wide_ofNat hwide)]; exact Bool.false_ne_true)]
        rfl

end Utf8
