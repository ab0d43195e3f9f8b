/-
  MixTor.Crypto.KeyHex

  Keys as text (`key_to_hex`, `key_from_hex`, crypto.rs): identities on disk and the
  `cert=` of a bridge line.

  The parser takes two bytes at a time and hands them to `u8::from_str_radix`.  That
  parser also takes a sign, so `+f` is read as a byte; and two bytes that end inside
  a character cannot be sliced at all.
-/

import MixTor.Crypto.Handshake
import MixTor.Lib.Text

namespace MixTor.Crypto

open Text

-- ============================================================================
-- The two functions
-- ============================================================================

/-- A lower-case hexadecimal digit. -/
def hexChar (d : Nat) : Char := Char.ofNat (if d < 10 then 48 + d else 87 + d)

/-- `format!("{b:02x}")`. -/
def hexByte (b : UInt8) : Str := [hexChar (b.toNat / 16), hexChar (b.toNat % 16)]

/-- Hex-encode a key. -/
def keyToHex (bytes : Key) : Str := bytes.toList.flatMap hexByte

/-- The loop over the slots from `i` on, `n` of them.  `none` is a panic, `some none` the
    early return of `None`. -/
def readSlots (s : Str) (i : Nat) : Nat → Option (Option Bytes)
  | 0 => some (some [])
  | n + 1 =>
      match slice s (2 * i) (2 * i + 2) with
      | none => none
      | some pair =>
          match fromStrRadix 16 255 pair with
          | none => some none
          | some b => (readSlots s (i + 1) n).map (Option.map (UInt8.ofNat b :: ·))

/-- Parse a 64-char hex string. -/
def keyFromHex (s : Str) : Option (Option Key) :=
  let s := trim s
  if byteLen s ≠ 64 then some none
  else (readSlots s 0 32).map (Option.map toKey)

-- ============================================================================
-- Digits
-- ============================================================================

theorem toNat_lt_of_toDigit {c : Char} {d : Nat} (h : toDigit 16 c = some d) : c.toNat < 128 := by
  unfold toDigit at h
  by_contra hbig
  have hno : ∀ e : Char, e.toNat < 128 → ¬ c ≤ e := by
    intro e he hle
    exact hbig (lt_of_le_of_lt hle he)
  rw [if_neg (fun hr => hno '9' (by decide) hr.2), if_neg (fun hr => hno 'f' (by decide) hr.2),
    if_neg (fun hr => hno 'F' (by decide) hr.2)] at h
  cases h

/-- A hexadecimal digit is a character of one byte, below 16, and its lower case is the
    digit that is printed. -/
theorem toDigit_spec {c : Char} {d : Nat} (h : toDigit 16 c = some d) :
    c.utf8Size = 1 ∧ d < 16 ∧ hexChar d = c.toLower ∧ c ≠ '+' ∧ isWhitespace c = false := by
  have hall : ∀ n < 128, ∀ d, toDigit 16 (Char.ofNat n) = some d →
      (Char.ofNat n).utf8Size = 1 ∧ d < 16 ∧ hexChar d = (Char.ofNat n).toLower ∧
        Char.ofNat n ≠ '+' ∧ isWhitespace (Char.ofNat n) = false := by
    decide +kernel
  exact hall c.toNat (toNat_lt_of_toDigit h) d (by rwa [Char.ofNat_toNat]) |>.imp
    (fun h1 => by rwa [Char.ofNat_toNat] at h1) (fun h2 => by rwa [Char.ofNat_toNat] at h2)

/-- The digits of a printed byte read back. -/
theorem toDigit_hexByte (b : UInt8) :
    toDigit 16 (hexChar (b.toNat / 16)) = some (b.toNat / 16) ∧
      toDigit 16 (hexChar (b.toNat % 16)) = some (b.toNat % 16) := by
  have hall : ∀ d < 16, toDigit 16 (hexChar d) = some d := by decide +kernel
  have hb := b.toNat_lt
  exact ⟨hall _ (by omega), hall _ (by omega)⟩

/-- The bytes that a string of digits spells, two digits each. -/
def spelled : Str → Option Bytes
  | [] => some []
  | [_] => none
  | a :: b :: t => do
      let hi ← toDigit 16 a
      let lo ← toDigit 16 b
      return UInt8.ofNat (hi * 16 + lo) :: (← spelled t)

theorem spelled_cons {a b : Char} {t : Str} {bytes : Bytes} (h : spelled (a :: b :: t) = some bytes) :
    ∃ hi lo rest, toDigit 16 a = some hi ∧ toDigit 16 b = some lo ∧ spelled t = some rest ∧
      bytes = UInt8.ofNat (hi * 16 + lo) :: rest := by
  obtain ⟨hi, hhi, h⟩ := Option.bind_eq_some_iff.mp h
  obtain ⟨lo, hlo, h⟩ := Option.bind_eq_some_iff.mp h
  obtain ⟨rest, hrest, h⟩ := Option.bind_eq_some_iff.mp h
  exact ⟨hi, lo, rest, hhi, hlo, hrest, (Option.some.inj h).symm⟩

/-- What is spelled consists of digits, two for a byte, of one byte each; printed again it
    is the lower case of what was read. -/
theorem spelled_spec {t : Str} {bytes : Bytes} (h : spelled t = some bytes) :
    t.length = 2 * bytes.length ∧ (∀ c ∈ t, (toDigit 16 c).isSome) ∧
      bytes.flatMap hexByte = t.map Char.toLower := by
  fun_induction spelled t generalizing bytes with
  | case1 =>
      obtain rfl := Option.some.inj h
      exact ⟨rfl, nofun, rfl⟩
  | case2 => cases h
  | case3 a b t ih =>
      obtain ⟨hi, lo, rest, hhi, hlo, hrest, rfl⟩ := spelled_cons h
      obtain ⟨hlen, hdigits, hprint⟩ := ih hrest
      obtain ⟨-, hhi16, hhichar, -⟩ := toDigit_spec hhi
      obtain ⟨-, hlo16, hlochar, -⟩ := toDigit_spec hlo
      have hvalue : (UInt8.ofNat (hi * 16 + lo)).toNat = hi * 16 + lo := by
        rw [UInt8.toNat_ofNat', Nat.mod_eq_of_lt]
        omega
      refine ⟨?_, ?_, ?_⟩
      · rw [List.length_cons, List.length_cons, List.length_cons, hlen]
        omega
      · intro c hc
        rcases List.mem_cons.mp hc with rfl | hc
        · rw [hhi]; rfl
        · rcases List.mem_cons.mp hc with rfl | hc
          · rw [hlo]; rfl
          · exact hdigits c hc
      · have hdiv : (hi * 16 + lo) / 16 = hi := by omega
        have hmod : (hi * 16 + lo) % 16 = lo := by omega
        rw [List.flatMap_cons, hprint, hexByte, hvalue, hdiv, hmod, hhichar, hlochar]
        rfl

/-- A string of digits of even length spells something. -/
theorem exists_spelled {t : Str} (hdigits : ∀ c ∈ t, (toDigit 16 c).isSome) {n : Nat}
    (hlen : t.length = 2 * n) : ∃ bytes, spelled t = some bytes := by
  fun_induction spelled t generalizing n with
  | case1 => exact ⟨[], rfl⟩
  | case2 =>
      rw [List.length_singleton] at hlen
      omega
  | case3 a b t ih =>
      obtain ⟨hi, hhi⟩ := Option.isSome_iff_exists.mp (hdigits a (by simp))
      obtain ⟨lo, hlo⟩ := Option.isSome_iff_exists.mp (hdigits b (by simp))
      obtain ⟨rest, hrest⟩ := ih (n := n - 1) (fun c hc => hdigits c (by simp [hc]))
        (by simp only [List.length_cons] at hlen; omega)
      exact ⟨_, by rw [hhi, hlo, hrest]; rfl⟩

theorem spelled_flatMap_hexByte (bytes : Bytes) : spelled (bytes.flatMap hexByte) = some bytes := by
  induction bytes with
  | nil => rfl
  | cons b bytes ih =>
      obtain ⟨hhi, hlo⟩ := toDigit_hexByte b
      have hb : UInt8.ofNat (b.toNat / 16 * 16 + b.toNat % 16) = b := by
        rw [Nat.div_add_mod', UInt8.ofNat_toNat]
      rw [List.flatMap_cons, hexByte, List.cons_append, List.cons_append, List.nil_append, spelled,
        hhi, hlo, ih]
      show some (UInt8.ofNat (b.toNat / 16 * 16 + b.toNat % 16) :: bytes) = some (b :: bytes)
      rw [hb]

-- ============================================================================
-- Pairs
-- ============================================================================

/-- What the integer parser makes of two characters of one byte. -/
def pairValue (a b : Char) : Option Nat :=
  if a = '+' then toDigit 16 b
  else (toDigit 16 a).bind fun hi => (toDigit 16 b).map (hi * 16 + ·)

/-- What stands behind the pairs that the integer parser takes: a hexadecimal digit behind
    a hexadecimal digit or a `+`. -/
def unpaired : Str → Str
  | a :: b :: t => if (pairValue a b).isSome then unpaired t else a :: b :: t
  | t => t

theorem fromStrRadix_pair (a b : Char) : fromStrRadix 16 255 [a, b] = pairValue a b := by
  have hdigit : ∀ c, toDigit 16 c = none ∨ ∃ d, toDigit 16 c = some d ∧ d < 16 := by
    intro c
    cases h : toDigit 16 c with
    | none => exact .inl rfl
    | some d => exact .inr ⟨d, rfl, (toDigit_spec h).2.1⟩
  by_cases hplus : a = '+'
  · subst hplus
    rcases hdigit b with hb | ⟨d, hb, hd⟩
    · simp [fromStrRadix, readDigits, pairValue, hb]
    · simp [fromStrRadix, readDigits, pairValue, hb]
      omega
  · have hread : fromStrRadix 16 255 [a, b] = readDigits 16 255 0 [a, b] := by
      unfold fromStrRadix
      split <;> simp_all
    rw [hread, pairValue, if_neg hplus]
    rcases hdigit a with ha | ⟨hi, ha, hhi⟩
    · simp [readDigits, ha]
    · rcases hdigit b with hb | ⟨lo, hb, hlo⟩
      · simp [readDigits, ha, hb]
      · simp [readDigits, ha, hb]
        omega

/-- One character of more than one byte is no number. -/
theorem fromStrRadix_wide {c : Char} (h : c.utf8Size ≠ 1) : fromStrRadix 16 255 [c] = none := by
  have hnone : toDigit 16 c = none := by
    cases hd : toDigit 16 c with
    | none => rfl
    | some d => exact absurd (toDigit_spec hd).1 h
  unfold fromStrRadix
  split
  · rfl
  · rfl
  · rfl
  · next digits heq => 
      obtain ⟨rfl, -⟩ := List.cons.inj heq
      exact absurd rfl h
  · rw [readDigits, hnone]

theorem utf8Size_of_pairValue {a b : Char} {v : Nat} (h : pairValue a b = some v) :
    a.utf8Size = 1 ∧ b.utf8Size = 1 := by
  unfold pairValue at h
  split at h
  · next hplus => exact ⟨by rw [hplus]; rfl, (toDigit_spec h).1⟩
  · obtain ⟨hi, hhi, h⟩ := Option.bind_eq_some_iff.mp h
    obtain ⟨lo, hlo, -⟩ := Option.map_eq_some_iff.mp h
    exact ⟨(toDigit_spec hhi).1, (toDigit_spec hlo).1⟩

/-- Two bytes are one character or two. -/
theorem pair_of_byteLen {pair : Str} (h : byteLen pair = 2) :
    (∃ c, pair = [c] ∧ c.utf8Size = 2) ∨ ∃ c d, pair = [c, d] := by
  match pair with
  | [] => cases h
  | [c] => exact .inl ⟨c, rfl, h⟩
  | [c, d] => exact .inr ⟨c, d, rfl⟩
  | c :: d :: e :: t =>
      have := c.utf8Size_pos
      have := d.utf8Size_pos
      have := e.utf8Size_pos
      simp only [byteLen_cons] at h
      omega

/-- The loop, on what is left of the string. -/
def readPairs : Nat → Str → Option (Option Bytes)
  | 0, _ => some (some [])
  | n + 1, rest =>
      match splitAt rest 2 with
      | none => none
      | some (pair, rest) =>
          match fromStrRadix 16 255 pair with
          | none => some none
          | some b => (readPairs n rest).map (Option.map (UInt8.ofNat b :: ·))

theorem readSlots_eq {s pre rest : Str} {i : Nat} (h : splitAt s (2 * i) = some (pre, rest))
    (n : Nat) : readSlots s i n = readPairs n rest := by
  induction n generalizing i pre rest with
  | zero => rfl
  | succ n ih =>
      rw [readSlots, readPairs, slice_of_splitAt h, sliceTo]
      have hadd := splitAt_add h 2
      cases hcut : splitAt rest 2 with
      | none => rfl
      | some cut =>
          obtain ⟨pair, rest'⟩ := cut
          rw [hcut] at hadd
          dsimp only [Option.map_some]
          cases fromStrRadix 16 255 pair with
          | none => rfl
          | some b =>
              have hnext : splitAt s (2 * (i + 1)) = some (pre ++ pair, rest') := hadd
              dsimp only
              rw [ih hnext]

/-- What the loop does with a string of `n` pairs of bytes. -/
inductive PairsRead (t : Str) : Option (Option Bytes) → Prop
  | all (bytes : Bytes) (h : unpaired t = []) : PairsRead t (some (some bytes))
  | rejected (h : unpaired t ≠ []) (hcut : isCharBoundary (unpaired t) 2) : PairsRead t (some none)
  | panics (h : unpaired t ≠ []) (hcut : ¬ isCharBoundary (unpaired t) 2) : PairsRead t none

/-- The loop ends at a pair of bytes that it does not take. -/
theorem readPairs_stop {t : Str} {n : Nat} (hlen : byteLen t = 2 * n) (hne : t ≠ [])
    (hun : unpaired t = t)
    (hnone : ∀ pair rest, splitAt t 2 = some (pair, rest) → fromStrRadix 16 255 pair = none) :
    PairsRead t (readPairs n t) := by
  cases n with
  | zero =>
      obtain ⟨c, t', rfl⟩ := List.exists_cons_of_ne_nil hne
      have := c.utf8Size_pos
      rw [byteLen_cons] at hlen
      omega
  | succ n =>
      rw [readPairs]
      cases hcut : splitAt t 2 with
      | none =>
          refine .panics (by rwa [hun]) ?_
          rw [hun, isCharBoundary, hcut]
          exact Bool.false_ne_true
      | some cut =>
          dsimp only
          rw [hnone cut.1 cut.2 hcut]
          refine .rejected (by rwa [hun]) ?_
          rw [hun, isCharBoundary, hcut]
          rfl

/-- The loop goes on behind a pair that it takes. -/
theorem PairsRead.cons {a b : Char} {t : Str} {v n : Nat} (hv : pairValue a b = some v)
    (hrest : PairsRead t (readPairs n t)) :
    PairsRead (a :: b :: t) (readPairs (n + 1) (a :: b :: t)) := by
  obtain ⟨ha, hb⟩ := utf8Size_of_pairValue hv
  have hun : unpaired (a :: b :: t) = unpaired t := by
    rw [unpaired, if_pos (Option.isSome_of_eq_some hv)]
  have hcut : splitAt (a :: b :: t) 2 = some ([a, b], t) :=
    splitAt_eq_some.mpr ⟨rfl, by rw [byteLen_cons, byteLen_cons, ha, hb]; rfl⟩
  rw [readPairs, hcut]
  simp only [fromStrRadix_pair, hv]
  cases hread : readPairs n t with
  | none =>
      rw [hread] at hrest
      cases hrest with
      | panics h hin => exact .panics (by rwa [hun]) (by rwa [hun])
  | some answer =>
      rw [hread] at hrest
      cases hrest with
      | all bytes h => exact .all _ (by rwa [hun])
      | rejected h hin => exact .rejected (by rwa [hun]) (by rwa [hun])

/-- The loop stops at the first pair of bytes that it does not take.  The induction follows
    the pairs it takes. -/
theorem readPairs_read {t : Str} {n : Nat} (hlen : byteLen t = 2 * n) :
    PairsRead t (readPairs n t) := by
  fun_induction unpaired t generalizing n with
  | case1 a b t hpair ih =>
      obtain ⟨v, hv⟩ := Option.isSome_iff_exists.mp hpair
      obtain ⟨ha, hb⟩ := utf8Size_of_pairValue hv
      rw [byteLen_cons, byteLen_cons, ha, hb] at hlen
      obtain ⟨m, rfl⟩ : ∃ m, n = m + 1 := ⟨n - 1, by omega⟩
      exact .cons hv (ih (by omega))
  | case2 a b t hpair =>
      have hvalue : pairValue a b = none := by rwa [Option.not_isSome_iff_eq_none] at hpair
      refine readPairs_stop hlen (List.cons_ne_nil a _) (by rw [unpaired, if_neg hpair]) ?_
      intro pair rest hcut
      obtain ⟨hsplit, hsize⟩ := splitAt_eq_some.mp hcut
      rcases pair_of_byteLen hsize with ⟨c, rfl, hc⟩ | ⟨c, d, rfl⟩
      · exact fromStrRadix_wide (by rw [hc]; decide)
      · obtain ⟨rfl, hbehind⟩ := List.cons.inj hsplit
        obtain ⟨rfl, -⟩ := List.cons.inj hbehind
        rw [fromStrRadix_pair, hvalue]
  | case3 t hshort =>
      match t with
      | [] =>
          rw [byteLen_nil] at hlen
          obtain rfl : n = 0 := by omega
          exact .all [] rfl
      | [c] =>
          refine readPairs_stop hlen (List.cons_ne_nil c _) rfl ?_
          intro pair rest hcut
          obtain ⟨hsplit, hsize⟩ := splitAt_eq_some.mp hcut
          rcases pair_of_byteLen hsize with ⟨d, rfl, hd⟩ | ⟨d, e, rfl⟩
          · exact fromStrRadix_wide (by rw [hd]; decide)
          · cases hsplit
      | a :: b :: t => exact absurd rfl (hshort a b t)

-- ============================================================================
-- Keys
-- ============================================================================

/-- The string is the 64 hexadecimal digits of the key. -/
structure Spells (t : Str) (k : Key) : Prop where
  length : t.length = 64
  digits : ∀ c ∈ t, (toDigit 16 c).isSome
  value : spelled t = some k.toList

/-- The parser is right about `s`: it returns the key that the trimmed string spells, if it
    spells one, and no other; and a key it returns is printed as the trimmed string in
    lower case. -/
def Correct (s : Str) : Prop :=
  ∃ answer, keyFromHex s = some answer ∧ (∀ k, answer = some k ↔ Spells (trim s) k) ∧
    ∀ k, answer = some k → keyToHex k = (trim s).map Char.toLower

/-- The trimmed string does not have the length of a key, or it consists of digits, or its
    first pair of bytes that is no digit behind a digit or a `+` is made of whole
    characters. -/
def Readable (s : Str) : Prop :=
  byteLen (trim s) ≠ 64 ∨ (∀ c ∈ trim s, (toDigit 16 c).isSome) ∨
    unpaired (trim s) ≠ [] ∧ isCharBoundary (unpaired (trim s)) 2

instance (s : Str) : Decidable (Readable s) :=
  inferInstanceAs (Decidable (_ ∨ _ ∨ _))

/-- A string of digits has as many bytes as characters. -/
theorem byteLen_of_digits {t : Str} (h : ∀ c ∈ t, (toDigit 16 c).isSome) :
    byteLen t = t.length := by
  induction t with
  | nil => rfl
  | cons c t ih =>
      obtain ⟨d, hd⟩ := Option.isSome_iff_exists.mp (h c List.mem_cons_self)
      rw [byteLen_cons, (toDigit_spec hd).1, ih fun e he => h e (List.mem_cons_of_mem _ he),
        List.length_cons, Nat.add_comm]

/-- The loop takes the digits it spells. -/
theorem readPairs_of_spelled {t : Str} {bytes : Bytes} (h : spelled t = some bytes) :
    readPairs bytes.length t = some (some bytes) := by
  fun_induction spelled t generalizing bytes with
  | case1 =>
      obtain rfl := Option.some.inj h
      rfl
  | case2 => cases h
  | case3 a b t ih =>
      obtain ⟨hi, lo, rest, hhi, hlo, hrest, rfl⟩ := spelled_cons h
      obtain ⟨ha, -, -, hplus, -⟩ := toDigit_spec hhi
      have hcut : splitAt (a :: b :: t) 2 = some ([a, b], t) :=
        splitAt_eq_some.mpr ⟨rfl, by
          rw [byteLen_cons, byteLen_cons, ha, (toDigit_spec hlo).1]
          rfl⟩
      have hvalue : pairValue a b = some (hi * 16 + lo) := by
        rw [pairValue, if_neg hplus, hhi, hlo]
        rfl
      rw [List.length_cons, readPairs, hcut]
      simp only [fromStrRadix_pair, hvalue, ih hrest]
      rfl

theorem keyFromHex_eq {s : Str} (h : byteLen (trim s) = 64) :
    keyFromHex s = (readPairs 32 (trim s)).map (Option.map toKey) := by
  rw [keyFromHex]
  simp only [if_neg (not_not.mpr h)]
  have hstart : splitAt (trim s) (2 * 0) = some ([], trim s) := splitAt_zero (trim s)
  rw [readSlots_eq hstart]

/-- A string that spells a key is read as that key. -/
theorem keyFromHex_of_spells {s : Str} {k : Key} (h : Spells (trim s) k) :
    keyFromHex s = some (some k) := by
  have hread := readPairs_of_spelled h.value
  rw [Vector.length_toList] at hread
  rw [keyFromHex_eq ((byteLen_of_digits h.digits).trans h.length), hread]
  show some (some (toKey k.toList)) = _
  rw [toKey_toList]

theorem keyToHex_of_spells {t : Str} {k : Key} (h : Spells t k) :
    keyToHex k = t.map Char.toLower := (spelled_spec h.value).2.2

/-- 64 digits spell a key. -/
theorem exists_spells {t : Str} (hlen : t.length = 64) (hdigits : ∀ c ∈ t, (toDigit 16 c).isSome) :
    ∃ k, Spells t k := by
  obtain ⟨bytes, hbytes⟩ := exists_spelled (n := 32) hdigits hlen
  have hlength : bytes.length = 32 := by
    have := (spelled_spec hbytes).1
    omega
  exact ⟨toKey bytes, hlen, hdigits, by rw [toList_toKey hlength, hbytes]⟩

theorem Spells.unique {t : Str} {k k' : Key} (h : Spells t k) (h' : Spells t k') : k = k' :=
  Vector.toList_inj.mp (Option.some.inj (h.value.symm.trans h'.value))

/-- Every key is read back from its text. -/
theorem spells_keyToHex (k : Key) : Spells (trim (keyToHex k)) k := by
  have hspelled := spelled_flatMap_hexByte k.toList
  obtain ⟨hlen, hdigits, -⟩ := spelled_spec hspelled
  have htrim : trim (keyToHex k) = keyToHex k := by
    apply trim_of_forall
    intro c hc
    obtain ⟨d, hd⟩ := Option.isSome_iff_exists.mp (hdigits c hc)
    exact (toDigit_spec hd).2.2.2.2
  rw [htrim]
  exact ⟨by rw [keyToHex, hlen, Vector.length_toList], hdigits, hspelled⟩

/-- A readable string that spells no key is refused. -/
theorem keyFromHex_rejects {s : Str} (hreadable : Readable s) (hkey : ∀ k, ¬ Spells (trim s) k) :
    keyFromHex s = some none := by
  by_cases hlen : byteLen (trim s) = 64
  · rcases hreadable with hbad | hdigits | ⟨hne, hin⟩
    · exact absurd hlen hbad
    · obtain ⟨k, hk⟩ := exists_spells ((byteLen_of_digits hdigits).symm.trans hlen) hdigits
      exact absurd hk (hkey k)
    · have hread := readPairs_read (n := 32) hlen
      rw [keyFromHex_eq hlen]
      cases hpairs : readPairs 32 (trim s) with
      | none =>
          rw [hpairs] at hread
          cases hread with
          | panics h hcut => exact absurd hin hcut
      | some pairs =>
          rw [hpairs] at hread
          cases hread with
          | all bytes h => exact absurd h hne
          | rejected h hcut => rfl
  · rw [keyFromHex]
    simp only [if_pos hlen]

theorem correct_of_readable {s : Str} (h : Readable s) : Correct s := by
  by_cases hkey : ∃ k, Spells (trim s) k
  · obtain ⟨k, hk⟩ := hkey
    refine ⟨some k, keyFromHex_of_spells hk, fun k' => ⟨fun h => ?_, fun h => ?_⟩, fun k' h => ?_⟩
    · obtain rfl := Option.some.inj h
      exact hk
    · rw [hk.unique h]
    · obtain rfl := Option.some.inj h
      exact keyToHex_of_spells hk
  · rw [not_exists] at hkey
    exact ⟨none, keyFromHex_rejects h hkey, fun k => ⟨nofun, fun hk => absurd hk (hkey k)⟩, nofun⟩

/-- An unreadable string has 64 bytes, not all digits: where the loop goes through it, it
    returns a key that is not spelled. -/
theorem readable_of_correct {s : Str} (h : Correct s) : Readable s := by
  obtain ⟨answer, hanswer, hspells, -⟩ := h
  by_contra hunreadable
  obtain ⟨hlen, hdigits, hcut⟩ : byteLen (trim s) = 64 ∧
      ¬ (∀ c ∈ trim s, (toDigit 16 c).isSome) ∧
      ¬ (unpaired (trim s) ≠ [] ∧ isCharBoundary (unpaired (trim s)) 2) := by
    unfold Readable at hunreadable
    tauto
  rw [keyFromHex_eq hlen] at hanswer
  have hread := readPairs_read (n := 32) hlen
  cases hpairs : readPairs 32 (trim s) with
  | none =>
      rw [hpairs] at hanswer
      cases hanswer
  | some pairs =>
      rw [hpairs] at hanswer hread
      cases hread with
      | all bytes hall =>
          obtain rfl := Option.some.inj hanswer
          exact hdigits ((hspells (toKey bytes)).mp rfl).digits
      | rejected hne hin => exact hcut ⟨hne, hin⟩

/-- **Keys as text.**  For every string, the parser returns without a panic exactly the key
    that the trimmed string spells, if and only if the string is readable: where pairs of
    the right length end inside a character it panics, and where one has a `+` in the
    place of a digit it returns a key that the string does not spell.  Every key is
    read back from what it is printed as. -/
theorem keyFromHex_correct_iff (s : Str) (k : Key) :
    (Correct s ↔ Readable s) ∧ keyFromHex (keyToHex k) = some (some k) :=
  ⟨⟨readable_of_correct, correct_of_readable⟩, keyFromHex_of_spells (spells_keyToHex k)⟩

/-- 32 times `+1`, which is read as a key. -/
def signedPairs : Str := (List.replicate 32 "+1".toList).flatten

/-- A character of three bytes and 61 digits. -/
def wideStart : Str := '€' :: List.replicate 61 '0'

/-- A signed pair is taken for a byte, and a character that straddles two pairs is a panic. -/
theorem keyFromHex_panics_or_misreads :
    keyFromHex signedPairs = some (some (Vector.replicate 32 1)) ∧ ¬ Correct signedPairs ∧
      keyFromHex wideStart = none ∧ ¬ Correct wideStart := by
  have hsigned : keyFromHex signedPairs = some (some (Vector.replicate 32 1)) := by decide +kernel
  have hwide : keyFromHex wideStart = none := by decide +kernel
  refine ⟨hsigned, ?_, hwide, ?_⟩
  · rintro ⟨answer, hanswer, hspells, -⟩
    obtain rfl := Option.some.inj (hsigned.symm.trans hanswer)
    have hplus : '+' ∈ trim signedPairs := by decide +kernel
    exact absurd (((hspells _).mp rfl).digits '+' hplus) (by decide)
  · rintro ⟨answer, hanswer, -⟩
    rw [hwide] at hanswer
    cases hanswer

end MixTor.Crypto
