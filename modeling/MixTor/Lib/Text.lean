/-
  MixTor.Lib.Text

  Strings of characters addressed by byte offsets.

  A string is the list of its characters.  Its slices are given by byte offsets of
  its UTF-8 encoding, and an offset inside a character, or behind the end, is no
  place to cut: `none`.  Integers are read as the standard library reads them: an
  optional `+`, then digits, without overflow.
-/

import Mathlib.Data.List.Basic
import Mathlib.Order.Basic

namespace Text

/-- A string, as the list of its characters. -/
abbrev Str := List Char

-- ============================================================================
-- Byte offsets
-- ============================================================================

/-- Length in bytes. -/
def byteLen : Str → Nat
  | [] => 0
  | c :: s => c.utf8Size + byteLen s

@[simp] theorem byteLen_nil : byteLen [] = 0 := rfl

@[simp] theorem byteLen_cons (c : Char) (s : Str) :
    byteLen (c :: s) = c.utf8Size + byteLen s := rfl

@[simp] theorem byteLen_append (s t : Str) : byteLen (s ++ t) = byteLen s + byteLen t := by
  induction s with
  | nil => exact (Nat.zero_add _).symm
  | cons c s ih => rw [List.cons_append, byteLen_cons, byteLen_cons, ih, Nat.add_assoc]

/-- Cut at a byte offset, if it is a character boundary. -/
def splitAt : Str → Nat → Option (Str × Str)
  | s, 0 => some ([], s)
  | [], _ + 1 => none
  | c :: s, n + 1 =>
      if c.utf8Size ≤ n + 1 then
        (splitAt s (n + 1 - c.utf8Size)).map fun (pre, post) => (c :: pre, post)
      else none

/-- `s.is_char_boundary(n)`. -/
def isCharBoundary (s : Str) (n : Nat) : Prop := (splitAt s n).isSome

instance (s : Str) (n : Nat) : Decidable (isCharBoundary s n) :=
  inferInstanceAs (Decidable ((splitAt s n).isSome = true))

@[simp] theorem splitAt_zero (s : Str) : splitAt s 0 = some ([], s) := by
  cases s <;> rfl

theorem splitAt_cons {c : Char} {n : Nat} (s : Str) (h : c.utf8Size ≤ n) :
    splitAt (c :: s) n = (splitAt s (n - c.utf8Size)).map fun (pre, post) => (c :: pre, post) := by
  cases n with
  | zero => exact absurd (Nat.le_zero.mp h) (Nat.ne_of_gt c.utf8Size_pos)
  | succ n => rw [splitAt, if_pos h]

/-- The cuts of a string are its splits. -/
theorem splitAt_eq_some {s pre post : Str} {n : Nat} :
    splitAt s n = some (pre, post) ↔ s = pre ++ post ∧ byteLen pre = n := by
  constructor
  · intro h
    induction s generalizing n pre with
    | nil =>
        cases n with
        | zero =>
            obtain ⟨rfl, rfl⟩ := Prod.mk.inj (Option.some.inj h)
            exact ⟨rfl, rfl⟩
        | succ n => cases h
    | cons c s ih =>
        cases n with
        | zero =>
            obtain ⟨rfl, rfl⟩ := Prod.mk.inj (Option.some.inj h)
            exact ⟨rfl, rfl⟩
        | succ n =>
            rw [splitAt] at h
            split at h
            · next hle =>
                obtain ⟨⟨pre', post'⟩, hrest, hcut⟩ := Option.map_eq_some_iff.mp h
                obtain ⟨rfl, rfl⟩ := Prod.mk.inj hcut
                obtain ⟨rfl, hlen⟩ := ih hrest
                exact ⟨rfl, by rw [byteLen_cons, hlen]; omega⟩
            · cases h
  · rintro ⟨rfl, rfl⟩
    induction pre with
    | nil => exact splitAt_zero post
    | cons c pre ih =>
        rw [List.cons_append, byteLen_cons, splitAt_cons _ (Nat.le_add_right ..),
          Nat.add_sub_cancel_left, ih]
        rfl

/-- Cutting behind a cut. -/
theorem splitAt_add {s pre post : Str} {n : Nat} (h : splitAt s n = some (pre, post)) (k : Nat) :
    splitAt s (n + k) = (splitAt post k).map fun (mid, rest) => (pre ++ mid, rest) := by
  obtain ⟨rfl, rfl⟩ := splitAt_eq_some.mp h
  clear h
  induction pre with
  | nil =>
      rw [byteLen_nil, Nat.zero_add, List.nil_append]
      cases splitAt post k <;> rfl
  | cons c pre ih =>
      rw [List.cons_append, splitAt_cons _ (by rw [byteLen_cons]; omega)]
      have hoff : byteLen (c :: pre) + k - c.utf8Size = byteLen pre + k := by
        rw [byteLen_cons]
        omega
      rw [hoff, ih, Option.map_map]
      rfl

/-- `&s[..n]`. -/
def sliceTo (s : Str) (n : Nat) : Option Str := (splitAt s n).map Prod.fst

/-- `&s[n..]`. -/
def sliceFrom (s : Str) (n : Nat) : Option Str := (splitAt s n).map Prod.snd

/-- `&s[lo..hi]`. -/
def slice (s : Str) (lo hi : Nat) : Option Str :=
  if lo ≤ hi then (sliceFrom s lo).bind fun rest => sliceTo rest (hi - lo) else none

/-- Slicing behind a cut. -/
theorem slice_of_splitAt {s pre post : Str} {n : Nat} (h : splitAt s n = some (pre, post))
    (k : Nat) : slice s n (n + k) = sliceTo post k := by
  rw [slice, if_pos (Nat.le_add_right n k), sliceFrom, h, Nat.add_sub_cancel_left]
  rfl

-- ============================================================================
-- Whitespace and letter case
-- ============================================================================

/-- `char::is_whitespace`: the Unicode property `White_Space`. -/
def isWhitespace (c : Char) : Bool :=
  let n := c.toNat
  (0x09 ≤ n && n ≤ 0x0D) || n == 0x20 || n == 0x85 || n == 0xA0 || n == 0x1680 ||
    (0x2000 ≤ n && n ≤ 0x200A) || n == 0x2028 || n == 0x2029 || n == 0x202F || n == 0x205F ||
    n == 0x3000

/-- `str::trim`. -/
def trim (s : Str) : Str :=
  ((s.dropWhile isWhitespace).reverse.dropWhile isWhitespace).reverse

/-- A string that starts and ends with other characters is trimmed. -/
theorem trim_of_forall {s : Str} (h : ∀ c ∈ s, isWhitespace c = false) : trim s = s := by
  have hdrop : ∀ t : Str, (∀ c ∈ t, isWhitespace c = false) → t.dropWhile isWhitespace = t := by
    intro t ht
    cases t with
    | nil => rfl
    | cons c t => rw [List.dropWhile_cons_of_neg (by simp [ht c List.mem_cons_self])]
  rw [trim, hdrop s h, hdrop s.reverse (fun c hc => h c (List.mem_reverse.mp hc)),
    List.reverse_reverse]

/-- `str::eq_ignore_ascii_case`. -/
def eqIgnoreAsciiCase (s t : Str) : Bool := s.map Char.toLower == t.map Char.toLower

-- ============================================================================
-- Integers
-- ============================================================================

/-- `c.to_digit(radix)` for `radix ≤ 16`. -/
def toDigit (radix : Nat) (c : Char) : Option Nat :=
  let d :=
    if '0' ≤ c ∧ c ≤ '9' then some (c.toNat - '0'.toNat)
    else if 'a' ≤ c ∧ c ≤ 'f' then some (c.toNat - 'a'.toNat + 10)
    else if 'A' ≤ c ∧ c ≤ 'F' then some (c.toNat - 'A'.toNat + 10)
    else none
  d.filter (· < radix)

/-- The digits behind `acc`, unless a character is none or the value passes `max`. -/
def readDigits (radix max : Nat) (acc : Nat) : Str → Option Nat
  | [] => some acc
  | c :: s =>
      match toDigit radix c with
      | none => none
      | some d => if acc * radix + d ≤ max then readDigits radix max (acc * radix + d) s else none

/-- `from_str_radix` of an unsigned integer type with greatest value `max`. -/
def fromStrRadix (radix max : Nat) (s : Str) : Option Nat :=
  match s with
  | [] => none
  | ['+'] => none
  | ['-'] => none
  | '+' :: digits => readDigits radix max 0 digits
  | digits => readDigits radix max 0 digits

-- ============================================================================
-- Substrings
-- ============================================================================

/-- `s.find(pat)`: the byte offset of the first occurrence. -/
def find (pat : Str) : Str → Option Nat
  | [] => if pat = [] then some 0 else none
  | c :: s =>
      if pat.isPrefixOf (c :: s) then some 0
      else (find pat s).map (c.utf8Size + ·)

/-- What no occurrence begins in is skipped. -/
theorem find_skip {pat pre post : Str}
    (h : ∀ a b, pre = a ++ b → b ≠ [] → ¬ pat <+: b ++ post) :
    find pat (pre ++ post) = (find pat post).map (byteLen pre + ·) := by
  induction pre with
  | nil =>
      rw [List.nil_append]
      cases find pat post with
      | none => rfl
      | some n => exact congrArg some (Nat.zero_add n).symm
  | cons c pre ih =>
      have hnot : ¬ pat.isPrefixOf (c :: (pre ++ post)) = true := by
        rw [List.isPrefixOf_iff_prefix]
        exact h [] (c :: pre) rfl (List.cons_ne_nil c pre)
      rw [List.cons_append, find, if_neg hnot,
        ih fun a b hab => h (c :: a) b (by rw [hab, List.cons_append]), Option.map_map]
      refine congrArg (fun f => (find pat post).map f) (funext fun n => ?_)
      exact (Nat.add_assoc _ _ _).symm

theorem find_prefix {pat : Str} (hpat : pat ≠ []) (post : Str) :
    find pat (pat ++ post) = some 0 := by
  obtain ⟨c, rest, rfl⟩ := List.exists_cons_of_ne_nil hpat
  rw [List.cons_append, find, if_pos]
  rw [← List.cons_append, List.isPrefixOf_iff_prefix]
  exact List.prefix_append _ _

/-- Where no occurrence begins in `pre`, the one behind it is the first. -/
theorem find_append {pat pre post : Str} (hpat : pat ≠ [])
    (h : ∀ a b, pre = a ++ b → b ≠ [] → ¬ pat <+: b ++ (pat ++ post)) :
    find pat (pre ++ (pat ++ post)) = some (byteLen pre) := by
  rw [find_skip h, find_prefix hpat]
  rfl

/-- What is found is there. -/
theorem find_eq_some {pat s : Str} {n : Nat} (h : find pat s = some n) :
    ∃ pre post, s = pre ++ (pat ++ post) ∧ byteLen pre = n := by
  induction s generalizing n with
  | nil =>
      rw [find] at h
      split at h
      · next hpat =>
          obtain rfl := Option.some.inj h
          exact ⟨[], [], by rw [hpat]; rfl, rfl⟩
      · cases h
  | cons c s ih =>
      rw [find] at h
      split at h
      · next hpre =>
          obtain ⟨post, hpost⟩ := List.isPrefixOf_iff_prefix.mp hpre
          obtain rfl := Option.some.inj h
          exact ⟨[], post, hpost.symm, rfl⟩
      · obtain ⟨m, hm, rfl⟩ := Option.map_eq_some_iff.mp h
        obtain ⟨pre, post, rfl, rfl⟩ := ih hm
        exact ⟨c :: pre, post, rfl, rfl⟩

/-- Nothing is found where no suffix starts with `pat`. -/
theorem find_eq_none {pat s : Str} (hpat : pat ≠ []) (h : ¬ pat <:+: s) : find pat s = none := by
  induction s with
  | nil => rw [find, if_neg hpat]
  | cons c s ih =>
      have hnot : ¬ pat.isPrefixOf (c :: s) = true := by
        rw [List.isPrefixOf_iff_prefix]
        exact fun hpre => h hpre.isInfix
      rw [find, if_neg hnot, ih fun hin => h (hin.trans (List.suffix_cons c s).isInfix)]
      rfl

end Text
