/-
  MixTor.Socks.ClientArgs

  The identity key among the transport arguments (`extract_cert`, socks.rs).

  Tor passes the arguments of a bridge line as one string, `key=value` pairs with
  semicolons between them and backslashes before the semicolons, equals signs and
  backslashes that are part of a key or a value.  `extract_cert` does not parse it: it
  looks for the text `cert=` and reads the hexadecimal digits behind it.
-/

import Mathlib.Data.List.TakeWhile
import MixTor.Crypto.KeyHex
import MixTor.Lib.Escaped
import MixTor.Lib.Utf8

namespace MixTor.Socks

open Crypto (Bytes Key keyFromHex Spells)
open Text Utf8

/-- `char::is_ascii_hexdigit`. -/
def isAsciiHexdigit (c : Char) : Bool := (toDigit 16 c).isSome

/-- Pull the 32-byte identity key out of a `cert=<64 hex>` parameter.  `none` is a panic. -/
def extractCert (params : Bytes) : Option (Option Key) :=
  let s := fromUtf8Lossy params
  match find "cert=".toList s with
  | none => some none
  | some start =>
      (sliceFrom s (start + 5)).bind fun rest =>
        keyFromHex ((rest.takeWhile isAsciiHexdigit).take 64)

-- ============================================================================
-- Argument lists
-- ============================================================================

/-- The marks of the encoding: `;`, `=` and backslash. -/
def byteMarks : Marks UInt8 := ⟨0x3B, 0x3D, 0x5C, by decide, by decide⟩

/-- The same as characters. -/
def charMarks : Marks Char := ⟨';', '=', '\\', by decide, by decide⟩

/-- Keys and values, as bytes. -/
abbrev Args := List (Bytes × Bytes)

/-- The transport arguments as Tor encodes them. -/
def encodeArgs (args : Args) : Bytes := byteMarks.encode args

/-- The key `cert`. -/
def certKey : Bytes := [0x63, 0x65, 0x72, 0x74]

/-- A text of ASCII, as characters. -/
def asChars (bytes : Bytes) : Str := bytes.map fun b => Char.ofNat b.toNat

/-- An argument as characters. -/
def lossyArg (a : Bytes × Bytes) : Str × Str := (fromUtf8Lossy a.1, fromUtf8Lossy a.2)

theorem escape_rewrite : AsciiRewrite byteMarks.escapeOne charMarks.escapeOne := by
  have hbytes : ∀ n < 256, 0x80 ≤ n → byteMarks.escapeOne (UInt8.ofNat n) = [UInt8.ofNat n] := by
    decide +kernel
  have hascii : ∀ n < 128, (byteMarks.escapeOne (UInt8.ofNat n)).all (·.toNat < 0x80) = true ∧
      charMarks.escapeOne (Char.ofNat n)
        = (byteMarks.escapeOne (UInt8.ofNat n)).map fun x => Char.ofNat x.toNat := by
    decide +kernel
  refine ⟨fun b hb => ?_, fun c hc => ?_, fun b => ?_, fun b hb => ?_, fun b hb => ?_⟩
  · have := hbytes b.toNat b.toNat_lt hb
    rwa [UInt8.ofNat_toNat] at this
  · have hplain : ¬ charMarks.IsMark c := by
      rintro (rfl | rfl | rfl) <;> exact absurd hc (by unfold Wide; decide)
    rw [Marks.escapeOne, if_neg hplain]
  · unfold Marks.escapeOne
    split <;> exact List.cons_ne_nil _ _
  · have hall := (hascii b.toNat hb).1
    rw [UInt8.ofNat_toNat, List.all_eq_true] at hall
    exact fun x hx => of_decide_eq_true (hall x hx)
  · have := (hascii b.toNat hb).2
    rwa [UInt8.ofNat_toNat] at this

theorem lossy_escape (bytes : Bytes) :
    fromUtf8Lossy (byteMarks.escape bytes) = charMarks.escape (fromUtf8Lossy bytes) :=
  escape_rewrite.fromUtf8Lossy_flatMap bytes

theorem lossy_pair (a : Bytes × Bytes) :
    fromUtf8Lossy (byteMarks.pair a) = charMarks.pair (lossyArg a) := by
  rw [Marks.pair, fromUtf8Lossy_append_ascii _ _ (by decide), lossy_escape, lossy_escape]
  rfl

/-- Decoded, the arguments are the encoding of the decoded arguments. -/
theorem lossy_encodeArgs (args : Args) :
    fromUtf8Lossy (encodeArgs args) = charMarks.encode (args.map lossyArg) := by
  unfold encodeArgs
  induction args with
  | nil => rfl
  | cons a rest ih =>
      cases rest with
      | nil => exact lossy_pair a
      | cons b rest =>
          rw [Marks.encode, fromUtf8Lossy_append_ascii _ _ (by decide), lossy_pair, ih]
          rfl

-- ============================================================================
-- Where the search ends
-- ============================================================================

theorem plain_cert : charMarks.Plain "cert".toList := by decide

/-- What stands behind the first `cert=`: the value of the first argument whose key ends in
    `cert`, and either nothing or the separator. -/
inductive Found (text : Str) : Option (Str × Str) → Prop
  | missing (h : find "cert=".toList text = none) : Found text none
  | at (k v pre rest : Str) (htext : text = pre ++ ("cert=".toList ++ (charMarks.escape v ++ rest)))
      (hrest : rest = [] ∨ ∃ r, rest = charMarks.sep :: r)
      (hfind : find "cert=".toList text = some (byteLen pre)) : Found text (some (k, v))

/-- The key ends in `cert`. -/
def endsInCert (a : Str × Str) : Bool := "cert".toList.isSuffixOf a.1

/-- What is found in a text is found behind another in which the search does not end. -/
theorem Found.append {pre text : Str} {a : Option (Str × Str)}
    (hskip : find "cert=".toList (pre ++ text)
      = (find "cert=".toList text).map (byteLen pre + ·))
    (h : Found text a) : Found (pre ++ text) a := by
  cases h with
  | missing h => exact .missing (by rw [hskip, h]; rfl)
  | «at» k v pre' rest htext hrest hfind =>
      refine .at k v (pre ++ pre') rest (by rw [htext, List.append_assoc]) hrest ?_
      rw [hskip, hfind, byteLen_append]
      rfl

/-- The first argument decides, if its key ends in `cert`. -/
theorem found_first {a : Str × Str} (ha : endsInCert a = true) {rest : Str}
    (hrest : rest = [] ∨ ∃ r, rest = charMarks.sep :: r) :
    Found (charMarks.pair a ++ rest) (some a) := by
  obtain ⟨key, v⟩ := a
  obtain ⟨k, rfl⟩ := List.isSuffixOf_iff_suffix.mp ha
  have htext : charMarks.pair (k ++ "cert".toList, v) ++ rest
      = charMarks.escape k ++ ("cert=".toList ++ (charMarks.escape v ++ rest)) := by
    rw [Marks.pair, Marks.escape_append, Marks.escape_of_plain plain_cert, List.append_assoc,
      List.append_assoc]
    rfl
  refine .at _ v (charMarks.escape k) rest htext hrest ?_
  rw [htext]
  exact find_append (by decide) fun a b hab hb =>
    Marks.no_start_before_end plain_cert (by decide) k _ a hab hb

theorem skip_key {a : Str × Str} (ha : ¬ endsInCert a = true) (text : Str) :
    find "cert=".toList (charMarks.escape a.1 ++ [charMarks.assign] ++ text)
      = (find "cert=".toList text).map
          (byteLen (charMarks.escape a.1 ++ [charMarks.assign]) + ·) :=
  find_skip fun a' _ hab hb => Marks.no_start_in_key plain_cert (by decide)
    (fun h => ha (List.isSuffixOf_iff_suffix.mpr h)) text a' hab hb

theorem skip_value (v text : Str) :
    find "cert=".toList (charMarks.escape v ++ [charMarks.sep] ++ text)
      = (find "cert=".toList text).map (byteLen (charMarks.escape v ++ [charMarks.sep]) + ·) :=
  find_skip fun a _ hab hb => Marks.no_start_in_value plain_cert (by decide) v text a hab hb

/-- A value at the end of the text has no `cert=` in it. -/
theorem found_in_value (v : Str) : Found (charMarks.escape v) none :=
  .missing (find_eq_none (by decide) (Marks.not_infix_of_plain plain_cert (by decide) v))

/-- The search ends at the first argument whose key ends in `cert`. -/
theorem found_encode (args : List (Str × Str)) :
    Found (charMarks.encode args) (args.find? endsInCert) := by
  induction args with
  | nil => exact .missing rfl
  | cons a rest ih =>
      by_cases ha : endsInCert a = true
      · rw [List.find?_cons_of_pos ha]
        cases rest with
        | nil =>
            have := found_first ha (.inl rfl)
            rwa [List.append_nil] at this
        | cons b rest => exact found_first ha (.inr ⟨_, rfl⟩)
      · rw [List.find?_cons_of_neg ha]
        cases rest with
        | nil =>
            have := (found_in_value a.2).append (skip_key ha _)
            rwa [List.append_assoc] at this
        | cons b rest =>
            have := (ih.append (skip_value a.2 _)).append (skip_key ha _)
            rw [List.append_assoc, List.append_assoc] at this
            rw [Marks.encode, Marks.pair, List.append_assoc]
            exact this

-- ============================================================================
-- Back to bytes
-- ============================================================================

/-- Values of the arguments whose keys end in `cert`, the first one. -/
def certValue (args : Args) : Option Bytes :=
  (args.find? fun a => certKey.isSuffixOf a.1).map Prod.snd

theorem endsInCert_lossyArg (a : Bytes × Bytes) :
    endsInCert (lossyArg a) = certKey.isSuffixOf a.1 := by
  rw [Bool.eq_iff_iff, endsInCert, List.isSuffixOf_iff_suffix, List.isSuffixOf_iff_suffix]
  exact suffix_fromUtf8Lossy_iff (l := certKey) (by simp [certKey]) a.1

theorem isAsciiHexdigit_wide {c : Char} (h : Wide c) : isAsciiHexdigit c = false := by
  by_contra hdigit
  obtain ⟨d, hd⟩ := Option.isSome_iff_exists.mp (Bool.not_eq_false _ ▸ hdigit)
  exact absurd (Crypto.toNat_lt_of_toDigit hd) (not_lt.mpr h)

/-- The run of hexadecimal digits a value starts with. -/
def hexRun (v : Bytes) : Str := asChars (v.takeWhile fun b => isAsciiHexdigit (Char.ofNat b.toNat))

/-- Digits are read as the key they spell, if they are as many as a key has. -/
theorem keyFromHex_of_digits {t : Str} (h : ∀ c ∈ t, (toDigit 16 c).isSome) :
    ∃ answer, keyFromHex t = some answer ∧ ∀ k, answer = some k ↔ Spells t k := by
  have htrim : trim t = t := by
    apply trim_of_forall
    intro c hc
    obtain ⟨d, hd⟩ := Option.isSome_iff_exists.mp (h c hc)
    exact (Crypto.toDigit_spec hd).2.2.2.2
  by_cases hlen : t.length = 64
  · obtain ⟨k, hk⟩ := Crypto.exists_spells hlen h
    refine ⟨some k, Crypto.keyFromHex_of_spells (by rwa [htrim]), fun k' => ⟨fun h' => ?_, ?_⟩⟩
    · obtain rfl := Option.some.inj h'
      exact hk
    · exact fun h' => congrArg some (hk.unique h')
  · refine ⟨none, ?_, fun k => ⟨nofun, fun hk => absurd hk.length hlen⟩⟩
    rw [keyFromHex]
    simp only [htrim, Crypto.byteLen_of_digits h]
    exact if_pos hlen

/-- Whatever the username and the password are, nothing panics. -/
theorem exists_extractCert (params : Bytes) : ∃ answer, extractCert params = some answer := by
  unfold extractCert
  dsimp only
  cases hfind : find "cert=".toList (fromUtf8Lossy params) with
  | none => exact ⟨none, rfl⟩
  | some start =>
      obtain ⟨pre, post, htext, rfl⟩ := find_eq_some hfind
      have hsplit : splitAt (fromUtf8Lossy params) (byteLen pre + 5)
          = some (pre ++ "cert=".toList, post) :=
        splitAt_eq_some.mpr ⟨by rw [htext, List.append_assoc], by rw [byteLen_append]; rfl⟩
      have hdigits : ∀ c ∈ (post.takeWhile isAsciiHexdigit).take 64, (toDigit 16 c).isSome :=
        fun c hc => List.mem_takeWhile_imp (p := isAsciiHexdigit) (List.mem_of_mem_take hc)
      obtain ⟨answer, hanswer, -⟩ := keyFromHex_of_digits hdigits
      refine ⟨answer, ?_⟩
      simp only [sliceFrom, hsplit]
      exact hanswer

/-- **What is read.** On the encoding of every list the search reads the first 64 digits
    that start the value of the first argument whose key ends in `cert`. -/
theorem extractCert_encode (args : Args) :
    ∃ answer, extractCert (encodeArgs args) = some answer ∧
      ∀ k, answer = some k ↔ ∃ v, certValue args = some v ∧ Spells ((hexRun v).take 64) k := by
  have hfound := found_encode (args.map lossyArg)
  rw [← lossy_encodeArgs, List.find?_map] at hfound
  have hsame : endsInCert ∘ lossyArg = fun a : Bytes × Bytes => certKey.isSuffixOf a.1 :=
    funext endsInCert_lossyArg
  rw [hsame] at hfound
  unfold extractCert certValue
  cases hfirst : args.find? (fun a => certKey.isSuffixOf a.1) with
  | none =>
      rw [hfirst] at hfound
      cases hfound with
      | missing h =>
          simp only [h]
          exact ⟨none, rfl, fun k => ⟨nofun, fun ⟨v, hv, _⟩ => by cases hv⟩⟩
  | some a =>
      rw [hfirst] at hfound
      rcases hl : lossyArg a with ⟨k, v⟩
      rw [Option.map_some, hl] at hfound
      cases hfound with
      | «at» _ _ pre rest htext hrest hfind =>
          have hcut : sliceFrom (fromUtf8Lossy (encodeArgs args)) (byteLen pre + 5)
              = some (charMarks.escape v ++ rest) := by
            have hsplit : splitAt (fromUtf8Lossy (encodeArgs args)) (byteLen pre + 5)
                = some (pre ++ "cert=".toList, charMarks.escape v ++ rest) :=
              splitAt_eq_some.mpr
                ⟨by rw [htext, List.append_assoc], by rw [byteLen_append]; rfl⟩
            rw [sliceFrom, hsplit]
            rfl
          have hmark : ∀ c, charMarks.IsMark c → isAsciiHexdigit c = false := by
            rintro c (rfl | rfl | rfl) <;> decide
          have hrun : (charMarks.escape v ++ rest).takeWhile isAsciiHexdigit = hexRun a.2 := by
            rw [Marks.takeWhile_escape hmark v rest hrest, ← (Prod.mk.inj hl).2]
            exact takeWhile_fromUtf8Lossy (fun _ => isAsciiHexdigit_wide) a.2
          have hdigits : ∀ c ∈ (hexRun a.2).take 64, (toDigit 16 c).isSome := by
            intro c hc
            rw [← hrun] at hc
            exact List.mem_takeWhile_imp (p := isAsciiHexdigit) (List.mem_of_mem_take hc)
          simp only [hfind, hcut, Option.bind_some, hrun]
          obtain ⟨answer, hanswer, hspells⟩ := keyFromHex_of_digits hdigits
          refine ⟨answer, hanswer, fun key => (hspells key).trans ⟨fun h => ⟨a.2, rfl, h⟩, ?_⟩⟩
          rintro ⟨v', hv', h⟩
          obtain rfl := Option.some.inj hv'
          exact h

theorem take_asChars (v : Bytes) (n : Nat) : (asChars v).take n = asChars (v.take n) :=
  List.map_take.symm

/-- The first 64 digits of the run are the first 64 bytes, if those are digits. -/
theorem spells_hexRun_iff {v : Bytes} {k : Key} :
    Spells ((hexRun v).take 64) k ↔ Spells (asChars (v.take 64)) k := by
  let Q : UInt8 → Bool := fun b => isAsciiHexdigit (Char.ofNat b.toNat)
  have hrun : (hexRun v).take 64 = asChars ((v.takeWhile Q).take 64) := take_asChars _ 64
  rw [hrun]
  constructor
  · intro h
    have hlen : 64 ≤ (v.takeWhile Q).length := by
      have := h.length
      rw [asChars, List.length_map, List.length_take] at this
      omega
    have htake : v.take 64 = (v.takeWhile Q).take 64 := by
      conv_lhs => rw [← List.takeWhile_append_dropWhile (p := Q) (l := v)]
      exact List.take_append_of_le_length hlen
    rwa [htake]
  · intro h
    have hlen : (v.take 64).length = 64 := by
      have := h.length
      rwa [asChars, List.length_map] at this
    have hdigits : ∀ b ∈ v.take 64, Q b := fun b hb => h.digits _ (List.mem_map_of_mem hb)
    have htake : (v.takeWhile Q).take 64 = v.take 64 := by
      conv_lhs => rw [← List.take_append_drop 64 v, List.takeWhile_append_of_pos hdigits]
      rw [List.take_append_of_le_length hlen.ge, List.take_of_length_le hlen.le]
    rwa [htake]

-- ============================================================================
-- The argument `cert`
-- ============================================================================

/-- Where no other key ends in `cert`, the value found is that of the first `cert`. -/
theorem certValue_eq_lookup {args : Args}
    (h : ∀ a ∈ args, certKey <:+ a.1 → a.1 = certKey) : certValue args = args.lookup certKey := by
  induction args with
  | nil => rfl
  | cons a rest ih =>
      have hrest := ih fun b hb => h b (List.mem_cons_of_mem a hb)
      obtain ⟨key, v⟩ := a
      rw [certValue, List.find?_cons, List.lookup_cons]
      by_cases hkey : key = certKey
      · subst hkey
        rfl
      · have hno : certKey.isSuffixOf key = false := Bool.eq_false_iff.mpr fun hs =>
          hkey (h (key, v) List.mem_cons_self (List.isSuffixOf_iff_suffix.mp hs))
        simp only [hno, beq_false_of_ne (Ne.symm hkey)]
        exact hrest

/-- **The identity key of a bridge line.** For every list of arguments in which no key but
    `cert` itself ends in `cert`, and every split of its encoding into username and
    password, `extract_cert` returns without a panic the key that the first 64 bytes of
    the value of the first `cert` spell as hexadecimal digits, and nothing where there is
    no `cert` or its value does not start so. -/
theorem extractCert_spec (args : Args) (hkeys : ∀ a ∈ args, certKey <:+ a.1 → a.1 = certKey)
    (uname passwd : Bytes) (hsplit : uname ++ passwd = encodeArgs args) :
    ∃ answer, extractCert (uname ++ passwd) = some answer ∧
      ∀ k, answer = some k ↔
        ∃ v, args.lookup certKey = some v ∧ Spells (asChars (v.take 64)) k := by
  obtain ⟨answer, hanswer, hspells⟩ := extractCert_encode args
  refine ⟨answer, hsplit ▸ hanswer, fun k => ?_⟩
  rw [hspells, certValue_eq_lookup hkeys]
  exact exists_congr fun v => and_congr_right fun _ => spells_hexRun_iff

/-- The digits of the key of bytes 0x11. -/
def onesHex : Bytes := List.replicate 64 0x31

theorem spells_onesHex : Spells (asChars onesHex) (Vector.replicate 32 0x11) :=
  ⟨by decide +kernel, List.all_eq_true.mp (by decide +kernel), by decide +kernel⟩

/-- Behind `iat-mode=0`, and cut inside its key. -/
theorem extractCert_spec_second_argument :
    let args : Args := [([0x69, 0x61, 0x74], [0x30]), (certKey, onesHex)]
    (∀ a ∈ args, certKey <:+ a.1 → a.1 = certKey) ∧
      extractCert ((encodeArgs args).take 8 ++ (encodeArgs args).drop 8)
        = some (some (Vector.replicate 32 0x11)) := by
  intro args
  have hkeys : ∀ a ∈ args, certKey <:+ a.1 → a.1 = certKey := by decide
  refine ⟨hkeys, ?_⟩
  obtain ⟨answer, hanswer, hspells⟩ :=
    extractCert_spec args hkeys _ _ (List.take_append_drop 8 (encodeArgs args))
  have htake : onesHex.take 64 = onesHex := by decide +kernel
  rw [hanswer, (hspells _).mpr ⟨onesHex, rfl, by rw [htake]; exact spells_onesHex⟩]

/-- Digits behind the key, separated from it by something that is no digit, are left alone: a
    value that only starts with 64 digits is taken. -/
theorem extractCert_takes_start :
    ¬ ∀ (args : Args) (uname passwd : Bytes), uname ++ passwd = encodeArgs args →
      ∀ k, extractCert (uname ++ passwd) = some (some k) ↔
        ∃ v, (certKey, v) ∈ args ∧ Spells (asChars v) k := by
  intro h
  have hread : extractCert (encodeArgs [(certKey, onesHex ++ [0x2C, 0x78])])
      = some (some (Vector.replicate 32 0x11)) := by decide +kernel
  obtain ⟨v, hv, hspells⟩ := (h [(certKey, onesHex ++ [0x2C, 0x78])] _ [] (List.append_nil _)
    (Vector.replicate 32 0x11)).mp (by rw [List.append_nil]; exact hread)
  obtain rfl := (Prod.mk.inj (List.mem_singleton.mp hv)).2
  exact absurd hspells.length (by decide +kernel)

end MixTor.Socks
