/-
  MixTor.Lib.Fields

  Texts made of lines and lines made of fields: a list of pieces, none of which
  contains the separator, printed with the separator between them and split at it
  again.

  A prefix of such a text is a text of the same kind: the pieces before the cut, and
  the part of a piece that the cut left.  Numbers are printed in decimal digits, which
  are read back.
-/

import MixTor.Lib.Text

namespace Text

-- ============================================================================
-- Pieces
-- ============================================================================

section Pieces

variable {α : Type*} {sep : α}

theorem intercalate_cons_append (piece : List α) {rest : List (List α)} (h : rest ≠ []) :
    [sep].intercalate (piece :: rest) = piece ++ sep :: [sep].intercalate rest := by
  rw [List.intercalate_cons_of_ne_nil h, List.append_assoc]
  rfl

/-- What stands in the text is the separator or stands in a piece. -/
theorem mem_intercalate {pieces : List (List α)} {x : α} (h : x ∈ [sep].intercalate pieces) :
    x = sep ∨ ∃ piece ∈ pieces, x ∈ piece := by
  induction pieces with
  | nil => cases h
  | cons piece rest ih =>
      by_cases hrest : rest = []
      · subst hrest
        rw [List.intercalate_singleton] at h
        exact .inr ⟨piece, List.mem_cons_self, h⟩
      · rw [intercalate_cons_append piece hrest] at h
        obtain hpiece | hx := List.mem_append.mp h
        · exact .inr ⟨piece, List.mem_cons_self, hpiece⟩
        · obtain rfl | hx := List.mem_cons.mp hx
          · exact .inl rfl
          · obtain hsep | ⟨q, hq, hxq⟩ := ih hx
            · exact .inl hsep
            · exact .inr ⟨q, List.mem_cons_of_mem piece hq, hxq⟩

/-- A prefix ends inside a piece, the pieces before it being whole.  The induction is on
    the pieces. -/
theorem prefix_intercalate {pieces : List (List α)} (hne : pieces ≠ []) {p : List α}
    (h : p <+: [sep].intercalate pieces) :
    ∃ done piece rest part, pieces = done ++ piece :: rest ∧ part <+: piece ∧
      p = [sep].intercalate (done ++ [part]) := by
  induction pieces generalizing p with
  | nil => exact absurd rfl hne
  | cons piece rest ih =>
      by_cases hrest : rest = []
      · subst hrest
        rw [List.intercalate_singleton] at h
        exact ⟨[], piece, [], p, rfl, h, List.intercalate_singleton.symm⟩
      · rw [intercalate_cons_append piece hrest] at h
        obtain ⟨t, ht⟩ := h
        obtain ⟨a, hpiece, -⟩ | ⟨c, hp, hc⟩ := List.append_eq_append_iff.mp ht
        · exact ⟨[], piece, rest, p, rfl, ⟨a, hpiece.symm⟩, List.intercalate_singleton.symm⟩
        · cases c with
          | nil =>
              rw [List.append_nil] at hp
              exact ⟨[], piece, rest, p, rfl, hp ▸ List.prefix_refl _,
                List.intercalate_singleton.symm⟩
          | cons c q =>
              obtain ⟨rfl, hq⟩ := List.cons.inj hc
              obtain ⟨done, piece', rest', part, rfl, hpart, rfl⟩ := ih hrest ⟨t, hq.symm⟩
              refine ⟨piece :: done, piece', rest', part, rfl, hpart, ?_⟩
              rw [hp, List.cons_append, intercalate_cons_append piece (by simp)]

/-- Pieces that all end with a separator, and what stands behind the last one. -/
theorem flatMap_append_eq_intercalate (pieces : List (List α)) (last : List α) :
    (pieces.flatMap fun piece => piece ++ [sep]) ++ last = [sep].intercalate (pieces ++ [last]) := by
  induction pieces with
  | nil => exact List.intercalate_singleton.symm
  | cons piece pieces ih =>
      rw [List.flatMap_cons, List.append_assoc, ih, List.cons_append,
        intercalate_cons_append piece (by simp), List.append_assoc]
      rfl

end Pieces

-- ============================================================================
-- Lines
-- ============================================================================

/-- A line without its carriage return. -/
def stripReturn (line : Str) : Str :=
  if line.getLast? = some '\r' then line.dropLast else line

/-- `lines()`: the pieces that end with a newline, and what stands behind the last one if
    it is not empty. -/
def lines (s : Str) : List Str :=
  let pieces := s.splitOn '\n'
  (pieces.dropLast.map stripReturn) ++ (pieces.getLast?.filter (· ≠ [])).toList

/-- Lines without carriage returns are read as they are, the last one even if it is not
    complete. -/
theorem lines_intercalate {done : List Str} {last : Str}
    (hdone : ∀ line ∈ done, '\n' ∉ line ∧ '\r' ∉ line) (hlast : '\n' ∉ last) :
    lines (['\n'].intercalate (done ++ [last])) = done ++ if last = [] then [] else [last] := by
  have hsplit : (['\n'].intercalate (done ++ [last])).splitOn '\n' = done ++ [last] := by
    refine List.splitOn_intercalate '\n' ?_ (by simp)
    intro line hline
    obtain hmem | hmem := List.mem_append.mp hline
    · exact (hdone line hmem).1
    · rw [List.mem_singleton.mp hmem]
      exact hlast
  have hstrip : done.map stripReturn = done := by
    refine (List.map_congr_left fun line hline => ?_).trans (List.map_id done)
    rw [stripReturn, if_neg]
    · rfl
    · exact fun h => (hdone line hline).2 (List.mem_of_getLast? h)
  rw [lines, hsplit]
  simp only [List.dropLast_concat, hstrip, List.getLast?_concat, Option.filter_some]
  by_cases hnil : last = []
  · simp [hnil]
  · simp [hnil]

-- ============================================================================
-- Decimal numbers
-- ============================================================================

/-- `format!("{n}")`. -/
def decimal (n : Nat) : Str := Nat.toDigits 10 n

theorem readDigits_append (radix max : Nat) (s t : Str) (acc : Nat) :
    readDigits radix max acc (s ++ t)
      = (readDigits radix max acc s).bind fun n => readDigits radix max n t := by
  induction s generalizing acc with
  | nil => rfl
  | cons c s ih =>
      rw [List.cons_append, readDigits, readDigits]
      split
      · rfl
      · split
        · exact ih _
        · rfl

theorem toDigit_digitChar {d : Nat} (h : d < 10) : toDigit 10 (Nat.digitChar d) = some d := by
  have hall : ∀ d < 10, toDigit 10 (Nat.digitChar d) = some d := by decide
  exact hall d h

/-- The digits of a number are read back, by induction on the number of digits. -/
theorem readDigits_decimal {n max : Nat} (h : n ≤ max) :
    readDigits 10 max 0 (decimal n) = some n := by
  induction n using Nat.strongRecOn with
  | ind n ih =>
      have hlast : ∀ acc d : Nat, d < 10 → acc * 10 + d ≤ max →
          readDigits 10 max acc [Nat.digitChar d] = some (acc * 10 + d) := by
        intro acc d hd hle
        rw [readDigits, toDigit_digitChar hd]
        exact if_pos hle
      rw [decimal, Nat.toDigits_eq_if (by decide)]
      split
      · next hlt =>
        rw [hlast 0 n hlt (by omega), Nat.zero_mul, Nat.zero_add]
      · next hge =>
        have hdiv := ih (n / 10) (by omega) (by omega)
        rw [decimal] at hdiv
        rw [readDigits_append, hdiv, Option.bind_some, hlast _ _ (Nat.mod_lt n (by decide))
          (by omega)]
        congr 1
        omega

theorem isDigit_of_mem_decimal {n : Nat} {c : Char} (h : c ∈ decimal n) : c.isDigit = true :=
  Nat.isDigit_of_mem_toDigits (by decide) (by decide) h

/-- A number is read back from its text. -/
theorem fromStrRadix_decimal {n max : Nat} (h : n ≤ max) :
    fromStrRadix 10 max (decimal n) = some n := by
  have hne : decimal n ≠ [] := Nat.toDigits_ne_nil
  have hplus : ∀ c ∈ decimal n, c ≠ '+' ∧ c ≠ '-' := by
    intro c hc
    have hdigit := isDigit_of_mem_decimal hc
    constructor <;> (rintro rfl; cases hdigit)
  rw [← readDigits_decimal h]
  generalize decimal n = s at hne hplus
  unfold fromStrRadix
  split
  · exact absurd rfl hne
  · exact absurd rfl (hplus '+' List.mem_cons_self).1
  · exact absurd rfl (hplus '-' List.mem_cons_self).2
  · exact absurd rfl (hplus '+' List.mem_cons_self).1
  · rfl

end Text
