/-
  MixTor.Lib.Escaped

  Lists of assignments as text: `key=value` pairs with a separator between them, in
  which every mark that is part of a key or a value stands behind an escape.

  Whoever looks for a word and the assignment mark behind it, without parsing, finds
  exactly the keys that end in the word: inside a key or a value the mark is never
  directly behind a plain symbol.
-/

import Mathlib.Data.List.Basic
import Mathlib.Data.List.Infix

/-- The three marks of an encoding. -/
structure Marks (α : Type*) where
  sep : α
  assign : α
  esc : α
  sep_ne_assign : sep ≠ assign
  assign_ne_esc : assign ≠ esc

namespace Marks

variable {α : Type*} [DecidableEq α] (m : Marks α)

/-- A symbol that has to be escaped. -/
def IsMark (x : α) : Prop := x = m.sep ∨ x = m.assign ∨ x = m.esc

instance (x : α) : Decidable (m.IsMark x) := inferInstanceAs (Decidable (_ ∨ _ ∨ _))

/-- No symbol of the word is a mark. -/
def Plain (s : List α) : Prop := ∀ x ∈ s, ¬ m.IsMark x

instance (s : List α) : Decidable (m.Plain s) :=
  inferInstanceAs (Decidable (∀ x ∈ s, ¬ m.IsMark x))

def escapeOne (x : α) : List α := if m.IsMark x then [m.esc, x] else [x]

def escape (s : List α) : List α := s.flatMap m.escapeOne

def pair (a : List α × List α) : List α := m.escape a.1 ++ m.assign :: m.escape a.2

def encode : List (List α × List α) → List α
  | [] => []
  | [a] => m.pair a
  | a :: b :: rest => m.pair a ++ m.sep :: encode (b :: rest)

variable {m}

omit [DecidableEq α] in
theorem isMark_sep : m.IsMark m.sep := .inl rfl

omit [DecidableEq α] in
theorem isMark_assign : m.IsMark m.assign := .inr (.inl rfl)

omit [DecidableEq α] in
theorem isMark_esc : m.IsMark m.esc := .inr (.inr rfl)

theorem escape_cons (x : α) (s : List α) : m.escape (x :: s) = m.escapeOne x ++ m.escape s := by
  rw [escape, List.flatMap_cons]
  rfl

theorem escape_append (s t : List α) : m.escape (s ++ t) = m.escape s ++ m.escape t :=
  List.flatMap_append

theorem escape_of_plain {s : List α} (h : m.Plain s) : m.escape s = s := by
  induction s with
  | nil => rfl
  | cons x s ih =>
      rw [escape_cons, escapeOne, if_neg (h x List.mem_cons_self),
        ih fun y hy => h y (List.mem_cons_of_mem _ hy)]
      rfl

/-- What is escaped ends as it did. -/
theorem escapeOne_eq_concat (x : α) : ∃ t, m.escapeOne x = t ++ [x] := by
  unfold escapeOne
  split
  · exact ⟨[m.esc], rfl⟩
  · exact ⟨[], rfl⟩

/-- No escaped word starts with an assignment. -/
theorem escape_ne_assign (s t : List α) : m.escape s ≠ m.assign :: t := by
  intro h
  cases s with
  | nil => cases h
  | cons x s =>
      rw [escape_cons, escapeOne] at h
      split at h
      · exact m.assign_ne_esc (List.cons.inj h).1.symm
      · next hx => exact hx ((List.cons.inj h).1 ▸ isMark_assign)

/-- In an escaped word no assignment stands behind a plain symbol. -/
theorem not_infix_escape {x : α} (hx : ¬ m.IsMark x) (s : List α) :
    ¬ [x, m.assign] <:+: m.escape s := by
  rintro ⟨a, b, h⟩
  rw [List.append_assoc, List.cons_append, List.singleton_append] at h
  induction s generalizing a with
  | nil => exact List.append_ne_nil_of_right_ne_nil a (List.cons_ne_nil x _) h
  | cons y s ih =>
      rw [escape_cons, escapeOne] at h
      split at h
      · next hy =>
          match a with
          | [] => exact hx ((List.cons.inj h).1 ▸ isMark_esc)
          | [e] => exact hx ((List.cons.inj (List.cons.inj h).2).1 ▸ hy)
          | e :: y' :: a => exact ih a (List.cons.inj (List.cons.inj h).2).2
      · match a with
        | [] => exact escape_ne_assign s b (List.cons.inj h).2.symm
        | y' :: a => exact ih a (List.cons.inj h).2

/-- A plain word ends an escaped word exactly when it ends the word. -/
theorem suffix_escape_iff {p : List α} (hp : m.Plain p) (s : List α) :
    p <:+ m.escape s ↔ p <:+ s := by
  constructor
  · intro h
    induction p using List.reverseRecOn generalizing s with
    | nil => exact List.nil_suffix
    | append_singleton p x ih =>
        obtain ⟨a, h⟩ := h
        induction s using List.reverseRecOn with
        | nil => exact absurd h (by simp [escape])
        | append_singleton s y _ =>
            obtain ⟨t, ht⟩ := escapeOne_eq_concat (m := m) y
            have hone : m.escape [y] = m.escapeOne y := by rw [escape, List.flatMap_singleton]
            rw [escape_append, hone, ht, ← List.append_assoc, ← List.append_assoc] at h
            obtain ⟨hrest, hlast⟩ := List.append_inj' h rfl
            obtain rfl := (List.cons.inj hlast).1
            have hplain : ¬ m.IsMark x := hp x (List.mem_append_right p (List.mem_singleton_self x))
            rw [escapeOne, if_neg hplain] at ht
            obtain rfl : t = [] := List.append_left_eq_self.mp ht.symm
            rw [List.append_nil] at hrest
            obtain ⟨a', ha'⟩ :=
              ih (fun z hz => hp z (List.mem_append_left _ hz)) s ⟨a, hrest⟩
            exact ⟨a', by rw [← List.append_assoc, ha']⟩
  · rintro ⟨a, rfl⟩
    exact ⟨m.escape a, by rw [escape_append, escape_of_plain hp]⟩

/-- A run of symbols other than marks, from the start of an escaped word, is the run of the
    word. -/
theorem takeWhile_escape {P : α → Bool} (hP : ∀ x, m.IsMark x → P x = false) (s rest : List α)
    (hrest : rest = [] ∨ ∃ r, rest = m.sep :: r) :
    (m.escape s ++ rest).takeWhile P = s.takeWhile P := by
  induction s with
  | nil =>
      rcases hrest with rfl | ⟨r, rfl⟩
      · rfl
      · exact List.takeWhile_cons_of_neg (by rw [hP _ isMark_sep]; exact Bool.false_ne_true)
  | cons x s ih =>
      rw [escape_cons, escapeOne]
      split
      · next hx =>
          rw [List.takeWhile_cons_of_neg (by rw [hP x hx]; exact Bool.false_ne_true)]
          exact List.takeWhile_cons_of_neg (by rw [hP _ isMark_esc]; exact Bool.false_ne_true)
      · rw [List.append_assoc, List.singleton_append, List.takeWhile_cons, List.takeWhile_cons, ih]

-- ============================================================================
-- Looking for a word and an assignment
-- ============================================================================

section Search

variable {p : List α} (hp : m.Plain p) (hne : p ≠ [])

include hp hne

/-- They are not part of an escaped word. -/
theorem not_infix_of_plain (s : List α) : ¬ p ++ [m.assign] <:+: m.escape s := by
  intro h
  have hlast : [p.getLast hne, m.assign] <:+: p ++ [m.assign] := by
    refine ⟨p.dropLast, [], ?_⟩
    rw [List.append_nil, ← List.singleton_append, ← List.append_assoc,
      List.dropLast_concat_getLast hne]
  exact not_infix_escape (hp _ (List.getLast_mem hne)) s (hlast.trans h)

/-- Where they begin in front of a mark, the mark is the assignment, and the word ends
    there. -/
theorem start_before_mark {b rest : List α} {x : α} (hx : m.IsMark x) {s : List α}
    (hb : b <:+ m.escape s) (h : p ++ [m.assign] <+: b ++ x :: rest) :
    x = m.assign ∧ b = p := by
  obtain ⟨t, ht⟩ := h
  rcases List.append_eq_append_iff.mp ht with ⟨c, hc, -⟩ | ⟨c, hc, hrest⟩
  · have hin : p ++ [m.assign] <:+: b := ⟨[], c, by rw [List.nil_append, hc]⟩
    exact absurd (hin.trans hb.isInfix) (not_infix_of_plain hp hne s)
  · -- the occurrence reaches the mark
    cases c with
    | nil =>
        rw [List.append_nil] at hc
        exact absurd (hc ▸ hb.isInfix) (not_infix_of_plain hp hne s)
    | cons y c =>
        obtain ⟨rfl, -⟩ := List.cons.inj hrest
        rcases List.eq_nil_or_concat c with rfl | ⟨c, z, rfl⟩
        · obtain ⟨hpb, hmark⟩ := List.append_inj' hc rfl
          exact ⟨(List.cons.inj hmark).1.symm, hpb.symm⟩
        · rw [List.concat_eq_append, ← List.cons_append, ← List.append_assoc] at hc
          obtain ⟨rfl, -⟩ := List.append_inj' hc rfl
          exact absurd hx (hp x (by simp))

/-- They do not begin in a value and the separator behind it. -/
theorem no_start_in_value (v rest a : List α) {b : List α} (hab : m.escape v ++ [m.sep] = a ++ b)
    (hb : b ≠ []) : ¬ p ++ [m.assign] <+: b ++ rest := by
  intro h
  obtain ⟨b, rfl, hsuffix⟩ := (List.suffix_concat_iff.mp ⟨a, hab.symm⟩).resolve_left hb
  rw [List.append_assoc, List.singleton_append] at h
  exact m.sep_ne_assign (start_before_mark hp hne isMark_sep hsuffix h).1

/-- Nor in a key that does not end in the word, and the assignment behind it. -/
theorem no_start_in_key {k : List α} (hk : ¬ p <:+ k) (rest a : List α) {b : List α}
    (hab : m.escape k ++ [m.assign] = a ++ b) (hb : b ≠ []) : ¬ p ++ [m.assign] <+: b ++ rest := by
  intro h
  obtain ⟨b, rfl, hsuffix⟩ := (List.suffix_concat_iff.mp ⟨a, hab.symm⟩).resolve_left hb
  rw [List.append_assoc, List.singleton_append] at h
  obtain ⟨-, rfl⟩ := start_before_mark hp hne isMark_assign hsuffix h
  exact hk ((suffix_escape_iff hp k).mp hsuffix)

/-- In a key that ends in the word, the end is where they begin. -/
theorem no_start_before_end (k rest a : List α) {b : List α} (hab : m.escape k = a ++ b)
    (hb : b ≠ []) : ¬ p ++ [m.assign] <+: b ++ (p ++ m.assign :: rest) := by
  intro h
  have hsuffix : b ++ p <:+ m.escape (k ++ p) :=
    ⟨a, by rw [escape_append, escape_of_plain hp, hab, List.append_assoc]⟩
  rw [← List.append_assoc] at h
  have hlen := congrArg List.length (start_before_mark hp hne isMark_assign hsuffix h).2
  rw [List.length_append] at hlen
  have := List.length_pos_iff.mpr hb
  omega

end Search

end Marks
