/-
  MixTor.Crypto.LoadIdentity

  The state-dir branch of `load_identity` (mixtor-server.rs), run by any number of
  servers on one state directory.

  What a server does is cut at its file operations; between two of them any other
  server may move.  `write_all` writes the text in one or more pieces.  No operation
  fails for a reason of the file system's own.
-/

import MixTor.Lib.Machine
import MixTor.Crypto.KeyHex

namespace MixTor.Crypto

open Text

/-- `StaticKeypair::from_secret_bytes`. -/
def StaticKeypair.fromSecretBytes (C : Curve) (secret : Key) : StaticKeypair C :=
  ⟨secret, C.publicKey secret, rfl⟩

theorem StaticKeypair.fromSecretBytes_self {C : Curve} (kp : StaticKeypair C) :
    fromSecretBytes C kp.secretBytes = kp := by
  obtain ⟨secret, pub, rfl⟩ := kp
  rfl

inductive IdentityError where
  | message (text : String)
  | io (kind : String)
  deriving DecidableEq, Repr

/-- What `load_identity` returns; `none` is a panic. -/
abbrev Outcome (C : Curve) := Option (Except IdentityError (StaticKeypair C))

/-- Take the identity from the text of the file. -/
def adopt (C : Curve) (corrupt : String) (text : Str) : Outcome C :=
  (keyFromHex (trim text)).map fun answer =>
    match answer with
    | some secret => .ok (.fromSecretBytes C secret)
    | none => .error (.message corrupt)

def corruptOnRead : String :=
  "corrupt mixtor_identity (expected 64 hex chars) in PT state dir"

def corruptOnReread : String := "corrupt mixtor_identity in PT state dir"

-- ============================================================================
-- The servers and their file
-- ============================================================================

/-- Where a server is: before its first read, before `create_new`, in `write_all` with the
    text that is still to be written, before the re-read, or done. -/
inductive Server (C : Curve) where
  | start
  | creating (kp : StaticKeypair C)
  | writing (kp : StaticKeypair C) (rest : Str)
  | rereading
  | done (outcome : Outcome C)

/-- The text of `mixtor_identity`, if it exists, and all servers. -/
structure StateDir (C : Curve) where
  file : Option Str
  servers : Nat → Server C

inductive FileOp where
  /-- `read_to_string`; `secret` is what `generate` draws if there is no file. -/
  | read (i : Nat) (secret : Key)
  | createNew (i : Nat)
  /-- The next `n` characters of `write_all`. -/
  | write (i : Nat) (n : Nat)
  | reread (i : Nat)

/-- The server that makes the operation. -/
def FileOp.server : FileOp → Nat
  | read i _ => i
  | createNew i => i
  | write i _ => i
  | reread i => i

namespace StateDir

variable {C : Curve}

/-- No file yet, and no server has moved. -/
def empty (C : Curve) : StateDir C := ⟨none, fun _ => .start⟩

/-- Server `i` moves on to `p`. -/
def advance (s : StateDir C) (i : Nat) (p : Server C) : StateDir C :=
  { s with servers := Function.update s.servers i p }

@[simp] theorem advance_file (s : StateDir C) (i : Nat) (p : Server C) :
    (s.advance i p).file = s.file := rfl

@[simp] theorem advance_self (s : StateDir C) (i : Nat) (p : Server C) :
    (s.advance i p).servers i = p := Function.update_self ..

theorem advance_of_ne (s : StateDir C) {i j : Nat} (p : Server C) (h : j ≠ i) :
    (s.advance i p).servers j = s.servers j := Function.update_of_ne h ..

def step (s : StateDir C) : FileOp → Option (StateDir C)
  | .read i secret =>
      match s.servers i with
      | .start =>
          match s.file with
          | some text => some (s.advance i (.done (adopt C corruptOnRead text)))
          | none => some (s.advance i (.creating (.fromSecretBytes C secret)))
      | _ => none
  | .createNew i =>
      match s.servers i with
      | .creating kp =>
          match s.file with
          | none => some ({ s with file := some [] }.advance i
              (.writing kp (keyToHex kp.secretBytes)))
          -- Lost a create race with another instance: adopt theirs.
          | some _ => some (s.advance i .rereading)
      | _ => none
  | .write i n =>
      match s.servers i with
      | .writing kp rest =>
          if 0 < n ∧ n ≤ rest.length then
            some ({ s with file := s.file.map fun text => text ++ rest.take n }.advance i
              (if n = rest.length then .done (some (.ok kp)) else .writing kp (rest.drop n)))
          else none
      | _ => none
  | .reread i =>
      match s.servers i with
      | .rereading =>
          match s.file with
          | some text => some (s.advance i (.done (adopt C corruptOnReread text)))
          | none => some (s.advance i (.done (some (.error (.io "NotFound")))))
      | _ => none

/-- Every server that is done has the identity that the file contains, as a server that
    starts now would read it. -/
def Agreed (s : StateDir C) : Prop :=
  ∀ i outcome, s.servers i = .done outcome → ∃ text kp, s.file = some text ∧
    outcome = some (.ok kp) ∧ adopt C corruptOnRead text = some (.ok kp)

/-- No server is between its `create_new` and the end of its `write_all`. -/
def Settled (s : StateDir C) : Prop := ∀ i kp rest, s.servers i ≠ .writing kp rest

/-- The file is read only while nobody fills it. -/
def ReadsWhole (s : StateDir C) : FileOp → Prop
  | .read _ _ => s.Settled
  | .reread _ => s.Settled
  | _ => True

-- ============================================================================
-- One operation
-- ============================================================================

variable {s t : StateDir C}

/-- Everything an operation can do. -/
inductive Moves (s : StateDir C) : FileOp → StateDir C → Prop
  | readText {i secret text} : s.servers i = .start → s.file = some text →
      Moves s (.read i secret) (s.advance i (.done (adopt C corruptOnRead text)))
  | readMissing {i secret} : s.servers i = .start → s.file = none →
      Moves s (.read i secret) (s.advance i (.creating (.fromSecretBytes C secret)))
  | create {i kp} : s.servers i = .creating kp → s.file = none →
      Moves s (.createNew i)
        ({ s with file := some [] }.advance i (.writing kp (keyToHex kp.secretBytes)))
  | lostRace {i kp text} : s.servers i = .creating kp → s.file = some text →
      Moves s (.createNew i) (s.advance i .rereading)
  | write {i n kp rest} : s.servers i = .writing kp rest → 0 < n → n < rest.length →
      Moves s (.write i n)
        ({ s with file := s.file.map fun text => text ++ rest.take n }.advance i
          (.writing kp (rest.drop n)))
  | writeEnd {i kp rest} : s.servers i = .writing kp rest → 0 < rest.length →
      Moves s (.write i rest.length)
        ({ s with file := s.file.map fun text => text ++ rest }.advance i (.done (some (.ok kp))))
  | rereadText {i text} : s.servers i = .rereading → s.file = some text →
      Moves s (.reread i) (s.advance i (.done (adopt C corruptOnReread text)))
  | rereadMissing {i} : s.servers i = .rereading → s.file = none →
      Moves s (.reread i) (s.advance i (.done (some (.error (.io "NotFound")))))

theorem step_moves {op : FileOp} (h : s.step op = some t) : s.Moves op t := by
  cases op with
  | read i secret =>
      simp only [step] at h
      split at h
      · next hi =>
        split at h
        · next text hfile =>
          obtain rfl := Option.some.inj h
          exact .readText hi hfile
        · next hfile =>
          obtain rfl := Option.some.inj h
          exact .readMissing hi hfile
      · cases h
  | createNew i =>
      simp only [step] at h
      split at h
      · next kp hi =>
        split at h
        · next hfile =>
          obtain rfl := Option.some.inj h
          exact .create hi hfile
        · next text hfile =>
          obtain rfl := Option.some.inj h
          exact .lostRace hi hfile
      · cases h
  | write i n =>
      simp only [step] at h
      split at h
      · next kp rest hi =>
        split at h
        · next hn =>
          obtain rfl := Option.some.inj h
          obtain ⟨hpos, hle⟩ := hn
          by_cases hend : n = rest.length
          · subst hend
            rw [if_pos rfl, List.take_length]
            exact .writeEnd hi hpos
          · rw [if_neg hend]
            exact .write hi hpos (Nat.lt_of_le_of_ne hle hend)
        · cases h
      · cases h
  | reread i =>
      simp only [step] at h
      split at h
      · next hi =>
        split at h
        · next text hfile =>
          obtain rfl := Option.some.inj h
          exact .rereadText hi hfile
        · next hfile =>
          obtain rfl := Option.some.inj h
          exact .rereadMissing hi hfile
      · cases h

-- ============================================================================
-- What the text of the file gives
-- ============================================================================

theorem keyToHex_digits (k : Key) :
    (keyToHex k).length = 64 ∧ ∀ c ∈ keyToHex k, (toDigit 16 c).isSome := by
  obtain ⟨hlen, hdigits, -⟩ := spelled_spec (spelled_flatMap_hexByte k.toList)
  exact ⟨by rw [keyToHex, hlen, Vector.length_toList], hdigits⟩

theorem keyToHex_ne_nil (k : Key) : keyToHex k ≠ [] :=
  List.ne_nil_of_length_pos (by rw [(keyToHex_digits k).1]; decide)

/-- Digits are not trimmed. -/
theorem trim_of_digits {text : Str} (h : ∀ c ∈ text, (toDigit 16 c).isSome) :
    trim text = text := by
  apply trim_of_forall
  intro c hc
  obtain ⟨d, hd⟩ := Option.isSome_iff_exists.mp (h c hc)
  exact (toDigit_spec hd).2.2.2.2

/-- The whole text gives the identity that was written. -/
theorem adopt_whole (corrupt : String) (kp : StaticKeypair C) :
    adopt C corrupt (keyToHex kp.secretBytes) = some (.ok kp) := by
  have hread : keyFromHex (trim (keyToHex kp.secretBytes)) = some (some kp.secretBytes) := by
    rw [trim_of_digits (keyToHex_digits _).2]
    exact keyFromHex_of_spells (spells_keyToHex _)
  rw [adopt, hread, Option.map_some]
  exact congrArg (fun kp => some (Except.ok kp)) kp.fromSecretBytes_self

/-- A part of the text is too short for a key. -/
theorem adopt_part (corrupt : String) {k : Key} {text rest : Str} (hrest : rest ≠ [])
    (h : text ++ rest = keyToHex k) :
    adopt C corrupt text = some (.error (.message corrupt)) := by
  obtain ⟨hlen, hdigits⟩ := keyToHex_digits k
  rw [← h] at hlen hdigits
  have htext : ∀ c ∈ text, (toDigit 16 c).isSome :=
    fun c hc => hdigits c (List.mem_append_left rest hc)
  have hshort : byteLen (trim text) ≠ 64 := by
    have hpos := List.length_pos_iff.mpr hrest
    rw [List.length_append] at hlen
    rw [trim_of_digits htext, byteLen_of_digits htext]
    omega
  have hread : keyFromHex (trim text) = some none := by
    rw [trim_of_digits htext, keyFromHex]
    exact if_pos hshort
  rw [adopt, hread]
  rfl

-- ============================================================================
-- The life of the file
-- ============================================================================

/-- A server that is neither in `write_all` nor done. -/
def Waiting : Server C → Prop
  | .writing _ _ => False
  | .done _ => False
  | _ => True

/-- A server that waits, or is done with the identity `kp`. -/
def Follows (kp : StaticKeypair C) (p : Server C) : Prop :=
  Waiting p ∨ p = .done (some (.ok kp))

/-- The file is missing, it is being filled by one server, or it is whole.  Before it is
    whole no server is done, as long as nobody reads it too early. -/
inductive Phase (s : StateDir C) : Prop
  | missing (hfile : s.file = none) (hwait : ∀ i, Waiting (s.servers i) ∧ s.servers i ≠ .rereading)
  | filling (j : Nat) (kp : StaticKeypair C) (text rest : Str) (hfile : s.file = some text)
      (hj : s.servers j = .writing kp rest) (hrest : rest ≠ [])
      (htext : text ++ rest = keyToHex kp.secretBytes)
      (hwait : ∀ i, i ≠ j → Waiting (s.servers i))
  | whole (kp : StaticKeypair C) (hfile : s.file = some (keyToHex kp.secretBytes))
      (hwait : ∀ i, Follows kp (s.servers i))

theorem phase_empty : (empty C).Phase :=
  .missing rfl fun _ => ⟨trivial, nofun⟩

/-- The servers agree in every phase. -/
theorem Phase.agreed (h : s.Phase) : s.Agreed := by
  intro i outcome hi
  cases h with
  | missing hfile hwait =>
      have := (hwait i).1
      rw [hi] at this
      exact this.elim
  | filling j kp text rest hfile hj hrest htext hwait =>
      obtain rfl | hne := eq_or_ne i j
      · rw [hj] at hi
        cases hi
      · have := hwait i hne
        rw [hi] at this
        exact this.elim
  | whole kp hfile hwait =>
      obtain hw | hdone := hwait i
      · rw [hi] at hw
        exact hw.elim
      · rw [hdone] at hi
        cases hi
        exact ⟨_, kp, hfile, rfl, adopt_whole corruptOnRead kp⟩

theorem Phase.waits (h : s.Phase) (hfile : s.file = none) (i : Nat) :
    Waiting (s.servers i) ∧ s.servers i ≠ .rereading := by
  cases h with
  | missing _ hwait => exact hwait i
  | filling j kp text rest hsome => rw [hfile] at hsome; cases hsome
  | whole kp hsome => rw [hfile] at hsome; cases hsome

/-- Only one server writes, and the others wait for it. -/
theorem Phase.writing (h : s.Phase) {i : Nat} {kp : StaticKeypair C} {rest : Str}
    (hi : s.servers i = .writing kp rest) :
    ∃ text, s.file = some text ∧ rest ≠ [] ∧ text ++ rest = keyToHex kp.secretBytes ∧
      ∀ k, k ≠ i → Waiting (s.servers k) := by
  cases h with
  | missing hfile hwait =>
      have hw := (hwait i).1
      rw [hi] at hw
      exact hw.elim
  | filling j kp' text rest' hfile hj hrest htext hwait =>
      obtain rfl | hne := eq_or_ne i j
      · obtain ⟨rfl, rfl⟩ := Server.writing.inj (hj.symm.trans hi)
        exact ⟨text, hfile, hrest, htext, hwait⟩
      · have hw := hwait i hne
        rw [hi] at hw
        exact hw.elim
  | whole kp' hfile hwait =>
      obtain hw | hdone := hwait i
      · rw [hi] at hw
        exact hw.elim
      · rw [hdone] at hi
        cases hi

/-- A file that nobody fills is whole. -/
theorem Phase.whole_of_settled (h : s.Phase) (hs : s.Settled) {text : Str}
    (hfile : s.file = some text) :
    ∃ kp : StaticKeypair C, text = keyToHex kp.secretBytes ∧
      ∀ i, Follows kp (s.servers i) := by
  cases h with
  | missing hnone => rw [hfile] at hnone; cases hnone
  | filling j kp text rest _ hj => exact absurd hj (hs j kp rest)
  | whole kp hsome hwait =>
      exact ⟨kp, Option.some.inj (hfile.symm.trans hsome), hwait⟩

/-- A file that somebody fills is not. -/
theorem Phase.part_of_not_settled (h : s.Phase) (hs : ¬ s.Settled) :
    ∃ (k : Key) (text rest : Str), s.file = some text ∧ rest ≠ [] ∧ text ++ rest = keyToHex k := by
  simp only [Settled, not_forall, not_not] at hs
  obtain ⟨i, kp, rest, hi⟩ := hs
  obtain ⟨text, hfile, hrest, htext, -⟩ := h.writing hi
  exact ⟨kp.secretBytes, text, rest, hfile, hrest, htext⟩

/-- What holds of the server that moves and of every other holds of all. -/
theorem forall_advance {Q : Server C → Prop} {i : Nat} {p : Server C} (hp : Q p)
    (h : ∀ k, k ≠ i → Q (s.servers k)) (k : Nat) : Q ((s.advance i p).servers k) := by
  obtain rfl | hne := eq_or_ne k i
  · rwa [advance_self]
  · rw [advance_of_ne s p hne]
    exact h k hne

/-- The loser of the create race waits for the winner. -/
theorem Phase.lostRace (h : s.Phase) {i : Nat} {kp : StaticKeypair C} {text : Str}
    (hi : s.servers i = .creating kp) (hfile : s.file = some text) :
    (s.advance i .rereading).Phase := by
  cases h with
  | missing hnone => rw [hfile] at hnone; cases hnone
  | filling j kp' text' rest hsome hj hrest htext hwait =>
      have hji : j ≠ i := by
        rintro rfl
        rw [hi] at hj
        cases hj
      refine .filling j kp' text' rest hsome ((advance_of_ne s _ hji).trans hj) hrest htext ?_
      intro k hk
      obtain rfl | hki := eq_or_ne k i
      · rw [advance_self]
        trivial
      · rw [advance_of_ne s _ hki]
        exact hwait k hk
  | whole kp' hsome hwait =>
      exact .whole kp' hsome (forall_advance (Q := Follows kp') (Or.inl trivial) fun k _ => hwait k)

/-- An operation that reads no part of the file leads from phase to phase. -/
theorem phase_step {op : FileOp} (h : s.Phase) (hc : s.ReadsWhole op)
    (hstep : s.step op = some t) : t.Phase := by
  cases step_moves hstep with
  | @readText i secret text hi hfile =>
      obtain ⟨kp, rfl, hwait⟩ := h.whole_of_settled hc hfile
      rw [adopt_whole]
      exact .whole kp hfile (forall_advance (Q := Follows kp) (Or.inr rfl) fun k _ => hwait k)
  | @readMissing i secret hi hfile =>
      exact .missing hfile (forall_advance (Q := fun p => Waiting p ∧ p ≠ .rereading)
        ⟨trivial, nofun⟩ fun k _ => h.waits hfile k)
  | @create i kp hi hfile =>
      refine .filling i kp [] (keyToHex kp.secretBytes) rfl (advance_self _ i _)
        (keyToHex_ne_nil _) rfl ?_
      intro k hk
      rw [advance_of_ne _ _ hk]
      exact (h.waits hfile k).1
  | lostRace hi hfile => exact h.lostRace hi hfile
  | @write i n kp rest hi hpos hlt =>
      obtain ⟨text, hfile, hrest, htext, hwait⟩ := h.writing hi
      refine .filling i kp (text ++ rest.take n) (rest.drop n) (by rw [advance_file, hfile]; rfl)
        (advance_self _ i _) ?_ ?_ ?_
      · exact mt List.drop_eq_nil_iff.mp (not_le.mpr hlt)
      · rw [List.append_assoc, List.take_append_drop, htext]
      · intro k hk
        rw [advance_of_ne _ _ hk]
        exact hwait k hk
  | @writeEnd i kp rest hi hpos =>
      obtain ⟨text, hfile, hrest, htext, hwait⟩ := h.writing hi
      refine .whole kp (by rw [advance_file, hfile, ← htext]; rfl) ?_
      exact forall_advance (Q := Follows kp) (Or.inr rfl) fun k hk => Or.inl (hwait k hk)
  | @rereadText i text hi hfile =>
      obtain ⟨kp, rfl, hwait⟩ := h.whole_of_settled hc hfile
      rw [adopt_whole]
      exact .whole kp hfile (forall_advance (Q := Follows kp) (Or.inr rfl) fun k _ => hwait k)
  | @rereadMissing i hi hfile => exact absurd hi (h.waits hfile i).2

/-- An operation that reads a part of the file ends in an error. -/
theorem not_agreed_of_part {op : FileOp} (h : s.Phase) (hc : ¬ s.ReadsWhole op)
    (hstep : s.step op = some t) : ¬ t.Agreed := by
  have hno : ∀ i corrupt, ¬ (s.advance i (.done (some (.error (.message corrupt))))).Agreed := by
    intro i corrupt hagreed
    obtain ⟨text, kp, -, hok, -⟩ := hagreed i _ (advance_self s i _)
    cases hok
  cases step_moves hstep with
  | @readText i secret text hi hfile =>
      obtain ⟨k, text', rest, hfile', hrest, htext⟩ := h.part_of_not_settled hc
      obtain rfl := Option.some.inj (hfile.symm.trans hfile')
      rw [adopt_part corruptOnRead hrest htext]
      exact hno i _
  | @rereadText i text hi hfile =>
      obtain ⟨k, text', rest, hfile', hrest, htext⟩ := h.part_of_not_settled hc
      obtain rfl := Option.some.inj (hfile.symm.trans hfile')
      rw [adopt_part corruptOnReread hrest htext]
      exact hno i _
  | readMissing hi hfile =>
      obtain ⟨k, text', rest, hfile', -⟩ := h.part_of_not_settled hc
      rw [hfile] at hfile'
      cases hfile'
  | rereadMissing hi hfile =>
      obtain ⟨k, text', rest, hfile', -⟩ := h.part_of_not_settled hc
      rw [hfile] at hfile'
      cases hfile'
  | create => exact absurd trivial hc
  | lostRace => exact absurd trivial hc
  | write => exact absurd trivial hc
  | writeEnd => exact absurd trivial hc

-- ============================================================================
-- Every server finishes
-- ============================================================================

/-- How many operations a server still has to make, at most. -/
def remaining : Server C → Nat
  | .start => 66
  | .creating _ => 65
  | .writing _ rest => rest.length
  | .rereading => 1
  | .done _ => 0

/-- An operation brings its own server nearer to its end, and leaves a server in `write_all`
    only if there is something left to write. -/
theorem Moves.own {op : FileOp} (h : s.Moves op t) :
    ∃ p, t.servers = Function.update s.servers op.server p ∧
      remaining p < remaining (s.servers op.server) ∧ ∀ kp, p ≠ .writing kp [] := by
  cases h with
  | readText hi => exact ⟨_, rfl, by simp only [FileOp.server, hi, remaining]; omega, nofun⟩
  | readMissing hi => exact ⟨_, rfl, by simp only [FileOp.server, hi, remaining]; omega, nofun⟩
  | @create i kp hi =>
      have hlen := (keyToHex_digits kp.secretBytes).1
      refine ⟨_, rfl, by simp only [FileOp.server, hi, remaining, hlen]; omega, ?_⟩
      exact fun kp' h => keyToHex_ne_nil _ (Server.writing.inj h).2
  | lostRace hi => exact ⟨_, rfl, by simp only [FileOp.server, hi, remaining]; omega, nofun⟩
  | @write i n kp rest hi hpos hlt =>
      refine ⟨_, rfl, ?_, ?_⟩
      · simp only [FileOp.server, hi, remaining, List.length_drop]
        omega
      · exact fun kp' h => absurd (List.drop_eq_nil_iff.mp (Server.writing.inj h).2) (not_le.mpr hlt)
  | writeEnd hi hpos => exact ⟨_, rfl, by simpa only [FileOp.server, hi, remaining] using hpos, nofun⟩
  | rereadText hi => exact ⟨_, rfl, by simp only [FileOp.server, hi, remaining]; omega, nofun⟩
  | rereadMissing hi => exact ⟨_, rfl, by simp only [FileOp.server, hi, remaining]; omega, nofun⟩

/-- How many of the operations are server `i`'s. -/
def ownOps (i : Nat) (ops : List FileOp) : Nat := ops.countP fun op => op.server = i

/-- A server makes no more operations than it has left. -/
theorem run_remaining {ops : List FileOp} (hrun : Machine.run step s ops = some t) (i : Nat) :
    remaining (t.servers i) + ownOps i ops ≤ remaining (s.servers i) := by
  induction ops generalizing s with
  | nil =>
      obtain rfl := Option.some.inj hrun
      exact le_rfl
  | cons op ops ih =>
      obtain ⟨u, hu, hrest⟩ := Machine.run_cons_eq_some.mp hrun
      have hih := ih hrest
      obtain ⟨p, hservers, hlt, -⟩ := (step_moves hu).own
      rw [hservers] at hih
      rw [ownOps, List.countP_cons]
      obtain rfl | hne := eq_or_ne i op.server
      · rw [Function.update_self] at hih
        simp only [decide_true, if_true]
        rw [ownOps] at hih
        omega
      · rw [Function.update_of_ne hne] at hih
        rw [if_neg (by simpa using hne.symm), Nat.add_zero]
        exact hih

/-- No server is in `write_all` with nothing left to write. -/
def WritesSomething (s : StateDir C) : Prop := ∀ i kp, s.servers i ≠ .writing kp []

theorem writesSomething_empty : (empty C).WritesSomething := by
  intro i kp h
  cases h

theorem writesSomething_step {op : FileOp} (h : s.WritesSomething) (hstep : s.step op = some t) :
    t.WritesSomething := by
  obtain ⟨p, hservers, -, hp⟩ := (step_moves hstep).own
  intro i kp
  rw [hservers]
  obtain rfl | hne := eq_or_ne i op.server
  · rw [Function.update_self]
    exact hp kp
  · rw [Function.update_of_ne hne]
    exact h i kp

/-- A server that is not done has an operation to make. -/
theorem exists_step (h : s.WritesSomething) {i : Nat}
    (hi : ∀ outcome, s.servers i ≠ .done outcome) :
    ∃ op, op.server = i ∧ (s.step op).isSome := by
  cases hp : s.servers i with
  | start =>
      refine ⟨.read i (Vector.replicate 32 0), rfl, ?_⟩
      simp only [step, hp]
      split <;> rfl
  | creating kp =>
      refine ⟨.createNew i, rfl, ?_⟩
      simp only [step, hp]
      split <;> rfl
  | writing kp rest =>
      have hpos : 0 < rest.length :=
        List.length_pos_iff.mpr fun hnil => h i kp (hnil ▸ hp)
      refine ⟨.write i rest.length, rfl, ?_⟩
      simp only [step, hp, if_pos (And.intro hpos le_rfl)]
      rfl
  | rereading =>
      refine ⟨.reread i, rfl, ?_⟩
      simp only [step, hp]
      split <;> rfl
  | done outcome => exact absurd hp (hi outcome)

-- ============================================================================
-- All servers have the identity of the file
-- ============================================================================

/-- In every run on a directory without the file: every server that returns has the identity
    the file contains, exactly if nobody reads the file while another server fills it.  A
    server returns after 66 operations of its own at the latest, and can always make its
    next one. -/
theorem agreed_iff_readsWhole (C : Curve) (ops : List FileOp) :
    (Machine.Always step Agreed (empty C) ops ↔ Machine.Meets step ReadsWhole (empty C) ops) ∧
    ∀ t, Machine.run step (empty C) ops = some t → ∀ i, ownOps i ops ≤ 66 ∧
      ((∀ outcome, t.servers i ≠ .done outcome) →
        ∃ op, op.server = i ∧ (t.step op).isSome) := by
  constructor
  · exact Machine.always_iff_meets (I := Phase) (fun s h => h.agreed)
      (fun s op t h hc hstep => phase_step h hc hstep)
      (fun s op t h hc hstep => not_agreed_of_part h hc hstep) phase_empty
  · intro t hrun i
    have hcount : remaining (t.servers i) + ownOps i ops ≤ 66 := run_remaining hrun i
    have hwrites : t.WritesSomething :=
      Machine.run_invariant (fun s op u h hstep => writesSomething_step h hstep)
        writesSomething_empty hrun
    exact ⟨by omega, exists_step hwrites⟩

/-- A server that reads between another's `create_new` and its `write_all` finds an empty
    file and fails, and the file becomes whole behind it. -/
theorem reads_empty_file :
    ∃ t, Machine.run step (empty Curve.sum) [.read 0 (Vector.replicate 32 7), .createNew 0,
        .read 1 (Vector.replicate 32 8), .write 0 64] = some t ∧
      t.file = some (keyToHex (Vector.replicate 32 7)) ∧
      t.servers 0 = .done (some (.ok (.fromSecretBytes Curve.sum (Vector.replicate 32 7)))) ∧
      t.servers 1 = .done (some (.error (.message corruptOnRead))) ∧ ¬ t.Agreed := by
  have hfails : ∀ t : StateDir Curve.sum,
      t.servers 1 = .done (some (.error (.message corruptOnRead))) → ¬ t.Agreed := by
    intro t h hagreed
    obtain ⟨text, kp, -, hok, -⟩ := hagreed 1 _ h
    cases hok
  refine ⟨_, rfl, rfl, rfl, ?_, ?_⟩
  · rfl
  · exact hfails _ rfl

end StateDir

end MixTor.Crypto
