/-
  MixTor.Lab.LabLogger

  The logger behind a lab log (lab.rs): callers move rows into a channel, and a thread
  formats them, collects them in a buffer and writes the buffer to the file.

  Callers and the thread move in any order, a write of the file may take any part of the
  buffer or fail, and the process may be killed between any two moves.  Whenever that is,
  the file is a prefix of the log, and what it parses to is a prefix of what was logged
  unless it ends within the kind of a row.
-/

import Mathlib.Data.List.Nodup
import MixTor.Lab.LabLog
import MixTor.Lib.Machine
import MixTor.Lib.Tally

namespace MixTor

open Text (Str decimal)
open Tally (tally)

-- ============================================================================
-- The logger
-- ============================================================================

/-- What `writeln!` of a row hands to the buffer, one after the other. -/
def LogRow.pieces (role : LabRole) (r : LogRow) : List Str :=
  [decimal r.unixNanos, [','], role.name, [','], r.event.name, [','], decimal r.connId, [','],
    decimal r.seq, [','], decimal r.bytes, [','], r.kind.name, ['\n']]

/-- Where the writer thread stands. -/
inductive WriterPhase where
  /-- In `rx.recv`. -/
  | receiving
  /-- In `writeln!`, with the pieces that are left of the row. -/
  | writing (pieces : List Str)
  /-- The buffer is flushed for the first of the pieces. -/
  | makingRoom (pieces : List Str)
  /-- The flush after so many rows. -/
  | periodic
  /-- The flush behind the loop. -/
  | last
  /-- The flush of a dropped buffer. -/
  | dropping
  | ended
  deriving DecidableEq, Repr

/-- The buffer is being written. -/
def WriterPhase.flushing : WriterPhase → Bool
  | makingRoom _ | periodic | last | dropping => true
  | receiving | writing _ | ended => false

structure LabLogger where
  /-- `tx` is there: the logger was not dropped. -/
  txOpen : Bool
  nextConnId : Nat
  channel : List LogRow
  phase : WriterPhase
  sinceFlush : Nat
  buf : Str
  file : Str

namespace LabLogger

/-- `BufWriter::with_capacity(1 << 16, file)`. -/
def capacity : Nat := 65536

/-- Rows between two flushes. -/
def flushEvery : Nat := 1024

/-- The header is in the buffer of an empty file. -/
def create : LabLogger := ⟨true, 1, [], .receiving, 0, labHeader ++ ['\n'], []⟩

inductive Event where
  /-- `log`, with the clock it reads in its row. -/
  | log (row : LogRow)
  /-- `next_conn_id` returns this. -/
  | connId (id : Nat)
  /-- The logger is dropped. -/
  | drop
  /-- `recv` returns: a row, or the end of the channel. -/
  | recv
  /-- The next piece of a row; or the row is done. -/
  | piece
  /-- The file takes so much of the buffer. -/
  | wrote (n : Nat)
  | writeFails
  /-- The loop of a flush finds the buffer empty. -/
  | flushed
  deriving DecidableEq, Repr

/-- Behind a flush: `ok` says that the buffer is written. -/
def flushDone (ok : Bool) (s : LabLogger) : Option LabLogger :=
  match s.phase with
  -- an error ends the loop
  | .makingRoom pieces => some { s with phase := if ok then .writing pieces else .last }
  -- the result of this one is ignored, and so are the next ones
  | .periodic => some { s with phase := .receiving, sinceFlush := 0 }
  | .last => some { s with phase := .dropping }
  | .dropping => some { s with phase := .ended }
  | .receiving | .writing _ | .ended => none

def step (role : LabRole) (s : LabLogger) : Event → Option LabLogger
  | .log row =>
      if s.txOpen then
        -- a send to a receiver that is gone is ignored
        if s.phase = .ended then some s else some { s with channel := s.channel ++ [row] }
      else none
  | .connId id =>
      if s.txOpen ∧ id = s.nextConnId then some { s with nextConnId := (id + 1) % 2 ^ 64 }
      else none
  | .drop => if s.txOpen then some { s with txOpen := false } else none
  | .recv =>
      match s.phase, s.channel with
      | .receiving, row :: channel =>
          some { s with channel, phase := .writing (row.pieces role) }
      | .receiving, [] => if s.txOpen then none else some { s with phase := .last }
      | _, _ => none
  | .piece =>
      match s.phase with
      | .writing (p :: pieces) =>
          if p.length ≤ capacity - s.buf.length then
            some { s with buf := s.buf ++ p, phase := .writing pieces }
          else some { s with phase := .makingRoom (p :: pieces) }
      | .writing [] =>
          if flushEvery ≤ s.sinceFlush + 1 then
            some { s with phase := .periodic, sinceFlush := s.sinceFlush + 1 }
          else some { s with phase := .receiving, sinceFlush := s.sinceFlush + 1 }
      | _ => none
  | .wrote n =>
      if s.phase.flushing ∧ 0 < n ∧ n ≤ s.buf.length then
        some { s with file := s.file ++ s.buf.take n, buf := s.buf.drop n }
      else none
  | .writeFails => if s.buf = [] then none else s.flushDone false
  | .flushed => if s.buf = [] then s.flushDone true else none

/-- The rows of a run, in the order of the calls. -/
def logged (events : List Event) : List LogRow :=
  events.filterMap fun e =>
    match e with
    | .log row => some row
    | _ => none

/-- The connection ids that a run has returned. -/
def connIds (events : List Event) : List Nat :=
  events.filterMap fun e =>
    match e with
    | .connId id => some id
    | _ => none

end LabLogger

-- ============================================================================
-- The text of the log
-- ============================================================================

theorem LogRow.flatten_pieces (role : LabRole) (r : LogRow) :
    (r.pieces role).flatten = r.text role ++ ['\n'] := by
  simp [pieces, text, head]

/-- No piece is as long as the buffer, so each one goes through it. -/
theorem LogRow.length_lt_capacity (role : LabRole) (r : LogRow) :
    ∀ p ∈ r.pieces role, p.length < LabLogger.capacity := by
  have hdecimal : ∀ n < 2 ^ 128, (decimal n).length < LabLogger.capacity := by
    intro n hn
    have hten : 1 < 10 := by decide
    have hlong : n < 10 ^ 39 := by omega
    have hdigits : (decimal n).length ≤ 39 :=
      (Nat.length_toDigits_le_iff hten (Nat.succ_pos 38)).mpr hlong
    exact Nat.lt_of_le_of_lt hdigits (show 39 < 65536 by decide)
  have hword : ∀ n : Fin (2 ^ 64), (decimal n).length < LabLogger.capacity :=
    fun n => hdecimal n (by omega)
  intro p hp
  simp only [pieces, List.mem_cons, List.not_mem_nil, or_false] at hp
  obtain rfl | rfl | rfl | rfl | rfl | rfl | rfl | rfl | rfl | rfl | rfl | rfl | rfl | rfl := hp
  · exact hdecimal _ r.unixNanos.isLt
  · decide
  · cases role <;> decide
  · decide
  · cases r.event <;> decide
  · decide
  · exact hword _
  · decide
  · exact hword _
  · decide
  · exact hword _
  · decide
  · cases r.kind <;> decide
  · decide

theorem labCsv_concat (role : LabRole) (rows : List LogRow) (r : LogRow) :
    labCsv role (rows ++ [r]) = labCsv role rows ++ (r.text role ++ ['\n']) := by
  simp [labCsv]

theorem labCsv_mono (role : LabRole) {rows rows' : List LogRow} (h : rows <+: rows') :
    labCsv role rows <+: labCsv role rows' := by
  obtain ⟨rest, rfl⟩ := h
  refine ⟨rest.flatMap fun r => r.text role ++ ['\n'], ?_⟩
  simp [labCsv]

-- ============================================================================
-- What the thread has done
-- ============================================================================

namespace WriterPhase

/-- The thread is in its loop. -/
def inLoop : WriterPhase → Bool
  | receiving | writing _ | makingRoom _ | periodic => true
  | last | dropping | ended => false

/-- What is left of the row in hand. -/
def pending : WriterPhase → Str
  | writing pieces | makingRoom pieces => pieces.flatten
  | receiving | periodic | last | dropping | ended => []

/-- The pieces in hand. -/
def left : WriterPhase → List Str
  | writing pieces | makingRoom pieces => pieces
  | receiving | periodic | last | dropping | ended => []

/-- The rows in hand. -/
def inHand : WriterPhase → Nat
  | writing _ | makingRoom _ => 1
  | receiving | periodic | last | dropping | ended => 0

end WriterPhase

namespace LabLogger

variable {role : LabRole} {s s' : LabLogger} {rows received : List LogRow} {clean clean' : Prop}

/-- All but the last `k` rows are in the file. -/
def Lag (role : LabRole) (received : List LogRow) (k : Nat) (file : Str) : Prop :=
  ∃ old new, received = old ++ new ∧ new.length ≤ k ∧ (old ≠ [] → labCsv role old <+: file)

/-- In the loop: the rows that were received are in the file, in the buffer and in hand, and
    the others wait. -/
structure Looping (role : LabRole) (clean : Prop) (rows received : List LogRow) (s : LabLogger) :
    Prop where
  inLoop : s.phase.inLoop = true
  channel : received ++ s.channel = rows
  text : s.file ++ s.buf ++ s.phase.pending = labCsv role received
  since : s.phase ≠ .periodic → s.sinceFlush < flushEvery
  lag : clean → Lag role received (s.sinceFlush + s.phase.inHand) s.file

/-- Behind the loop: what was received may have been cut by a failed write. -/
structure Ending (role : LabRole) (clean : Prop) (rows received : List LogRow) (s : LabLogger) :
    Prop where
  inLoop : s.phase.inLoop = false
  taken : received <+: rows
  text : s.file ++ s.buf <+: labCsv role received
  closed : clean → s.txOpen = false
  whole : clean → s.file ++ s.buf = labCsv role rows
  empty : clean → s.phase ≠ .last → s.buf = []

/-- After the calls `rows`; `clean` says that no write has failed. -/
def Inv (role : LabRole) (clean : Prop) (rows : List LogRow) (s : LabLogger) : Prop :=
  ∃ received, Looping role clean rows received s ∨ Ending role clean rows received s

/-- A larger file. -/
theorem Lag.mono {k : Nat} {file file' : Str} (h : Lag role received k file)
    (hfile : file <+: file') : Lag role received k file' := by
  obtain ⟨old, new, hsplit, hlen, hold⟩ := h
  exact ⟨old, new, hsplit, hlen, fun hne => (hold hne).trans hfile⟩

/-- One more row is received. -/
theorem Lag.concat {k : Nat} {file : Str} (h : Lag role received k file) (r : LogRow) :
    Lag role (received ++ [r]) (k + 1) file := by
  obtain ⟨old, new, rfl, hlen, hold⟩ := h
  refine ⟨old, new ++ [r], List.append_assoc .., ?_, hold⟩
  rw [List.length_append]
  exact Nat.succ_le_succ hlen

-- ============================================================================
-- One move
-- ============================================================================

/-- What one step can do. -/
inductive Move (role : LabRole) (s : LabLogger) : Event → LabLogger → Prop where
  | log (row : LogRow) (hopen : s.txOpen = true) (hphase : s.phase ≠ .ended) :
      Move role s (.log row) { s with channel := s.channel ++ [row] }
  | logLate (row : LogRow) (hopen : s.txOpen = true) (hphase : s.phase = .ended) :
      Move role s (.log row) s
  | connId (hopen : s.txOpen = true) :
      Move role s (.connId s.nextConnId) { s with nextConnId := (s.nextConnId + 1) % 2 ^ 64 }
  | drop (hopen : s.txOpen = true) : Move role s .drop { s with txOpen := false }
  | recv (row : LogRow) (channel : List LogRow) (hphase : s.phase = .receiving)
      (hchannel : s.channel = row :: channel) :
      Move role s .recv { s with channel, phase := .writing (row.pieces role) }
  | hangUp (hphase : s.phase = .receiving) (hchannel : s.channel = [])
      (hopen : s.txOpen = false) : Move role s .recv { s with phase := .last }
  | piece (p : Str) (pieces : List Str) (hphase : s.phase = .writing (p :: pieces))
      (hroom : p.length ≤ capacity - s.buf.length) :
      Move role s .piece { s with buf := s.buf ++ p, phase := .writing pieces }
  | noRoom (p : Str) (pieces : List Str) (hphase : s.phase = .writing (p :: pieces))
      (hroom : ¬ p.length ≤ capacity - s.buf.length) :
      Move role s .piece { s with phase := .makingRoom (p :: pieces) }
  | rowDone (hphase : s.phase = .writing []) (hsince : s.sinceFlush + 1 < flushEvery) :
      Move role s .piece { s with phase := .receiving, sinceFlush := s.sinceFlush + 1 }
  | rowsDone (hphase : s.phase = .writing []) :
      Move role s .piece { s with phase := .periodic, sinceFlush := s.sinceFlush + 1 }
  | wrote (n : Nat) (hphase : s.phase.flushing = true) (hpos : 0 < n)
      (hlen : n ≤ s.buf.length) :
      Move role s (.wrote n) { s with file := s.file ++ s.buf.take n, buf := s.buf.drop n }
  | writeFails {t : LabLogger} (hbuf : s.buf ≠ []) (hdone : s.flushDone false = some t) :
      Move role s .writeFails t
  | flushed {t : LabLogger} (hbuf : s.buf = []) (hdone : s.flushDone true = some t) :
      Move role s .flushed t

/-- **Inversion.** -/
theorem move_of_step {e : Event} (hstep : s.step role e = some s') : Move role s e s' := by
  cases e with
  | log row =>
      rw [step] at hstep
      split at hstep
      · next hopen =>
        split at hstep
        · next hphase => exact Option.some.inj hstep ▸ .logLate row hopen hphase
        · next hphase => exact Option.some.inj hstep ▸ .log row hopen hphase
      · cases hstep
  | connId id =>
      rw [step] at hstep
      split at hstep
      · next h =>
        obtain ⟨hopen, rfl⟩ := h
        exact Option.some.inj hstep ▸ .connId hopen
      · cases hstep
  | drop =>
      rw [step] at hstep
      split at hstep
      · next hopen => exact Option.some.inj hstep ▸ .drop hopen
      · cases hstep
  | recv =>
      rw [step] at hstep
      split at hstep
      · next row channel hphase hchannel =>
        exact Option.some.inj hstep ▸ .recv row channel hphase hchannel
      · next hphase hchannel =>
        split at hstep
        · cases hstep
        · next hopen =>
          exact Option.some.inj hstep ▸ .hangUp hphase hchannel (Bool.eq_false_iff.mpr hopen)
      · cases hstep
  | piece =>
      rw [step] at hstep
      split at hstep
      · next p pieces hphase =>
        split at hstep
        · next hroom => exact Option.some.inj hstep ▸ .piece p pieces hphase hroom
        · next hroom => exact Option.some.inj hstep ▸ .noRoom p pieces hphase hroom
      · next hphase =>
        split at hstep
        · exact Option.some.inj hstep ▸ .rowsDone hphase
        · next hsince =>
          exact Option.some.inj hstep ▸ .rowDone hphase (Nat.lt_of_not_le hsince)
      · cases hstep
  | wrote n =>
      rw [step] at hstep
      split at hstep
      · next h => exact Option.some.inj hstep ▸ .wrote n h.1 h.2.1 h.2.2
      · cases hstep
  | writeFails =>
      rw [step] at hstep
      split at hstep
      · cases hstep
      · next hbuf => exact .writeFails hbuf hstep
  | flushed =>
      rw [step] at hstep
      split at hstep
      · next hbuf => exact .flushed hbuf hstep
      · cases hstep

/-- A flush is over for a piece, for the rows before it, for the loop or for the buffer. -/
theorem flushDone_cases {ok : Bool} (hdone : s.flushDone ok = some s') :
    (∃ pieces, s.phase = .makingRoom pieces ∧
      s' = { s with phase := if ok then .writing pieces else .last }) ∨
    (s.phase = .periodic ∧ s' = { s with phase := .receiving, sinceFlush := 0 }) ∨
    (s.phase = .last ∧ s' = { s with phase := .dropping }) ∨
    (s.phase = .dropping ∧ s' = { s with phase := .ended }) := by
  rw [flushDone] at hdone
  split at hdone
  · next pieces hphase => exact .inl ⟨pieces, hphase, (Option.some.inj hdone).symm⟩
  · next hphase => exact .inr (.inl ⟨hphase, (Option.some.inj hdone).symm⟩)
  · next hphase => exact .inr (.inr (.inl ⟨hphase, (Option.some.inj hdone).symm⟩))
  · next hphase => exact .inr (.inr (.inr ⟨hphase, (Option.some.inj hdone).symm⟩))
  · cases hdone
  · cases hdone
  · cases hdone

-- ============================================================================
-- The file along a run
-- ============================================================================

/-- A thread that is in its loop has received all rows but those in the channel. -/
theorem Inv.looping (h : Inv role clean rows s) (hphase : s.phase.inLoop = true) :
    ∃ received, Looping role clean rows received s := by
  obtain ⟨received, hs | hs⟩ := h
  · exact ⟨received, hs⟩
  · rw [hs.inLoop] at hphase
    cases hphase

theorem Inv.ending (h : Inv role clean rows s) (hphase : s.phase.inLoop = false) :
    ∃ received, Ending role clean rows received s := by
  obtain ⟨received, hs | hs⟩ := h
  · rw [hs.inLoop] at hphase
    cases hphase
  · exact ⟨received, hs⟩

/-- A row that the channel takes. -/
theorem Inv.log {row : LogRow} (h : Inv role clean rows s) (hopen : s.txOpen = true) :
    Inv role clean (rows ++ [row]) { s with channel := s.channel ++ [row] } := by
  obtain ⟨received, ⟨hloop, hchannel, htext, hsince, hlag⟩ |
    ⟨hloop, htaken, htext, hclosed, -, -⟩⟩ := h
  · exact ⟨received, .inl ⟨hloop, by rw [← hchannel, List.append_assoc], htext, hsince, hlag⟩⟩
  · -- the logger is not dropped, so a write has failed
    have hfailed : ¬ clean := fun hclean => by
      rw [hclosed hclean] at hopen
      cases hopen
    exact ⟨received, .inr ⟨hloop, htaken.trans (List.prefix_append rows [row]), htext, hclosed,
      fun hclean => absurd hclean hfailed, fun hclean => absurd hclean hfailed⟩⟩

/-- A row that comes too late. -/
theorem Inv.logLate {row : LogRow} (h : Inv role clean rows s) (hopen : s.txOpen = true)
    (hphase : s.phase = .ended) : Inv role clean (rows ++ [row]) s := by
  obtain ⟨received, hloop, htaken, htext, hclosed, -, -⟩ := h.ending (hphase ▸ rfl)
  have hfailed : ¬ clean := fun hclean => by
    rw [hclosed hclean] at hopen
    cases hopen
  exact ⟨received, .inr ⟨hloop, htaken.trans (List.prefix_append rows [row]), htext, hclosed,
    fun hclean => absurd hclean hfailed, fun hclean => absurd hclean hfailed⟩⟩

/-- The thread takes a row. -/
theorem Inv.recv {row : LogRow} {channel : List LogRow} (h : Inv role clean rows s)
    (hphase : s.phase = .receiving) (hrows : s.channel = row :: channel) :
    Inv role clean rows { s with channel, phase := .writing (row.pieces role) } := by
  obtain ⟨received, -, hchannel, htext, hsince, hlag⟩ := h.looping (hphase ▸ rfl)
  rw [hphase] at htext hsince hlag
  refine ⟨received ++ [row], .inl ⟨rfl, ?_, ?_, fun _ => hsince nofun, fun hclean =>
    (hlag hclean).concat row⟩⟩
  · rw [← hchannel, hrows, List.append_assoc]
    rfl
  · rw [WriterPhase.pending, List.append_nil] at htext
    rw [labCsv_concat, ← htext, ← LogRow.flatten_pieces]
    rfl

/-- The thread finds the channel closed. -/
theorem Inv.hangUp (h : Inv role clean rows s) (hphase : s.phase = .receiving)
    (hrows : s.channel = []) (hopen : s.txOpen = false) :
    Inv role clean rows { s with phase := .last } := by
  obtain ⟨received, -, hchannel, htext, -, -⟩ := h.looping (hphase ▸ rfl)
  rw [hrows, List.append_nil] at hchannel
  rw [hphase, WriterPhase.pending, List.append_nil] at htext
  subst hchannel
  exact ⟨received, .inr ⟨rfl, List.prefix_rfl, htext ▸ List.prefix_rfl, fun _ => hopen,
    fun _ => htext, fun _ hne => absurd rfl hne⟩⟩

/-- The thread formats a piece. -/
theorem Inv.piece {p : Str} {pieces : List Str} (h : Inv role clean rows s)
    (hphase : s.phase = .writing (p :: pieces)) :
    Inv role clean rows { s with buf := s.buf ++ p, phase := .writing pieces } := by
  obtain ⟨received, -, hchannel, htext, hsince, hlag⟩ := h.looping (hphase ▸ rfl)
  rw [hphase] at htext hsince hlag
  refine ⟨received, .inl ⟨rfl, hchannel, ?_, fun _ => hsince nofun, hlag⟩⟩
  rw [← htext, WriterPhase.pending, WriterPhase.pending, List.flatten_cons, List.append_assoc,
    List.append_assoc, List.append_assoc]

/-- The pieces in hand wait for room. -/
theorem Inv.noRoom {pieces : List Str} (h : Inv role clean rows s)
    (hphase : s.phase = .writing pieces) :
    Inv role clean rows { s with phase := .makingRoom pieces } := by
  obtain ⟨received, -, hchannel, htext, hsince, hlag⟩ := h.looping (hphase ▸ rfl)
  rw [hphase] at htext hsince hlag
  exact ⟨received, .inl ⟨rfl, hchannel, htext, fun _ => hsince nofun, hlag⟩⟩

/-- The thread is done with a row. -/
theorem Inv.rowDone {phase : WriterPhase} (h : Inv role clean rows s)
    (hphase : s.phase = .writing [])
    (hnext : phase = .periodic ∨ phase = .receiving ∧ s.sinceFlush + 1 < flushEvery) :
    Inv role clean rows { s with phase, sinceFlush := s.sinceFlush + 1 } := by
  obtain ⟨received, -, hchannel, htext, -, hlag⟩ := h.looping (hphase ▸ rfl)
  rw [hphase] at htext hlag
  obtain rfl | ⟨rfl, hfew⟩ := hnext
  · exact ⟨received, .inl ⟨rfl, hchannel, htext, fun hne => absurd rfl hne, hlag⟩⟩
  · exact ⟨received, .inl ⟨rfl, hchannel, htext, fun _ => hfew, hlag⟩⟩

/-- What is in the file and in the buffer stays. -/
theorem Inv.wrote (h : Inv role clean rows s) (n : Nat) :
    Inv role clean rows { s with file := s.file ++ s.buf.take n, buf := s.buf.drop n } := by
  have hsame : s.file ++ s.buf.take n ++ s.buf.drop n = s.file ++ s.buf := by
    rw [List.append_assoc, List.take_append_drop]
  obtain ⟨received, ⟨hloop, hchannel, htext, hsince, hlag⟩ |
    ⟨hloop, htaken, htext, hclosed, hwhole, hempty⟩⟩ := h
  · exact ⟨received, .inl ⟨hloop, hchannel, (congrArg (· ++ s.phase.pending) hsame).trans htext,
      hsince, fun hclean => (hlag hclean).mono (List.prefix_append _ _)⟩⟩
  · refine ⟨received, .inr ⟨hloop, htaken, hsame.symm ▸ htext, hclosed, fun hclean =>
      hsame.trans (hwhole hclean), fun hclean hne => ?_⟩⟩
    show s.buf.drop n = []
    rw [hempty hclean hne, List.drop_nil]

/-- Behind the loop nothing is known after a failed write but that the log is cut. -/
theorem Ending.failed {phase : WriterPhase} (hs : Ending role clean rows received s)
    (hphase : phase.inLoop = false) (hfailed : ¬ clean') :
    Ending role clean' rows received { s with phase } :=
  ⟨hphase, hs.taken, hs.text, fun hclean => absurd hclean hfailed,
    fun hclean => absurd hclean hfailed, fun hclean => absurd hclean hfailed⟩

/-- A failed write ends the loop, unless it is one of a periodic flush. -/
theorem Inv.writeFails (h : Inv role clean rows s) (hdone : s.flushDone false = some s')
    (hfailed : ¬ clean') : Inv role clean' rows s' := by
  obtain ⟨pieces, hphase, rfl⟩ | ⟨hphase, rfl⟩ | ⟨hphase, rfl⟩ | ⟨hphase, rfl⟩ :=
    flushDone_cases hdone
  · obtain ⟨received, -, hchannel, htext, -, -⟩ := h.looping (hphase ▸ rfl)
    refine ⟨received, .inr ⟨rfl, hchannel ▸ List.prefix_append _ _, ?_, fun hclean =>
      absurd hclean hfailed, fun hclean => absurd hclean hfailed, fun hclean =>
      absurd hclean hfailed⟩⟩
    rw [← htext]
    exact List.prefix_append _ _
  · obtain ⟨received, -, hchannel, htext, -, -⟩ := h.looping (hphase ▸ rfl)
    rw [hphase] at htext
    exact ⟨received, .inl ⟨rfl, hchannel, htext, fun _ => Nat.succ_pos 1023, fun hclean =>
      absurd hclean hfailed⟩⟩
  · obtain ⟨received, hs⟩ := h.ending (hphase ▸ rfl)
    exact ⟨received, .inr (hs.failed rfl hfailed)⟩
  · obtain ⟨received, hs⟩ := h.ending (hphase ▸ rfl)
    exact ⟨received, .inr (hs.failed rfl hfailed)⟩

/-- The end of a flush. -/
theorem Inv.flushed (h : Inv role clean rows s) (hbuf : s.buf = [])
    (hdone : s.flushDone true = some s') : Inv role clean rows s' := by
  obtain ⟨pieces, hphase, rfl⟩ | ⟨hphase, rfl⟩ | ⟨hphase, rfl⟩ | ⟨hphase, rfl⟩ :=
    flushDone_cases hdone
  · obtain ⟨received, -, hchannel, htext, hsince, hlag⟩ := h.looping (hphase ▸ rfl)
    rw [hphase] at htext hsince hlag
    exact ⟨received, .inl ⟨rfl, hchannel, htext, fun _ => hsince nofun, hlag⟩⟩
  · -- the file has caught up
    obtain ⟨received, -, hchannel, htext, -, -⟩ := h.looping (hphase ▸ rfl)
    rw [hphase] at htext
    refine ⟨received, .inl ⟨rfl, hchannel, htext, fun _ => Nat.succ_pos 1023, fun _ =>
      ⟨received, [], (List.append_nil _).symm, Nat.zero_le _, fun _ => ?_⟩⟩⟩
    rw [hbuf, WriterPhase.pending, List.append_nil, List.append_nil] at htext
    exact htext ▸ List.prefix_rfl
  · obtain ⟨received, hs⟩ := h.ending (hphase ▸ rfl)
    exact ⟨received, .inr ⟨rfl, hs.taken, hs.text, hs.closed, hs.whole, fun _ _ => hbuf⟩⟩
  · obtain ⟨received, hs⟩ := h.ending (hphase ▸ rfl)
    exact ⟨received, .inr ⟨rfl, hs.taken, hs.text, hs.closed, hs.whole, fun _ _ => hbuf⟩⟩

theorem Inv.weaken (h : Inv role clean rows s) (hc : clean' → clean) :
    Inv role clean' rows s := by
  obtain ⟨received, ⟨hloop, hchannel, htext, hsince, hlag⟩ |
    ⟨hloop, htaken, htext, hclosed, hwhole, hempty⟩⟩ := h
  · exact ⟨received, .inl ⟨hloop, hchannel, htext, hsince, fun h => hlag (hc h)⟩⟩
  · exact ⟨received, .inr ⟨hloop, htaken, htext, fun h => hclosed (hc h), fun h => hwhole (hc h),
      fun h => hempty (hc h)⟩⟩

/-- The fields of the callers' side alone. -/
theorem Inv.caller (h : Inv role clean rows s) (nextConnId : Nat) {txOpen : Bool}
    (hopen : s.txOpen = false → txOpen = false) :
    Inv role clean rows { s with txOpen, nextConnId } := by
  obtain ⟨received, ⟨hloop, hchannel, htext, hsince, hlag⟩ |
    ⟨hloop, htaken, htext, hclosed, hwhole, hempty⟩⟩ := h
  · exact ⟨received, .inl ⟨hloop, hchannel, htext, hsince, hlag⟩⟩
  · exact ⟨received, .inr ⟨hloop, htaken, htext, fun h => hopen (hclosed h), hwhole, hempty⟩⟩

theorem logged_concat (events : List Event) (e : Event) :
    logged (events ++ [e]) = logged events ++ logged [e] := List.filterMap_append

/-- **Step lemma.** -/
theorem Inv.step {events : List Event} {e : Event}
    (h : Inv role (.writeFails ∉ events) (logged events) s) (hstep : s.step role e = some s') :
    Inv role (.writeFails ∉ events ++ [e]) (logged (events ++ [e])) s' := by
  have hclean : .writeFails ∉ events ++ [e] → .writeFails ∉ events :=
    fun hnot hmem => hnot (List.mem_append_left _ hmem)
  have hother : logged [e] = [] → logged (events ++ [e]) = logged events := fun hnone => by
    rw [logged_concat, hnone, List.append_nil]
  cases move_of_step hstep with
  | log row hopen _ =>
      rw [logged_concat]
      exact (h.log hopen).weaken hclean
  | logLate row hopen hphase =>
      rw [logged_concat]
      exact (h.logLate hopen hphase).weaken hclean
  | connId _ =>
      rw [hother rfl]
      exact (h.caller ((s.nextConnId + 1) % 2 ^ 64) id).weaken hclean
  | drop _ =>
      rw [hother rfl]
      exact (h.caller s.nextConnId fun _ => rfl).weaken hclean
  | recv row channel hphase hchannel =>
      rw [hother rfl]
      exact (h.recv hphase hchannel).weaken hclean
  | hangUp hphase hchannel hopen =>
      rw [hother rfl]
      exact (h.hangUp hphase hchannel hopen).weaken hclean
  | piece p pieces hphase _ =>
      rw [hother rfl]
      exact (h.piece hphase).weaken hclean
  | noRoom p pieces hphase _ =>
      rw [hother rfl]
      exact (h.noRoom hphase).weaken hclean
  | rowDone hphase hsince =>
      rw [hother rfl]
      exact (h.rowDone hphase (.inr ⟨rfl, hsince⟩)).weaken hclean
  | rowsDone hphase =>
      rw [hother rfl]
      exact (h.rowDone hphase (.inl rfl)).weaken hclean
  | wrote n _ _ _ =>
      rw [hother rfl]
      exact (h.wrote n).weaken hclean
  | writeFails _ hdone =>
      rw [hother rfl]
      exact h.writeFails hdone fun hnot =>
        hnot (List.mem_append_right _ (List.mem_singleton.mpr rfl))
  | flushed hbuf hdone =>
      rw [hother rfl]
      exact (h.flushed hbuf hdone).weaken hclean

/-- **Run lemma.** -/
theorem run_inv {events : List Event}
    (hrun : Machine.run (LabLogger.step role) create events = some s) :
    Inv role (.writeFails ∉ events) (logged events) s := by
  have hcreate : Inv role (.writeFails ∉ ([] : List Event)) (logged []) create := by
    refine ⟨[], .inl ⟨rfl, rfl, ?_, fun _ => Nat.succ_pos 1023, fun _ =>
      ⟨[], [], rfl, Nat.le_refl 0, fun hne => absurd rfl hne⟩⟩⟩
    show labHeader ++ ['\n'] ++ [] = labCsv role []
    rw [List.append_nil]
    rfl
  exact Machine.run_history
    (J := fun events s => Inv role (.writeFails ∉ events) (logged events) s)
    (fun _ _ _ _ h hstep => h.step hstep) hcreate hrun

/-- Whatever has happened, the file is a cut of the log. -/
theorem file_isCut {events : List Event}
    (hrun : Machine.run (LabLogger.step role) create events = some s) :
    s.file <+: labCsv role (logged events) := by
  obtain ⟨received, hs | hs⟩ := run_inv hrun
  · have hfile : s.file <+: labCsv role received := by
      rw [← hs.text, List.append_assoc]
      exact List.prefix_append _ _
    exact hfile.trans (labCsv_mono role (hs.channel ▸ List.prefix_append _ _))
  · exact ((List.prefix_append _ _).trans hs.text).trans (labCsv_mono role hs.taken)

/-- **A lab log is what was logged, cut at some point.**  In every state of every run,
    whoever calls and whatever the file takes: the file is a prefix of the log of all rows,
    in the order of the calls; it parses to a prefix of their records unless it ends within
    the kind of a row; and as long as no write has failed, it has all but 1023 of the rows
    that the thread has taken whenever the thread waits for more. -/
theorem file_of_run {events : List Event}
    (hrun : Machine.run (LabLogger.step role) create events = some s) :
    s.file <+: labCsv role (logged events) ∧
      (¬ CutInKind role (logged events) s.file →
        parseReader s.file <+: (logged events).map (LogRow.record role)) ∧
      (.writeFails ∉ events → s.phase = .receiving →
        ∃ old new, logged events = old ++ new ++ s.channel ∧ new.length < flushEvery ∧
          (old ≠ [] → labCsv role old <+: s.file)) := by
  have hcut := file_isCut hrun
  refine ⟨hcut, prefix_of_not_cutInKind hcut, fun hclean hphase => ?_⟩
  obtain ⟨received, hs⟩ := (run_inv hrun).looping (hphase ▸ rfl)
  obtain ⟨old, new, rfl, hlen, hold⟩ := hs.lag hclean
  rw [hphase, WriterPhase.inHand, Nat.add_zero] at hlen
  have hsince := hs.since (by rw [hphase]; nofun)
  exact ⟨old, new, hs.channel.symm, Nat.lt_of_le_of_lt hlen hsince, hold⟩

/-- The thread takes a row, formats its pieces and is done with it. -/
def rowMoves : List Event := .recv :: List.replicate 15 .piece

/-- The header and part of a frame have been written when the process is killed. -/
theorem file_of_run_frame : ∃ s,
    Machine.run (LabLogger.step .server) create ([.log .frame, .drop] ++ rowMoves
      ++ [.recv, .wrote 60]) = some s ∧
      s.file = labHeader ++ ['\n'] ++ (LogRow.frame.text .server).take 15 ∧
      s.file <+: labCsv .server [.frame] ∧
      parseReader s.file <+: [LogRow.frame.record .server] := by
  have hrun : (Machine.run (LabLogger.step .server) create ([.log .frame, .drop] ++ rowMoves
      ++ [.recv, .wrote 60])).map LabLogger.file
      = some (labHeader ++ ['\n'] ++ (LogRow.frame.text .server).take 15) := by
    decide +kernel
  obtain ⟨s, hs, hfile⟩ := Option.map_eq_some_iff.mp hrun
  obtain ⟨hcut, hparse, -⟩ := file_of_run hs
  refine ⟨s, hs, hfile, hcut, hparse ?_⟩
  -- the cut is too short to reach the kind
  rintro ⟨done, row, rest, part, hrows, -, -, hkind⟩
  cases done with
  | nil =>
      obtain ⟨rfl, -⟩ := List.cons.inj hrows
      have hhead : 60 < (labCsv .server []).length + (LogRow.frame.head .server).length := by
        decide +kernel
      have hcutlen : (labHeader ++ ['\n'] ++ (LogRow.frame.text .server).take 15).length = 60 := by
        decide +kernel
      have hlen : (labCsv .server []).length + ((LogRow.frame.head .server).length + part.length)
          = 60 := by
        rw [← hcutlen, ← hfile, hkind, List.length_append, List.length_append]
      omega
  | cons r done =>
      have hnil : [] = done ++ row :: rest := (List.cons.inj hrows).2
      exact absurd hnil.symm (List.append_ne_nil_of_right_ne_nil done (List.cons_ne_nil row rest))

-- ============================================================================
-- A dropped logger
-- ============================================================================

/-- Moves of the thread for a row that waits: three for each piece, one for each byte, the
    move that takes it, the one that finds it done, and a flush. -/
def rowWork (role : LabRole) (r : LogRow) : Nat :=
  3 * (r.pieces role).length + (r.pieces role).flatten.length + 3

/-- Moves that a phase leads to with an empty buffer. -/
def phaseWork : WriterPhase → Nat
  | .writing pieces | .makingRoom pieces => 3 * pieces.length + pieces.flatten.length + 5
  | .periodic => 4
  | .receiving => 3
  | .last => 2
  | .dropping => 1
  | .ended => 0

/-- A buffer that is not empty may be in the way of a piece. -/
def roomWork (s : LabLogger) : Nat :=
  match s.phase with
  | .makingRoom _ => 1
  | _ => if s.buf = [] then 0 else 2

/-- How often the thread still moves when nobody calls any more. -/
def work (role : LabRole) (s : LabLogger) : Nat :=
  tally (rowWork role) s.channel + phaseWork s.phase + s.buf.length + s.roomWork

/-- Each piece in hand fits into an empty buffer. -/
def Fits (s : LabLogger) : Prop := ∀ p ∈ s.phase.left, p.length < capacity

theorem Fits.of_left (h : s'.phase.left = []) : s'.Fits := fun p hp => by
  rw [h] at hp
  cases hp

theorem Fits.step {e : Event} (h : s.Fits) (hstep : s.step role e = some s') : s'.Fits := by
  cases move_of_step hstep with
  | log _ _ _ => exact h
  | logLate _ _ _ => exact h
  | connId _ => exact h
  | drop _ => exact h
  | recv row _ _ _ => exact row.length_lt_capacity role
  | hangUp _ _ _ => exact .of_left rfl
  | piece p pieces hphase _ =>
      rw [Fits, hphase] at h
      exact fun q hq => h q (List.mem_cons_of_mem p hq)
  | noRoom p pieces hphase _ =>
      rw [Fits, hphase] at h
      exact h
  | rowDone _ _ => exact .of_left rfl
  | rowsDone _ => exact .of_left rfl
  | wrote _ _ _ _ => exact h
  | writeFails _ hdone =>
      obtain ⟨_, _, rfl⟩ | ⟨_, rfl⟩ | ⟨_, rfl⟩ | ⟨_, rfl⟩ := flushDone_cases hdone
      · exact .of_left rfl
      · exact .of_left rfl
      · exact .of_left rfl
      · exact .of_left rfl
  | flushed _ hdone =>
      obtain ⟨pieces, hphase, rfl⟩ | ⟨_, rfl⟩ | ⟨_, rfl⟩ | ⟨_, rfl⟩ := flushDone_cases hdone
      · rw [Fits, hphase] at h
        exact h
      · exact .of_left rfl
      · exact .of_left rfl
      · exact .of_left rfl

/-- A dropped logger takes no call. -/
theorem closed_step {e : Event} (hopen : s.txOpen = false) (hstep : s.step role e = some s') :
    s'.txOpen = false ∧ logged [e] = [] := by
  cases move_of_step hstep with
  | log _ htx _ => cases hopen.symm.trans htx
  | logLate _ htx _ => cases hopen.symm.trans htx
  | connId htx => cases hopen.symm.trans htx
  | drop htx => cases hopen.symm.trans htx
  | recv _ _ _ _ => exact ⟨hopen, rfl⟩
  | hangUp _ _ _ => exact ⟨hopen, rfl⟩
  | piece _ _ _ _ => exact ⟨hopen, rfl⟩
  | noRoom _ _ _ _ => exact ⟨hopen, rfl⟩
  | rowDone _ _ => exact ⟨hopen, rfl⟩
  | rowsDone _ => exact ⟨hopen, rfl⟩
  | wrote _ _ _ _ => exact ⟨hopen, rfl⟩
  | writeFails _ hdone =>
      obtain ⟨_, _, rfl⟩ | ⟨_, rfl⟩ | ⟨_, rfl⟩ | ⟨_, rfl⟩ := flushDone_cases hdone <;>
        exact ⟨hopen, rfl⟩
  | flushed _ hdone =>
      obtain ⟨_, _, rfl⟩ | ⟨_, rfl⟩ | ⟨_, rfl⟩ | ⟨_, rfl⟩ := flushDone_cases hdone <;>
        exact ⟨hopen, rfl⟩

/-- **Variant.**  Each move of the thread leaves it less to do. -/
theorem work_lt {e : Event} (hfits : s.Fits) (hopen : s.txOpen = false)
    (hstep : s.step role e = some s') : s'.work role < s.work role := by
  cases move_of_step hstep with
  | log _ htx _ => cases hopen.symm.trans htx
  | logLate _ htx _ => cases hopen.symm.trans htx
  | connId htx => cases hopen.symm.trans htx
  | drop htx => cases hopen.symm.trans htx
  | recv row channel hphase hchannel =>
      simp only [work, roomWork, hphase, hchannel, phaseWork, rowWork, Tally.tally_cons]
      omega
  | hangUp hphase hchannel _ =>
      simp only [work, roomWork, hphase, phaseWork]
      omega
  | piece p pieces hphase hroom =>
      have hbuf : s.buf ≠ [] → s.buf ++ p ≠ [] := fun h => List.append_ne_nil_of_left_ne_nil h p
      simp only [work, roomWork, hphase, phaseWork, List.length_append, List.flatten_cons,
        List.length_cons]
      split <;> split <;> omega
  | noRoom p pieces hphase hroom =>
      -- the piece fits into an empty buffer
      have hbuf : s.buf ≠ [] := fun hnil => by
        have hp : p.length < capacity := hfits p (by rw [hphase]; exact List.mem_cons_self)
        rw [hnil] at hroom
        exact hroom (Nat.le_of_lt hp)
      simp only [work, roomWork, hphase, phaseWork, if_neg hbuf]
      omega
  | rowDone hphase _ =>
      simp only [work, roomWork, hphase, phaseWork]
      omega
  | rowsDone hphase =>
      simp only [work, roomWork, hphase, phaseWork]
      omega
  | wrote n hphase hpos hlen =>
      have hdrop : (s.buf.drop n).length = s.buf.length - n := List.length_drop
      have hroom : ({ s with file := s.file ++ s.buf.take n, buf := s.buf.drop n }
          : LabLogger).roomWork ≤ s.roomWork := by
        have hbuf : s.buf ≠ [] := List.ne_nil_of_length_pos (Nat.lt_of_lt_of_le hpos hlen)
        simp only [roomWork, if_neg hbuf]
        split
        · exact Nat.le_refl 1
        · split <;> decide
      simp only [work, hdrop]
      omega
  | writeFails hbuf hdone =>
      obtain ⟨pieces, hphase, rfl⟩ | ⟨hphase, rfl⟩ | ⟨hphase, rfl⟩ | ⟨hphase, rfl⟩ :=
        flushDone_cases hdone
      · simp only [work, roomWork, hphase, phaseWork, if_neg hbuf, Bool.false_eq_true, if_false]
        omega
      · simp only [work, roomWork, hphase, phaseWork, if_neg hbuf]
        omega
      · simp only [work, roomWork, hphase, phaseWork, if_neg hbuf]
        omega
      · simp only [work, roomWork, hphase, phaseWork, if_neg hbuf]
        omega
  | flushed hbuf hdone =>
      obtain ⟨pieces, hphase, rfl⟩ | ⟨hphase, rfl⟩ | ⟨hphase, rfl⟩ | ⟨hphase, rfl⟩ :=
        flushDone_cases hdone
      · simp only [work, roomWork, hphase, phaseWork, if_pos hbuf, if_true]
        omega
      · simp only [work, roomWork, hphase, phaseWork, if_pos hbuf]
        omega
      · simp only [work, roomWork, hphase, phaseWork, if_pos hbuf]
        omega
      · simp only [work, roomWork, hphase, phaseWork, if_pos hbuf]
        omega

/-- A flush goes on until the buffer is empty. -/
theorem exists_flush (hphase : s.phase.flushing = true) :
    ∃ e t, e ≠ .writeFails ∧ s.step role e = some t := by
  by_cases hbuf : s.buf = []
  · have hdone : ∃ t, s.flushDone true = some t := by
      rw [flushDone]
      split
      · exact ⟨_, rfl⟩
      · exact ⟨_, rfl⟩
      · exact ⟨_, rfl⟩
      · exact ⟨_, rfl⟩
      all_goals
        next h =>
          rw [h] at hphase
          cases hphase
    obtain ⟨t, ht⟩ := hdone
    exact ⟨.flushed, t, nofun, by rw [step, if_pos hbuf, ht]⟩
  · have hpos : 0 < s.buf.length := List.length_pos_iff.mpr hbuf
    exact ⟨.wrote s.buf.length, _, nofun, by rw [step, if_pos ⟨hphase, hpos, Nat.le_refl _⟩]⟩

/-- **Nothing blocks the thread.** -/
theorem exists_step (hopen : s.txOpen = false) (hended : s.phase ≠ .ended) :
    ∃ e t, e ≠ .writeFails ∧ s.step role e = some t := by
  cases hphase : s.phase with
  | receiving =>
      have hclosed : ¬ s.txOpen = true := Bool.eq_false_iff.mp hopen
      cases hchannel : s.channel with
      | nil => exact ⟨.recv, _, nofun, by rw [step, hphase, hchannel]; exact if_neg hclosed⟩
      | cons row channel => exact ⟨.recv, _, nofun, by rw [step, hphase, hchannel]⟩
  | writing pieces =>
      cases pieces with
      | nil =>
          by_cases hsince : flushEvery ≤ s.sinceFlush + 1
          · exact ⟨.piece, _, nofun, by rw [step, hphase]; exact if_pos hsince⟩
          · exact ⟨.piece, _, nofun, by rw [step, hphase]; exact if_neg hsince⟩
      | cons p pieces =>
          by_cases hroom : p.length ≤ capacity - s.buf.length
          · exact ⟨.piece, _, nofun, by rw [step, hphase]; exact if_pos hroom⟩
          · exact ⟨.piece, _, nofun, by rw [step, hphase]; exact if_neg hroom⟩
  | makingRoom pieces => exact exists_flush (hphase ▸ rfl)
  | periodic => exact exists_flush (hphase ▸ rfl)
  | last => exact exists_flush (hphase ▸ rfl)
  | dropping => exact exists_flush (hphase ▸ rfl)
  | ended => exact absurd hphase hended

/-- **The drop of a logger joins its thread, and the log is complete.**  Once a logger is
    dropped, its thread makes at most `work` moves in any order, has a next one that is no
    failed write until it has ended, and unless a write has failed leaves a file that is the
    whole log. -/
theorem drop_completes {events es : List Event}
    (hrun : Machine.run (LabLogger.step role) create events = some s) (hopen : s.txOpen = false)
    (hthread : Machine.run (LabLogger.step role) s es = some s') :
    es.length ≤ s.work role ∧
      (s'.phase ≠ .ended → ∃ e t, e ≠ .writeFails ∧ s'.step role e = some t) ∧
      (.writeFails ∉ events ++ es → s'.phase = .ended → s'.file = labCsv role (logged events)) := by
  have hfits : s.Fits := Machine.run_invariant (fun _ _ _ h => h.step) (Fits.of_left rfl) hrun
  have hbound := Machine.length_le_of_variant
    (I := fun s => s.txOpen = false ∧ s.Fits) (μ := work role)
    (fun _ _ _ h hstep => ⟨⟨(closed_step h.1 hstep).1, h.2.step hstep⟩, work_lt h.2 h.1 hstep⟩)
    ⟨hopen, hfits⟩ hthread
  have hclosed := Machine.run_history (J := fun es s => s.txOpen = false ∧ logged es = [])
    (fun _ _ _ _ h hstep => ⟨(closed_step h.1 hstep).1, by
      rw [logged_concat, h.2, (closed_step h.1 hstep).2]
      rfl⟩) (⟨hopen, rfl⟩ : s.txOpen = false ∧ logged [] = []) hthread
  refine ⟨Nat.le_trans (Nat.le_add_right _ _) hbound, exists_step hclosed.1,
    fun hclean hended => ?_⟩
  have hwhole : Machine.run (LabLogger.step role) create (events ++ es) = some s' := by
    rw [Machine.run_append, hrun, Option.bind_some, hthread]
  obtain ⟨received, hs⟩ := (run_inv hwhole).ending (hended ▸ rfl)
  have hbuf := hs.empty hclean (by rw [hended]; nofun)
  have hfile := hs.whole hclean
  rw [hbuf, List.append_nil] at hfile
  rw [hfile, logged, List.filterMap_append]
  exact congrArg (labCsv role) ((congrArg (logged events ++ ·) hclosed.2).trans
    (List.append_nil _))

/-- A logger that is dropped with a row in the channel and one in hand writes both. -/
theorem drop_completes_two_rows : ∃ s s',
    Machine.run (LabLogger.step .server) create
        [.log .frame, .log .frame, .recv, .piece, .piece, .drop] = some s ∧
      s.channel = [.frame] ∧ s.phase = .writing ((LogRow.frame.pieces .server).drop 2) ∧
      Machine.run (LabLogger.step .server) s (List.replicate 13 .piece ++ rowMoves
        ++ [.recv, .wrote 100, .wrote 31, .flushed, .flushed]) = some s' ∧
      s'.file = labCsv .server [.frame, .frame] := by
  have hrun : (Machine.run (LabLogger.step .server) create
        [.log .frame, .log .frame, .recv, .piece, .piece, .drop]).map
      (fun s => (s.channel, s.phase, s.txOpen, (Machine.run (LabLogger.step .server) s
        (List.replicate 13 .piece ++ rowMoves
          ++ [.recv, .wrote 100, .wrote 31, .flushed, .flushed])).map LabLogger.phase))
      = some ([.frame], .writing ((LogRow.frame.pieces .server).drop 2), false, some .ended) := by
    decide +kernel
  obtain ⟨s, hs, hstate⟩ := Option.map_eq_some_iff.mp hrun
  simp only [Prod.mk.injEq] at hstate
  obtain ⟨hchannel, hphase, hclosed, hthread⟩ := hstate
  obtain ⟨s', hs', hended⟩ := Option.map_eq_some_iff.mp hthread
  exact ⟨s, s', hs, hchannel, hphase, hs',
    (drop_completes hs hclosed hs').2.2 (by decide) hended⟩

-- ============================================================================
-- Connection ids
-- ============================================================================

theorem connIds_concat (events : List Event) (e : Event) :
    connIds (events ++ [e]) = connIds events ++ connIds [e] := List.filterMap_append

/-- Only `next_conn_id` moves the counter. -/
theorem connIds_step {e : Event} (hstep : s.step role e = some s') :
    (connIds [e] = [] ∧ s'.nextConnId = s.nextConnId) ∨
      (connIds [e] = [s.nextConnId] ∧ s'.nextConnId = (s.nextConnId + 1) % 2 ^ 64) := by
  cases move_of_step hstep with
  | log _ _ _ => exact .inl ⟨rfl, rfl⟩
  | logLate _ _ _ => exact .inl ⟨rfl, rfl⟩
  | connId _ => exact .inr ⟨rfl, rfl⟩
  | drop _ => exact .inl ⟨rfl, rfl⟩
  | recv _ _ _ _ => exact .inl ⟨rfl, rfl⟩
  | hangUp _ _ _ => exact .inl ⟨rfl, rfl⟩
  | piece _ _ _ _ => exact .inl ⟨rfl, rfl⟩
  | noRoom _ _ _ _ => exact .inl ⟨rfl, rfl⟩
  | rowDone _ _ => exact .inl ⟨rfl, rfl⟩
  | rowsDone _ => exact .inl ⟨rfl, rfl⟩
  | wrote _ _ _ _ => exact .inl ⟨rfl, rfl⟩
  | writeFails _ hdone =>
      obtain ⟨_, _, rfl⟩ | ⟨_, rfl⟩ | ⟨_, rfl⟩ | ⟨_, rfl⟩ := flushDone_cases hdone <;>
        exact .inl ⟨rfl, rfl⟩
  | flushed _ hdone =>
      obtain ⟨_, _, rfl⟩ | ⟨_, rfl⟩ | ⟨_, rfl⟩ | ⟨_, rfl⟩ := flushDone_cases hdone <;>
        exact .inl ⟨rfl, rfl⟩

/-- **Connection ids.**  They count from one, and wrap. -/
theorem connIds_eq {events : List Event}
    (hrun : Machine.run (LabLogger.step role) create events = some s) :
    connIds events
      = (List.range (connIds events).length).map fun k => (k + 1) % 2 ^ 64 := by
  refine (Machine.run_history (J := fun events s =>
    s.nextConnId = ((connIds events).length + 1) % 2 ^ 64 ∧ connIds events
      = (List.range (connIds events).length).map fun k => (k + 1) % 2 ^ 64)
    (fun events s e t h hstep => ?_)
    (⟨rfl, rfl⟩ : create.nextConnId = ((connIds []).length + 1) % 2 ^ 64 ∧ connIds []
      = (List.range (connIds []).length).map fun k => (k + 1) % 2 ^ 64) hrun).2
  obtain ⟨hnext, hids⟩ := h
  rw [connIds_concat]
  obtain ⟨hnone, hsame⟩ | ⟨hone, hsucc⟩ := connIds_step hstep
  · rw [hnone, List.append_nil, hsame]
    exact ⟨hnext, hids⟩
  · rw [hone, List.length_append, List.length_singleton, List.range_succ, List.map_append, ← hids,
      hsucc, hnext, Nat.mod_add_mod]
    exact ⟨rfl, rfl⟩

/-- No two connections of the first `2 ^ 64` share an id. -/
theorem connIds_nodup {events : List Event}
    (hrun : Machine.run (LabLogger.step role) create events = some s)
    (hfew : (connIds events).length ≤ 2 ^ 64) : (connIds events).Nodup := by
  rw [connIds_eq hrun]
  refine List.Nodup.map_on (fun i hi j hj hij => ?_) List.nodup_range
  rw [List.mem_range] at hi hj
  omega

end LabLogger

end MixTor
