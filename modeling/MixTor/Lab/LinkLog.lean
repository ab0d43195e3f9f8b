/-
  MixTor.Lab.LinkLog

  The lab logs of the two ends of shaped links (transport.rs): `service_flow` logs every
  frame it emits, `strip_and_forward` every frame it opens, the other tasks log their own
  rows, and the logger of each process writes what it gets.

  Tasks, sockets and writer threads move in any order, and both files are cut wherever
  they happen to end.  Still the wire rows of a link at both ends are first parts of one
  sequence, the frames that were emitted, and no size in them tells a real frame from
  a dummy.
-/

import MixTor.Lab.Adversary
import MixTor.Lab.LabLogger
import MixTor.Lib.Keyed
import MixTor.Transport.DirectionClose

namespace MixTor

open Crypto (Bytes Aead Blake3 FrameCipher kindReal kindDummy)
open Text (Str)

-- ============================================================================
-- What is logged
-- ============================================================================

/-- The way a link runs. -/
inductive Leg where
  | uplink
  | downlink
  deriving DecidableEq

namespace Leg

def outRole : Leg → LabRole
  | uplink => .client
  | downlink => .server

def inRole : Leg → LabRole
  | uplink => .server
  | downlink => .client

/-- `wire_event` of `UPLINK_LABELS` and `DOWNLINK_LABELS`. -/
def outEvent : Leg → LabEvent
  | uplink => .clientWireOutput
  | downlink => .serverWireReturn

/-- `wire_event` of `UPLINK_STRIP` and `DOWNLINK_STRIP`. -/
def inEvent : Leg → LabEvent
  | uplink => .serverWireInput
  | downlink => .clientWireReturn

/-- What the analysis reads at the sending end. -/
def outNames : Leg → EventNames
  | uplink => .client
  | downlink => .serverReturn

/-- What the analysis reads at the receiving end. -/
def inNames : Leg → EventNames
  | uplink => .server
  | downlink => .clientReturn

theorem outNames_wire (leg : Leg) : leg.outNames.wire = leg.outEvent.name := by cases leg <;> rfl

theorem inNames_wire (leg : Leg) : leg.inNames.wire = leg.inEvent.name := by cases leg <;> rfl

end Leg

/-- What a row says of a frame. -/
structure FrameLine where
  seq : Fin (2 ^ 64)
  bytes : Fin (2 ^ 64)
  kind : LabKind
  deriving DecidableEq, Repr

/-- `as u64`. -/
def asU64 (n : Nat) : Fin (2 ^ 64) := ⟨n % 2 ^ 64, Nat.mod_lt n (Nat.two_pow_pos 64)⟩

/-- The arguments of `log_event` for a frame. -/
def frameLine (seq bytes : Nat) (kind : LabKind) : FrameLine := ⟨asU64 seq, asU64 bytes, kind⟩

def FrameLine.row (line : FrameLine) (event : LabEvent) (connId : Fin (2 ^ 64))
    (unixNanos : Fin (2 ^ 128)) : LogRow :=
  ⟨unixNanos, event, connId, line.seq, line.bytes, line.kind⟩

def LogRow.line (r : LogRow) : FrameLine := ⟨r.seq, r.bytes, r.kind⟩

/-- The kind label of `encode_frame`. -/
def MixedFrame.label : MixedFrame → LabKind
  | .real _ => .real
  | .dummy _ => .dummy

/-- The kind label of `strip_and_forward`. -/
def kindLabel (kind : UInt8) : LabKind := if kind = kindReal then .real else .dummy

/-- The lines of the frames emitted from `wire_seq` on. -/
def emittedLines (wireSeq : Nat) (es : List Emission) : List FrameLine :=
  (es.zipIdx wireSeq).map fun p => frameLine p.2 p.1.frame.len p.1.frame.label

/-- What one read brings to the receive loop: a frame that was opened, if any. -/
def Receiver.opened (A : Aead) (r : Receiver) (chunk : Bytes) : Option (UInt8 × Bytes) :=
  if (r.buf ++ chunk).length < frameLen then none
  else (r.cipher.openFrame A (r.buf ++ chunk)).1.toOption

-- ============================================================================
-- Links that log
-- ============================================================================

/-- A link, with what its two ends have still to log. -/
structure LoggedLink (ρ : Type) where
  link : Link ρ
  /-- The connection id at the sending end. -/
  outId : Fin (2 ^ 64)
  /-- The connection id at the receiving end. -/
  inId : Fin (2 ^ 64)
  outDue : List FrameLine
  /-- `wire_seq` of the receive loop. -/
  wireSeq : Nat
  inDue : List FrameLine

/-- An end moves on once it has logged. -/
def LoggedLink.step {ρ : Type} [RngCore ρ] (F : F64) (A : Aead) (l : LoggedLink ρ) :
    LinkEvent → Option (LoggedLink ρ)
  | .service call =>
      if l.outDue = [] then
        (l.link.step F A (.service call)).map fun link =>
          { l with
            link
            outDue := emittedLines l.link.flow.wireSeq
              (link.flow.emitted.drop l.link.flow.emitted.length) }
      else none
  | .read n =>
      if l.inDue = [] then
        (l.link.step F A (.read n)).map fun link =>
          match l.link.receiver.opened A ((l.link.flow.wire.drop l.link.got.length).take n) with
          | none => { l with link }
          | some (kind, cell) =>
              { l with
                link
                wireSeq := l.wireSeq + 1
                inDue := [frameLine l.wireSeq cell.length (kindLabel kind)] }
      else none
  | .eof =>
      if l.inDue = [] then (l.link.step F A .eof).map fun link => { l with link } else none

/-- The links between two processes and the loggers of both. -/
structure LinkLab (ρ : Type) where
  links : List (LoggedLink ρ)
  outLogger : LabLogger
  inLogger : LabLogger

namespace LinkLab

variable {ρ : Type} [RngCore ρ]

inductive Event where
  /-- An end of the `i`-th link moves. -/
  | link (i : Nat) (e : LinkEvent)
  /-- The sending end of the `i`-th link logs a frame, at a time of its clock. -/
  | outLogs (i : Nat) (unixNanos : Fin (2 ^ 128))
  | inLogs (i : Nat) (unixNanos : Fin (2 ^ 128))
  /-- Another task logs, or the writer thread moves, at the sending end. -/
  | outLogger (e : LabLogger.Event)
  | inLogger (e : LabLogger.Event)

/-- The other tasks log other events. -/
def OtherThan (event : LabEvent) : LabLogger.Event → Prop
  | .log row => row.event ≠ event
  | _ => True

instance (event : LabEvent) : DecidablePred (OtherThan event)
  | .log row => inferInstanceAs (Decidable (row.event ≠ event))
  | .connId _ | .drop | .recv | .piece | .wrote _ | .writeFails | .flushed =>
      inferInstanceAs (Decidable True)

def start (links : List (LoggedLink ρ)) : LinkLab ρ := ⟨links, .create, .create⟩

def step (F : F64) (A : Aead) (leg : Leg) (s : LinkLab ρ) : Event → Option (LinkLab ρ)
  | .link i e => do
      let l ← s.links[i]?
      let l' ← l.step F A e
      return { s with links := s.links.modify i fun _ => l' }
  | .outLogs i unixNanos => do
      let l ← s.links[i]?
      match l.outDue with
      | [] => none
      | line :: due =>
          let outLogger ← s.outLogger.step leg.outRole
            (.log (line.row leg.outEvent l.outId unixNanos))
          return { s with outLogger, links := s.links.modify i ({ · with outDue := due }) }
  | .inLogs i unixNanos => do
      let l ← s.links[i]?
      match l.inDue with
      | [] => none
      | line :: due =>
          let inLogger ← s.inLogger.step leg.inRole
            (.log (line.row leg.inEvent l.inId unixNanos))
          return { s with inLogger, links := s.links.modify i ({ · with inDue := due }) }
  | .outLogger e =>
      if OtherThan leg.outEvent e then
        (s.outLogger.step leg.outRole e).map fun outLogger => { s with outLogger }
      else none
  | .inLogger e =>
      if OtherThan leg.inEvent e then
        (s.inLogger.step leg.inRole e).map fun inLogger => { s with inLogger }
      else none

end LinkLab

-- ============================================================================
-- One link
-- ============================================================================

theorem emittedLines_append (n : Nat) (es fs : List Emission) :
    emittedLines n (es ++ fs) = emittedLines n es ++ emittedLines (n + es.length) fs := by
  rw [emittedLines, List.zipIdx_append, List.map_append]
  rfl

theorem getElem?_emittedLines {es : List Emission} {w : Nat} {e : Emission}
    (h : es[w]? = some e) :
    (emittedLines 0 es)[w]? = some (frameLine w e.frame.len e.frame.label) := by
  rw [emittedLines, List.getElem?_map, List.getElem?_zipIdx, h, Nat.zero_add]
  rfl

/-- Lines of whole cells. -/
theorem bytes_of_mem_emittedLines {es : List Emission} {n : Nat} {line : FrameLine}
    (hsize : ∀ e ∈ es, (frameCell e.frame).2.length = cellBytes)
    (h : line ∈ emittedLines n es) : line.bytes = asU64 cellBytes := by
  obtain ⟨p, hp, rfl⟩ := List.mem_map.mp h
  have hlen := hsize p.1 (List.fst_mem_of_mem_zipIdx hp)
  have hframe : p.1.frame.len = (frameCell p.1.frame).2.length := by
    cases p.1.frame <;> rfl
  rw [frameLine, hframe, hlen]

theorem kindLabel_frameCell (f : MixedFrame) : kindLabel (frameCell f).1 = f.label := by
  cases f <;> rfl

theorem length_frameCell (f : MixedFrame) : (frameCell f).2.length = f.len := by
  cases f <;> rfl

/-- A first part goes on with the next entry. -/
theorem concat_prefix_of_getElem? {α : Type} {xs ys : List α} {y : α} (h : xs <+: ys)
    (hy : ys[xs.length]? = some y) : xs ++ [y] <+: ys := by
  obtain ⟨rest, rfl⟩ := h
  rw [List.getElem?_append_right (Nat.le_refl _), Nat.sub_self] at hy
  cases rest with
  | nil => cases hy
  | cons z rest =>
      obtain rfl := Option.some.inj hy
      exact ⟨rest, List.append_cons .. |>.symm⟩

section Link

variable {ρ : Type} {A : Aead} {cipher₀ : FrameCipher} {l : Link ρ}

/-- **The next frame.**  A read either leaves the buffer short or opens the frame behind
    those that were opened. -/
theorem Link.Inv.opened_cases (hA : A.Lawful) (h : l.Inv A cipher₀) {w : Nat}
    (hw : w * frameLen + l.receiver.buf.length = l.got.length) {chunk : Bytes}
    (hgot : l.got ++ chunk <+: l.flow.wire)
    (hroom : (l.receiver.buf ++ chunk).length ≤ frameLen) :
    (l.receiver.opened A chunk = none ∧ (l.receiver.buf ++ chunk).length < frameLen) ∨
      ∃ e, l.receiver.opened A chunk = some (frameCell e.frame) ∧
        l.flow.emitted[w]? = some e ∧ (l.receiver.buf ++ chunk).length = frameLen := by
  by_cases hpart : (l.receiver.buf ++ chunk).length < frameLen
  · exact .inl ⟨if_pos hpart, hpart⟩
  · have hlen : (l.receiver.buf ++ chunk).length = frameLen := by omega
    obtain ⟨hacc, -, done, rest, hem, hcipher, hread, -⟩ := h
    have hsizes : ∀ e ∈ done ++ rest, (frameCell e.frame).2.length = cellBytes := hem ▸ hacc.sizes
    have hbuf := Link.buf_prefix hacc hem hcipher hread hgot
    obtain ⟨e, rest', rfl, -, hopen⟩ := Link.open_next hA
      (fun e he => hsizes e (List.mem_append_right _ he)) hbuf hlen
    have hdone : done.length = w := by
      have hcells : ∀ c ∈ sealedCells done, c.2.length = cellBytes := fun c hc => by
        obtain ⟨e', he', rfl⟩ := List.mem_map.mp hc
        exact hsizes e' (List.mem_append_left _ he')
      have hflat := sealAll_length hA cipher₀ hcells
      have hgotLen := congrArg List.length hread
      rw [List.length_append, hflat, sealedCells, List.length_map] at hgotLen
      have hpos : 0 < frameLen := by decide
      exact Nat.eq_of_mul_eq_mul_right hpos (by omega)
    refine .inr ⟨e, ?_, ?_, hlen⟩
    · rw [Receiver.opened, if_neg hpart, hopen]
      rfl
    · rw [hem, ← hdone]
      rw [List.getElem?_append_right (Nat.le_refl _), Nat.sub_self]
      rfl

end Link

/-- A full buffer is empty again once its frame is opened. -/
theorem Receiver.read_buf_of_full (A : Aead) {r : Receiver} {chunk : Bytes}
    (hfull : (r.buf ++ chunk).length = frameLen) : (r.read A chunk).buf = [] := by
  rw [read, if_neg hfull.not_lt]
  split <;> rfl

namespace FlowSlot

variable {ρ : Type} [RngCore ρ] {F : F64} {A : Aead} {cipher₀ : FrameCipher} {flow : FlowSlot ρ}

/-- `wire_seq` counts the frames. -/
theorem serviceFlow_wireSeq (call : ServiceCall) (h : flow.Accounted A cipher₀)
    (hseq : flow.wireSeq = flow.emitted.length) :
    (flow.serviceFlow F A call).2.wireSeq = (flow.serviceFlow F A call).2.emitted.length := by
  refine (serviceFlow_invariant
    (P := fun f => f.Accounted A cipher₀ ∧ f.wireSeq = f.emitted.length) call
    (fun _ h => h.1.steady) ?_ ?_ ?_ ?_ ?_ ⟨h, hseq⟩).2
  · intro f i ⟨hf, hn⟩
    refine ⟨arrive_accounted _ hf, ?_⟩
    rw [arrive]
    split <;> exact hn
  · intro f ⟨hf, hn⟩
    refine ⟨startClock_accounted _ hf, ?_⟩
    rw [startClock]
    split <;> exact hn
  · intro f n f' clk' ⟨hf, hn⟩ hp
    refine ⟨pulled_accounted hf hp, ?_⟩
    cases hp <;> exact hn
  · intro f n f' clk' ⟨hf, hn⟩ hfire
    refine ⟨fired_accounted hf hfire, ?_⟩
    cases hfire with
    | waits _ => exact hn
    | emits =>
        rw [List.length_append, ← hn]
        rfl
  · intro f ⟨hf, hn⟩
    refine ⟨flush_accounted _ hf, ?_⟩
    obtain ⟨pending, wire, hflush⟩ := flush_eq call.tryWrite f
    rw [hflush]
    exact hn

end FlowSlot

namespace LoggedLink

variable {ρ : Type} {A : Aead} {cipher₀ : FrameCipher} {l l' : LoggedLink ρ}
  {outLines inLines : List FrameLine}

/-- Both ends have logged, or have still to log, a first part of the frames emitted. -/
structure Inv (A : Aead) (l : LoggedLink ρ) (outLines inLines : List FrameLine) : Prop where
  link : ∃ cipher₀, l.link.Inv A cipher₀
  counted : l.link.flow.wireSeq = l.link.flow.emitted.length
  read : l.wireSeq * frameLen + l.link.receiver.buf.length = l.link.got.length
  outward : outLines ++ l.outDue = emittedLines 0 l.link.flow.emitted
  inward : inLines ++ l.inDue <+: emittedLines 0 l.link.flow.emitted
  opened : (inLines ++ l.inDue).length = l.wireSeq

variable [RngCore ρ] {F : F64}

/-- The emitter services the flow. -/
theorem Inv.service (hA : A.Lawful) {call : ServiceCall} (h : l.Inv A outLines inLines)
    (hstep : l.step F A (.service call) = some l') : l'.Inv A outLines inLines := by
  obtain ⟨⟨cipher₀, hlink⟩, hcounted, hread, houtward, hinward, hopened⟩ := h
  rw [step] at hstep
  split at hstep
  · next hdue =>
    obtain ⟨link, hmove, rfl⟩ := Option.map_eq_some_iff.mp hstep
    have hlink' := Link.step_inv hA hlink hmove
    rw [Link.step] at hmove
    split at hmove
    · obtain rfl := Option.some.inj hmove
      have hcounted' := FlowSlot.serviceFlow_wireSeq (F := F) call hlink.accounted hcounted
      obtain ⟨-, more, hmore⟩ := FlowSlot.serviceFlow_grows (F := F) call hlink.accounted
      refine ⟨⟨cipher₀, hlink'⟩, hcounted', hread, ?_, ?_, hopened⟩
      · rw [hdue, List.append_nil] at houtward
        show outLines ++ emittedLines _ (List.drop _ _) = emittedLines 0 _
        rw [← hmore, List.drop_left, emittedLines_append, houtward, hcounted, Nat.zero_add]
      · refine hinward.trans ?_
        show emittedLines 0 _ <+: emittedLines 0 _
        rw [← hmore, emittedLines_append]
        exact List.prefix_append _ _
    · cases hmove
  · cases hstep

/-- The receiver reads. -/
theorem Inv.receive (hA : A.Lawful) {n : Nat} (h : l.Inv A outLines inLines)
    (hstep : l.step F A (.read n) = some l') : l'.Inv A outLines inLines := by
  obtain ⟨⟨cipher₀, hlink⟩, hcounted, hread, houtward, hinward, hopened⟩ := h
  rw [step] at hstep
  split at hstep
  · next hdue =>
    obtain ⟨link, hmove, hl'⟩ := Option.map_eq_some_iff.mp hstep
    have hlink' := Link.step_inv hA hlink hmove
    rw [Link.step] at hmove
    split at hmove
    · next hguard =>
      obtain ⟨-, -, hchunk, hroom⟩ := hguard
      obtain rfl := Option.some.inj hmove
      have hgot : l.link.got ++ (l.link.flow.wire.drop l.link.got.length).take n
          <+: l.link.flow.wire := by
        obtain ⟨suffix, hsuffix⟩ := hlink.got_prefix
        rw [← hsuffix, List.drop_left]
        exact (List.prefix_append_right_inj _).mpr (List.take_prefix _ _)
      have hfits : (l.link.receiver.buf ++
          (l.link.flow.wire.drop l.link.got.length).take n).length ≤ frameLen := by
        rw [List.length_append, hchunk]
        exact hroom
      obtain ⟨hnone, hpart⟩ | ⟨e, hopen, he, hfull⟩ := hlink.opened_cases hA hread hgot hfits
      · rw [hnone] at hl'
        subst hl'
        refine ⟨⟨cipher₀, hlink'⟩, hcounted, ?_, houtward, hinward, hopened⟩
        show l.wireSeq * frameLen + (l.link.receiver.read A _).buf.length = _
        rw [Receiver.read, if_pos hpart, List.length_append, List.length_append]
        omega
      · rw [hopen] at hl'
        subst hl'
        rw [hdue, List.append_nil] at hinward hopened
        refine ⟨⟨cipher₀, hlink'⟩, hcounted, ?_, houtward, ?_, ?_⟩
        · show (l.wireSeq + 1) * frameLen + (l.link.receiver.read A _).buf.length = _
          rw [Receiver.read_buf_of_full A hfull, List.length_append, Nat.succ_mul, List.length_nil]
          rw [List.length_append] at hfull
          omega
        · refine concat_prefix_of_getElem? hinward ?_
          rw [hopened, getElem?_emittedLines he, kindLabel_frameCell, length_frameCell]
        · rw [List.length_append, hopened]
          rfl
    · cases hmove
  · cases hstep

/-- **Step lemma** of a link. -/
theorem Inv.step (hA : A.Lawful) {e : LinkEvent} (h : l.Inv A outLines inLines)
    (hstep : l.step F A e = some l') : l'.Inv A outLines inLines := by
  cases e with
  | service call => exact h.service hA hstep
  | read n => exact h.receive hA hstep
  | eof =>
      obtain ⟨⟨cipher₀, hlink⟩, hcounted, hread, houtward, hinward, hopened⟩ := h
      rw [LoggedLink.step] at hstep
      split at hstep
      · obtain ⟨link, hmove, rfl⟩ := Option.map_eq_some_iff.mp hstep
        have hlink' := Link.step_inv hA hlink hmove
        rw [Link.step] at hmove
        split at hmove
        · obtain rfl := Option.some.inj hmove
          exact ⟨⟨cipher₀, hlink'⟩, hcounted, hread, houtward, hinward, hopened⟩
        · cases hmove
      · cases hstep

/-- The ids of a link are its own. -/
theorem step_ids {e : LinkEvent} (hstep : l.step F A e = some l') :
    l'.outId = l.outId ∧ l'.inId = l.inId := by
  cases e with
  | service call =>
      rw [step] at hstep
      split at hstep
      · obtain ⟨link, -, rfl⟩ := Option.map_eq_some_iff.mp hstep
        exact ⟨rfl, rfl⟩
      · cases hstep
  | read n =>
      rw [step] at hstep
      split at hstep
      · obtain ⟨link, -, rfl⟩ := Option.map_eq_some_iff.mp hstep
        split <;> exact ⟨rfl, rfl⟩
      · cases hstep
  | eof =>
      rw [step] at hstep
      split at hstep
      · obtain ⟨link, -, rfl⟩ := Option.map_eq_some_iff.mp hstep
        exact ⟨rfl, rfl⟩
      · cases hstep

omit [RngCore ρ] in
/-- The sending end logs its next frame. -/
theorem Inv.outLogs {line : FrameLine} {due : List FrameLine} (h : l.Inv A outLines inLines)
    (hdue : l.outDue = line :: due) :
    ({ l with outDue := due } : LoggedLink ρ).Inv A (outLines ++ [line]) inLines := by
  obtain ⟨hlink, hcounted, hread, houtward, hinward, hopened⟩ := h
  rw [hdue] at houtward
  exact ⟨hlink, hcounted, hread, (List.append_assoc ..).trans houtward, hinward, hopened⟩

omit [RngCore ρ] in
/-- The receiving end logs the frame it has opened. -/
theorem Inv.inLogs {line : FrameLine} {due : List FrameLine} (h : l.Inv A outLines inLines)
    (hdue : l.inDue = line :: due) :
    ({ l with inDue := due } : LoggedLink ρ).Inv A outLines (inLines ++ [line]) := by
  obtain ⟨hlink, hcounted, hread, houtward, hinward, hopened⟩ := h
  have hsame : inLines ++ [line] ++ due = inLines ++ l.inDue := by
    rw [hdue, List.append_assoc]
    rfl
  exact ⟨hlink, hcounted, hread, houtward, hsame ▸ hinward, hsame ▸ hopened⟩

omit [RngCore ρ] in
/-- Lines that are due are of whole cells. -/
theorem Inv.bytes_of_mem_outDue (h : l.Inv A outLines inLines) {line : FrameLine}
    (hline : line ∈ l.outDue) : line.bytes = asU64 cellBytes := by
  obtain ⟨cipher₀, hlink⟩ := h.link
  have hmem := List.mem_append_right outLines hline
  rw [h.outward] at hmem
  exact bytes_of_mem_emittedLines hlink.accounted.sizes hmem

omit [RngCore ρ] in
theorem Inv.bytes_of_mem_inDue (h : l.Inv A outLines inLines) {line : FrameLine}
    (hline : line ∈ l.inDue) : line.bytes = asU64 cellBytes := by
  obtain ⟨cipher₀, hlink⟩ := h.link
  exact bytes_of_mem_emittedLines hlink.accounted.sizes
    (h.inward.mem (List.mem_append_right _ hline))

/-- A flow just registered, and a receiver at its key. -/
def Fresh (F : F64) (H : Blake3) (l : LoggedLink ρ) : Prop :=
  ∃ new flow, Direction.Registered F H new flow ∧
    l = ⟨⟨flow, true, .new new.cipher, []⟩, l.outId, l.inId, [], 0, []⟩

/-- A flow just registered has emitted nothing. -/
theorem registered_unsent {H : Blake3} {new : NewFlow ρ} {flow : FlowSlot ρ}
    (h : Direction.Registered F H new flow) : flow.wireSeq = 0 ∧ flow.emitted = [] := by
  rcases h with h | h
  · obtain ⟨session, clock, -, rfl⟩ := FlowSlot.shapedForward_eq_some h
    exact ⟨rfl, rfl⟩
  · rw [registerShapedFlow] at h
    split at h
    · obtain rfl := Option.some.inj h
      exact ⟨rfl, rfl⟩
    · cases h

/-- Nothing is due at first. -/
theorem Fresh.inv {H : Blake3} (h : l.Fresh F H) : l.Inv A [] [] := by
  obtain ⟨new, flow, hflow, hl⟩ := h
  obtain ⟨hacc, -, hcipher, hwire, -⟩ := hflow.spec (A := A)
  obtain ⟨hseq, hemitted⟩ := registered_unsent hflow
  have hlink : (⟨flow, true, .new new.cipher, []⟩ : Link ρ).Inv A new.cipher := by
    rw [← hcipher] at hacc ⊢
    exact Link.start_inv hacc hwire
  rw [hl]
  refine ⟨⟨new.cipher, hlink⟩, ?_, ?_, ?_, List.nil_prefix, rfl⟩
  · rw [hseq, hemitted]
    rfl
  · show 0 * frameLen + ([] : Bytes).length = 0
    rw [Nat.zero_mul, List.length_nil]
  · rw [hemitted]
    rfl

end LoggedLink

-- ============================================================================
-- The rows of a link
-- ============================================================================

/-- What the rows of an event say for one connection. -/
def linesOf (event : LabEvent) (id : Fin (2 ^ 64)) (rows : List LogRow) : List FrameLine :=
  (rows.filter fun r => r.event = event ∧ r.connId = id).map LogRow.line

section Rows

variable {event : LabEvent} {id : Fin (2 ^ 64)} {rows : List LogRow}

theorem linesOf_append (rows' : List LogRow) :
    linesOf event id (rows ++ rows') = linesOf event id rows ++ linesOf event id rows' := by
  rw [linesOf, List.filter_append, List.map_append]
  rfl

theorem linesOf_row (line : FrameLine) (unixNanos : Fin (2 ^ 128)) :
    linesOf event id [line.row event id unixNanos] = [line] := by
  rw [linesOf, List.filter_cons, if_pos (decide_eq_true ⟨rfl, rfl⟩)]
  rfl

theorem linesOf_row_of_ne (line : FrameLine) {id' : Fin (2 ^ 64)} (hne : id' ≠ id)
    (unixNanos : Fin (2 ^ 128)) : linesOf event id [line.row event id' unixNanos] = [] := by
  rw [linesOf, List.filter_cons, if_neg fun h => hne (of_decide_eq_true h).2]
  rfl

/-- The rows of other events do not count. -/
theorem linesOf_otherThan {e : LabLogger.Event} (h : LinkLab.OtherThan event e) :
    linesOf event id (LabLogger.logged [e]) = [] := by
  cases e with
  | log row =>
      rw [show LabLogger.logged [.log row] = [row] from rfl, linesOf, List.filter_cons,
        if_neg fun hrow => h (of_decide_eq_true hrow).1]
      rfl
  | connId _ | drop | recv | piece | wrote _ | writeFails | flushed => rfl

/-- All rows of the event are of whole cells. -/
def WholeCells (event : LabEvent) (rows : List LogRow) : Prop :=
  ∀ r ∈ rows, r.event = event → r.bytes = asU64 cellBytes

theorem WholeCells.row (h : WholeCells event rows) {line : FrameLine}
    (hbytes : line.bytes = asU64 cellBytes) (unixNanos : Fin (2 ^ 128)) :
    WholeCells event (rows ++ [line.row event id unixNanos]) := by
  intro r hr hevent
  rcases List.mem_append.mp hr with hold | hnew
  · exact h r hold hevent
  · obtain rfl := List.mem_singleton.mp hnew
    exact hbytes

theorem WholeCells.otherThan (h : WholeCells event rows) {e : LabLogger.Event}
    (he : LinkLab.OtherThan event e) : WholeCells event (rows ++ LabLogger.logged [e]) := by
  intro r hr hevent
  rcases List.mem_append.mp hr with hold | hnew
  · exact h r hold hevent
  · cases e with
    | log row =>
        obtain rfl := List.mem_singleton.mp hnew
        exact absurd hevent he
    | connId _ | drop | recv | piece | wrote _ | writeFails | flushed => cases hnew

end Rows

-- ============================================================================
-- What a cut file says
-- ============================================================================

theorem LabEvent.name_injective : Function.Injective LabEvent.name := by
  intro a b h
  cases a <;> cases b <;> first | rfl | exact absurd h (by decide)

/-- A record of a row, perhaps with a part of its kind. -/
def CutRecord (role : LabRole) (record : LogRecord) (row : LogRow) : Prop :=
  ∃ kind, kind <+: row.kind.name ∧ record = { row.record role with kind }

/-- The records of a file, wherever it is cut, are those of the first rows. -/
theorem exists_cutRecords {role : LabRole} {rows : List LogRow} {file : Str}
    (hcut : file <+: labCsv role rows) :
    ∃ done, done <+: rows ∧ List.Forall₂ (CutRecord role) (parseReader file) done := by
  have hwhole : ∀ done : List LogRow,
      List.Forall₂ (CutRecord role) (done.map (LogRow.record role)) done := fun done =>
    List.forall₂_map_left_iff.mpr
      (List.forall₂_same.mpr fun row _ => ⟨row.kind.name, List.prefix_rfl, rfl⟩)
  obtain hheader | rfl | ⟨done, row, rest, part, rfl, hpart, rfl⟩ := cut_cases hcut
  · refine ⟨[], List.nil_prefix, ?_⟩
    rw [parseReader_header hheader]
    exact .nil
  · refine ⟨rows, List.prefix_rfl, ?_⟩
    rw [parseReader_labCsv]
    exact hwhole rows
  · rw [parseReader_labCsv_append role done (not_mem_of_prefix_text hpart)]
    obtain hnone | ⟨kind, hkind, rfl⟩ := part_cases hpart
    · refine ⟨done, List.prefix_append _ _, ?_⟩
      rw [parseRow_eq_none hnone, Option.toList_none, List.append_nil]
      exact hwhole done
    · have hplain : Plain kind := fun c hc => row.kind.plain_name c (hkind.subset hc)
      refine ⟨done ++ [row], ⟨rest, List.append_cons .. |>.symm⟩, ?_⟩
      rw [parseRow_head row hplain]
      exact List.rel_append (hwhole done) (.cons ⟨kind, hkind, rfl⟩ .nil)

/-- The wire records of a connection. -/
def wireRecords (names : EventNames) (id : Fin (2 ^ 64)) (file : Str) : List LogRecord :=
  (parseReader file).filter fun r => r.event = names.wire ∧ r.connId = id

/-- A record says what was logged of a frame, perhaps with a part of the kind. -/
def Says (record : LogRecord) (line : FrameLine) : Prop :=
  record.seq = line.seq ∧ record.bytes = line.bytes ∧ record.kind <+: line.kind.name

/-- The wire records of a cut file say what the first rows of the connection say. -/
theorem exists_says {role : LabRole} {rows : List LogRow} {file : Str} {names : EventNames}
    {event : LabEvent} (hnames : names.wire = event.name) (hcut : file <+: labCsv role rows)
    (id : Fin (2 ^ 64)) :
    ∃ lines, lines <+: linesOf event id rows ∧
      List.Forall₂ Says (wireRecords names id file) lines := by
  obtain ⟨done, hdone, hrecords⟩ := exists_cutRecords hcut
  refine ⟨linesOf event id done, (hdone.filter _).map _, ?_⟩
  have hsame : ∀ {record : LogRecord} {row : LogRow}, CutRecord role record row →
      (decide (record.event = names.wire ∧ record.connId = id) = true ↔
        decide (row.event = event ∧ row.connId = id) = true) := by
    rintro record row ⟨kind, -, rfl⟩
    rw [decide_eq_true_eq, decide_eq_true_eq, hnames]
    show row.event.name = event.name ∧ (row.connId : ℕ) = id ↔ _
    rw [LabEvent.name_injective.eq_iff, Fin.val_inj]
  have hfiltered := List.rel_filter (fun _ _ h => hsame h) hrecords
  rw [linesOf, List.forall₂_map_right_iff]
  refine hfiltered.imp fun record row h => ?_
  obtain ⟨kind, hkind, rfl⟩ := h
  exact ⟨rfl, rfl, hkind⟩

/-- No cut makes a wire record of another size. -/
theorem bytes_of_mem_parseReader {role : LabRole} {rows : List LogRow} {file : Str}
    {names : EventNames} {event : LabEvent} (hnames : names.wire = event.name)
    (hcut : file <+: labCsv role rows) (hcells : WholeCells event rows) :
    ∀ r ∈ parseReader file, r.event = names.wire → r.bytes = cellBytes := by
  intro r hr hwire
  obtain ⟨done, hdone, hrecords⟩ := exists_cutRecords hcut
  obtain ⟨i, hi, rfl⟩ := List.getElem_of_mem hr
  have hi' : i < done.length := hrecords.length_eq ▸ hi
  obtain ⟨kind, -, hrecord⟩ := hrecords.get hi hi'
  rw [List.get_eq_getElem, List.get_eq_getElem] at hrecord
  rw [hrecord, hnames] at hwire
  have hbytes := hcells done[i] (hdone.mem (List.getElem_mem hi'))
    (LabEvent.name_injective hwire)
  rw [hrecord]
  exact congrArg Fin.val hbytes

-- ============================================================================
-- The invariant
-- ============================================================================

namespace LinkLab

variable {ρ : Type} {F : F64} {A : Aead} {leg : Leg} {s s' : LinkLab ρ}
  {links : List (LoggedLink ρ)} {outRows inRows : List LogRow}

/-- The rows of both processes are those of their links, and of other events. -/
structure Written (A : Aead) (leg : Leg) (links : List (LoggedLink ρ))
    (outRows inRows : List LogRow) : Prop where
  inv : ∀ l ∈ links,
    l.Inv A (linesOf leg.outEvent l.outId outRows) (linesOf leg.inEvent l.inId inRows)
  outIds : (links.map LoggedLink.outId).Nodup
  inIds : (links.map LoggedLink.inId).Nodup
  outCells : WholeCells leg.outEvent outRows
  inCells : WholeCells leg.inEvent inRows

/-- The loggers have been called with such rows. -/
def Inv (A : Aead) (leg : Leg) (s : LinkLab ρ) : Prop :=
  ∃ outEvents inEvents,
    Machine.run (LabLogger.step leg.outRole) .create outEvents = some s.outLogger ∧
    Machine.run (LabLogger.step leg.inRole) .create inEvents = some s.inLogger ∧
    Written A leg s.links (LabLogger.logged outEvents) (LabLogger.logged inEvents)

/-- Two links do not share an id. -/
theorem id_ne {f : LoggedLink ρ → Fin (2 ^ 64)} (hids : (links.map f).Nodup) {i j : Nat}
    {l l' : LoggedLink ρ} (hl : links[i]? = some l) (hl' : links[j]? = some l') (hne : i ≠ j) :
    f l ≠ f l' := by
  intro hsame
  have hi : (links.map f)[i]? = some (f l) := by rw [List.getElem?_map, hl]; rfl
  have hj : (links.map f)[j]? = some (f l) := by rw [List.getElem?_map, hl', hsame]; rfl
  exact hne ((Keyed.latest_of_nodup hids hi).unique (Keyed.latest_of_nodup hids hj))

/-- A link moves. -/
theorem Written.link [RngCore ρ] (hA : A.Lawful) (h : Written A leg links outRows inRows)
    {i : Nat} {l l' : LoggedLink ρ} {e : LinkEvent} (hl : links[i]? = some l)
    (hstep : l.step F A e = some l') :
    Written A leg (links.modify i fun _ => l') outRows inRows := by
  obtain ⟨houtId, hinId⟩ := LoggedLink.step_ids hstep
  refine ⟨fun x hx => ?_, ?_, ?_, h.outCells, h.inCells⟩
  · obtain ⟨j, hj⟩ := List.getElem?_of_mem hx
    rcases Keyed.modify_cases hj with ⟨-, hold⟩ | ⟨rfl, x₀, hx₀, rfl⟩
    · exact h.inv x (List.mem_of_getElem? hold)
    · rw [houtId, hinId]
      exact (h.inv l (List.mem_of_getElem? hl)).step hA hstep
  · rw [Keyed.map_modify_same fun x hx => ?_]
    · exact h.outIds
    · obtain rfl := Option.some.inj (hl.symm.trans hx)
      exact houtId
  · rw [Keyed.map_modify_same fun x hx => ?_]
    · exact h.inIds
    · obtain rfl := Option.some.inj (hl.symm.trans hx)
      exact hinId

/-- A sending end logs a frame. -/
theorem Written.outLogs (h : Written A leg links outRows inRows) {i : Nat} {l : LoggedLink ρ}
    {line : FrameLine} {due : List FrameLine} (hl : links[i]? = some l)
    (hdue : l.outDue = line :: due) (unixNanos : Fin (2 ^ 128)) :
    Written A leg (links.modify i ({ · with outDue := due }))
      (outRows ++ [line.row leg.outEvent l.outId unixNanos]) inRows := by
  have hinv := h.inv l (List.mem_of_getElem? hl)
  refine ⟨fun x hx => ?_, ?_, ?_, h.outCells.row ?_ unixNanos, h.inCells⟩
  · obtain ⟨j, hj⟩ := List.getElem?_of_mem hx
    rw [linesOf_append]
    rcases Keyed.modify_cases hj with ⟨hne, hold⟩ | ⟨rfl, x₀, hx₀, rfl⟩
    · rw [linesOf_row_of_ne line (id_ne h.outIds hl hold hne), List.append_nil]
      exact h.inv x (List.mem_of_getElem? hold)
    · obtain rfl := Option.some.inj (hl.symm.trans hx₀)
      rw [linesOf_row]
      exact hinv.outLogs hdue
  · have hkeys : (links.modify i ({ · with outDue := due })).map LoggedLink.outId
        = links.map LoggedLink.outId := Keyed.map_modify_same fun _ _ => rfl
    rw [hkeys]
    exact h.outIds
  · have hkeys : (links.modify i ({ · with outDue := due })).map LoggedLink.inId
        = links.map LoggedLink.inId := Keyed.map_modify_same fun _ _ => rfl
    rw [hkeys]
    exact h.inIds
  · exact hinv.bytes_of_mem_outDue (hdue ▸ List.mem_cons_self)

/-- A receiving end logs a frame. -/
theorem Written.inLogs (h : Written A leg links outRows inRows) {i : Nat} {l : LoggedLink ρ}
    {line : FrameLine} {due : List FrameLine} (hl : links[i]? = some l)
    (hdue : l.inDue = line :: due) (unixNanos : Fin (2 ^ 128)) :
    Written A leg (links.modify i ({ · with inDue := due })) outRows
      (inRows ++ [line.row leg.inEvent l.inId unixNanos]) := by
  have hinv := h.inv l (List.mem_of_getElem? hl)
  refine ⟨fun x hx => ?_, ?_, ?_, h.outCells, h.inCells.row ?_ unixNanos⟩
  · obtain ⟨j, hj⟩ := List.getElem?_of_mem hx
    rw [linesOf_append]
    rcases Keyed.modify_cases hj with ⟨hne, hold⟩ | ⟨rfl, x₀, hx₀, rfl⟩
    · rw [linesOf_row_of_ne line (id_ne h.inIds hl hold hne), List.append_nil]
      exact h.inv x (List.mem_of_getElem? hold)
    · obtain rfl := Option.some.inj (hl.symm.trans hx₀)
      rw [linesOf_row]
      exact hinv.inLogs hdue
  · have hkeys : (links.modify i ({ · with inDue := due })).map LoggedLink.outId
        = links.map LoggedLink.outId := Keyed.map_modify_same fun _ _ => rfl
    rw [hkeys]
    exact h.outIds
  · have hkeys : (links.modify i ({ · with inDue := due })).map LoggedLink.inId
        = links.map LoggedLink.inId := Keyed.map_modify_same fun _ _ => rfl
    rw [hkeys]
    exact h.inIds
  · exact hinv.bytes_of_mem_inDue (hdue ▸ List.mem_cons_self)

/-- Another task logs, or a writer thread moves. -/
theorem Written.other (h : Written A leg links outRows inRows) {e e' : LabLogger.Event}
    (he : OtherThan leg.outEvent e) (he' : OtherThan leg.inEvent e') :
    Written A leg links (outRows ++ LabLogger.logged [e]) (inRows ++ LabLogger.logged [e']) := by
  refine ⟨fun l hl => ?_, h.outIds, h.inIds, h.outCells.otherThan he, h.inCells.otherThan he'⟩
  rw [linesOf_append, linesOf_append, linesOf_otherThan he, linesOf_otherThan he',
    List.append_nil, List.append_nil]
  exact h.inv l hl

/-- One more call of a logger. -/
theorem run_logger {role : LabRole} {events : List LabLogger.Event} {t t' : LabLogger}
    {e : LabLogger.Event} (hrun : Machine.run (LabLogger.step role) .create events = some t)
    (hstep : t.step role e = some t') :
    Machine.run (LabLogger.step role) .create (events ++ [e]) = some t' := by
  rw [Machine.run_append, hrun, Option.bind_some, Machine.run_cons, hstep]
  rfl

/-- **Step lemma.** -/
theorem Inv.step [RngCore ρ] (hA : A.Lawful) {e : Event} (h : s.Inv A leg)
    (hstep : s.step F A leg e = some s') : s'.Inv A leg := by
  obtain ⟨outEvents, inEvents, hout, hin, hwritten⟩ := h
  cases e with
  | link i e =>
      obtain ⟨l, hl, hstep⟩ := Option.bind_eq_some_iff.mp hstep
      obtain ⟨l', hmove, hstep⟩ := Option.bind_eq_some_iff.mp hstep
      obtain rfl := Option.some.inj hstep
      exact ⟨outEvents, inEvents, hout, hin, hwritten.link hA hl hmove⟩
  | outLogs i unixNanos =>
      obtain ⟨l, hl, hstep⟩ := Option.bind_eq_some_iff.mp hstep
      split at hstep
      · cases hstep
      · next line due hdue =>
        obtain ⟨outLogger, hlog, hstep⟩ := Option.bind_eq_some_iff.mp hstep
        obtain rfl := Option.some.inj hstep
        refine ⟨_, inEvents, run_logger hout hlog, hin, ?_⟩
        rw [LabLogger.logged_concat]
        exact hwritten.outLogs hl hdue unixNanos
  | inLogs i unixNanos =>
      obtain ⟨l, hl, hstep⟩ := Option.bind_eq_some_iff.mp hstep
      split at hstep
      · cases hstep
      · next line due hdue =>
        obtain ⟨inLogger, hlog, hstep⟩ := Option.bind_eq_some_iff.mp hstep
        obtain rfl := Option.some.inj hstep
        refine ⟨outEvents, _, hout, run_logger hin hlog, ?_⟩
        rw [LabLogger.logged_concat]
        exact hwritten.inLogs hl hdue unixNanos
  | outLogger e =>
      rw [LinkLab.step] at hstep
      split at hstep
      · next he =>
        obtain ⟨outLogger, hlog, rfl⟩ := Option.map_eq_some_iff.mp hstep
        refine ⟨_, inEvents, run_logger hout hlog, hin, ?_⟩
        rw [LabLogger.logged_concat]
        have hnone : OtherThan leg.inEvent .recv := trivial
        have hother := hwritten.other he hnone
        rwa [show LabLogger.logged [.recv] = [] from rfl, List.append_nil] at hother
      · cases hstep
  | inLogger e =>
      rw [LinkLab.step] at hstep
      split at hstep
      · next he =>
        obtain ⟨inLogger, hlog, rfl⟩ := Option.map_eq_some_iff.mp hstep
        refine ⟨outEvents, _, hout, run_logger hin hlog, ?_⟩
        rw [LabLogger.logged_concat]
        have hnone : OtherThan leg.outEvent .recv := trivial
        have hother := hwritten.other hnone he
        rwa [show LabLogger.logged [.recv] = [] from rfl, List.append_nil] at hother
      · cases hstep

theorem start_inv [RngCore ρ] {H : Blake3} (hfresh : ∀ l ∈ links, l.Fresh F H)
    (houtIds : (links.map LoggedLink.outId).Nodup) (hinIds : (links.map LoggedLink.inId).Nodup) :
    (start links).Inv A leg :=
  ⟨[], [], rfl, rfl, fun l hl => (hfresh l hl).inv, houtIds, hinIds, nofun, nofun⟩

variable [RngCore ρ]

/-- **The logs of both ends tell of one sequence of frames.**  For every aead, however links,
    tasks and writer threads move, and wherever the two files end: for each link, the wire
    records of either end are a first part of the frames that were emitted, in order and
    under their numbers, each with its size and its kind, the last one perhaps with a
    part of it. -/
theorem logs_agree (hA : A.Lawful) (H : Blake3) (leg : Leg) (links : List (LoggedLink ρ))
    (hfresh : ∀ l ∈ links, l.Fresh F H) (houtIds : (links.map LoggedLink.outId).Nodup)
    (hinIds : (links.map LoggedLink.inId).Nodup) {events : List Event}
    (hrun : Machine.run (step F A leg) (start links) events = some s) :
    ∀ l ∈ s.links,
      (∃ lines, lines <+: emittedLines 0 l.link.flow.emitted ∧
        List.Forall₂ Says (wireRecords leg.outNames l.outId s.outLogger.file) lines) ∧
      ∃ lines, lines <+: emittedLines 0 l.link.flow.emitted ∧
        List.Forall₂ Says (wireRecords leg.inNames l.inId s.inLogger.file) lines := by
  intro l hl
  obtain ⟨outEvents, inEvents, hout, hin, hwritten⟩ :=
    Machine.run_invariant (fun _ _ _ h => h.step hA) (start_inv hfresh houtIds hinIds) hrun
  obtain ⟨-, -, -, houtward, hinward, -⟩ := hwritten.inv l hl
  obtain ⟨outLines, houtLines, houtSays⟩ :=
    exists_says leg.outNames_wire (LabLogger.file_isCut hout) l.outId
  obtain ⟨inLines, hinLines, hinSays⟩ :=
    exists_says leg.inNames_wire (LabLogger.file_isCut hin) l.inId
  have hout' := houtLines.trans (List.prefix_append _ l.outDue)
  rw [houtward] at hout'
  exact ⟨⟨outLines, hout', houtSays⟩, inLines,
    (hinLines.trans (List.prefix_append _ l.inDue)).trans hinward, hinSays⟩

/-- A link that sends a byte. -/
def sampleLink : LoggedLink FixedRng :=
  ⟨⟨Service.steepFlow 157 .off, true, .new Direction.steepOff.cipher, []⟩, asU64 1, asU64 3,
    [], 0, []⟩

theorem sampleLink_fresh : ∀ l ∈ [sampleLink], l.Fresh .steep .sumBytes := by
  intro l hl
  obtain rfl := List.mem_singleton.mp hl
  exact ⟨Direction.steepOff, _, Direction.registered_steepOff, rfl⟩

/-- The frame is emitted, logged, read and logged again; then the sender's logger is dropped
    and the file ends within the kind. -/
def sampleEvents : List Event :=
  [.link 0 (.service ⟨.const 0, fun _ =>
      ⟨(Direction.singleReader.push (.bytes [42])).cells, false⟩, .ok⟩),
    .link 0 (.service ⟨.const 60000000, fun _ => .none, .ok⟩), .outLogs 0 LogRow.frame.unixNanos,
    .link 0 (.read 531), .inLogs 0 LogRow.frame.unixNanos, .outLogger .recv] ++
  List.replicate 15 (.outLogger .piece) ++
  [.outLogger .drop, .outLogger .recv, .outLogger (.wrote 86)]

/-- The record of the frame, with two letters of its kind. -/
theorem logs_agree_sample : ∃ (s : LinkLab FixedRng) (l : LoggedLink FixedRng),
    s.links = [l] ∧ (wireRecords .client 1 s.outLogger.file).map (fun r => (r.seq, r.bytes))
      = [(0, 514)] ∧
    ∃ lines, lines <+: emittedLines 0 l.link.flow.emitted ∧
      List.Forall₂ Says (wireRecords .client 1 s.outLogger.file) lines := by
  have hrun : (Machine.run (step .steep .tagOnly .uplink) (start [sampleLink]) sampleEvents).map
      (fun s => (s.links.map fun l => l.outId,
        (wireRecords .client 1 s.outLogger.file).map fun r => (r.seq, r.bytes)))
      = some ([1], [(0, 514)]) := by
    decide +kernel
  obtain ⟨s, hs, hstate⟩ := Option.map_eq_some_iff.mp hrun
  obtain ⟨hids, hrecords⟩ := Prod.mk.inj hstate
  obtain ⟨l, hl, hid⟩ := List.map_eq_singleton_iff.mp hids
  have hagree := (logs_agree Aead.tagOnly_lawful .sumBytes .uplink [sampleLink] sampleLink_fresh
    (by decide) (by decide) hs l (hl ▸ List.mem_cons_self)).1
  rw [hid] at hagree
  exact ⟨s, l, hl, hrecords, hagree⟩

/-- **Sizes give nothing away.**  For every configuration whose threshold is not negative, on
    the file of either end of the links, wherever it ends, the size attack finishes and
    tells nothing apart. -/
theorem sizeAttack_blind (hA : A.Lawful) (H : Blake3) (leg : Leg) (links : List (LoggedLink ρ))
    (hfresh : ∀ l ∈ links, l.Fresh F H) (houtIds : (links.map LoggedLink.outId).Nodup)
    (hinIds : (links.map LoggedLink.inId).Nodup) {events : List Event}
    (hrun : Machine.run (step F A leg) (start links) events = some s) {config : AdversaryConfig}
    (hthreshold : exceeds config.sizeKsThreshold (0 : ℚ) = false) :
    (∃ result, sizeAttack F (parseReader s.outLogger.file) leg.outNames config = some result ∧
      result.any (·.distinguishable) = false) ∧
    ∃ result, sizeAttack F (parseReader s.inLogger.file) leg.inNames config = some result ∧
      result.any (·.distinguishable) = false := by
  obtain ⟨outEvents, inEvents, hout, hin, hwritten⟩ :=
    Machine.run_invariant (fun _ _ _ h => h.step hA) (start_inv hfresh houtIds hinIds) hrun
  exact ⟨sizeAttack_of_one_size F (bytes_of_mem_parseReader leg.outNames_wire
      (LabLogger.file_isCut hout) hwritten.outCells) hthreshold,
    sizeAttack_of_one_size F (bytes_of_mem_parseReader leg.inNames_wire
      (LabLogger.file_isCut hin) hwritten.inCells) hthreshold⟩

/-- The file of the sender, with its one frame. -/
theorem sizeAttack_blind_sample : ∃ s : LinkLab FixedRng,
    Machine.run (step .steep .tagOnly .uplink) (start [sampleLink]) sampleEvents = some s ∧
      ∃ result, sizeAttack .steep (parseReader s.outLogger.file) .client (.default .steep)
        = some result ∧ result.any (·.distinguishable) = false := by
  have hrun : (Machine.run (step .steep .tagOnly .uplink) (start [sampleLink])
      sampleEvents).isSome = true := by
    decide +kernel
  obtain ⟨s, hs⟩ := Option.isSome_iff_exists.mp hrun
  exact ⟨s, hs, (sizeAttack_blind Aead.tagOnly_lawful .sumBytes .uplink [sampleLink]
    sampleLink_fresh (by decide) (by decide) hs (by decide +kernel)).1⟩

end LinkLab

end MixTor
