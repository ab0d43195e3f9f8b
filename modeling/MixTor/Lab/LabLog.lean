/-
  MixTor.Lab.LabLog

  The lab log: the CSV a logger's writer produces (lab.rs) and the parser of the
  analysis (correlation_attack.rs), which skips what it cannot read so that a log that
  was cut off can still be examined.

  A cut inside the last field of a row leaves a line with all its fields.
-/

import MixTor.Lib.Fields
import Mathlib.Algebra.Group.Nat.Defs

namespace MixTor

open Text

-- ============================================================================
-- Rows
-- ============================================================================

/-- The roles a logger is created with. -/
inductive LabRole where
  | server
  | client
  deriving DecidableEq, Repr

def LabRole.name : LabRole → Str
  | server => "server".toList
  | client => "client".toList

/-- The events the transport logs. -/
inductive LabEvent where
  | clientInput
  | clientWireOutput
  | serverBridgeReply
  | serverWireReturn
  | serverWireInput
  | serverRealOutput
  | clientWireReturn
  | clientInboundReal
  deriving DecidableEq, Repr

def LabEvent.name : LabEvent → Str
  | clientInput => "client_input".toList
  | clientWireOutput => "client_wire_output".toList
  | serverBridgeReply => "server_bridge_reply".toList
  | serverWireReturn => "server_wire_return".toList
  | serverWireInput => "server_wire_input".toList
  | serverRealOutput => "server_real_output".toList
  | clientWireReturn => "client_wire_return".toList
  | clientInboundReal => "client_inbound_real".toList

inductive LabKind where
  | real
  | dummy
  deriving DecidableEq, Repr

def LabKind.name : LabKind → Str
  | real => "real".toList
  | dummy => "dummy".toList

/-- One logged event. -/
structure LogRow where
  unixNanos : Fin (2 ^ 128)
  event : LabEvent
  connId : Fin (2 ^ 64)
  seq : Fin (2 ^ 64)
  bytes : Fin (2 ^ 64)
  kind : LabKind
  deriving DecidableEq, Repr

/-- One parsed line of a lab CSV. -/
structure LogRecord where
  unixNanos : Nat
  role : Str
  event : Str
  connId : Nat
  seq : Nat
  bytes : Nat
  kind : Str
  deriving DecidableEq, Repr

/-- What a row says. -/
def LogRow.record (role : LabRole) (r : LogRow) : LogRecord where
  unixNanos := r.unixNanos
  role := role.name
  event := r.event.name
  connId := r.connId
  seq := r.seq
  bytes := r.bytes
  kind := r.kind.name

-- ============================================================================
-- The writer
-- ============================================================================

def labHeader : Str := "unix_nanos,role,event,conn_id,seq,bytes,kind".toList

/-- A row up to the comma before its kind. -/
def LogRow.head (role : LabRole) (r : LogRow) : Str :=
  decimal r.unixNanos ++ ',' :: role.name ++ ',' :: r.event.name ++ ',' :: decimal r.connId ++
    ',' :: decimal r.seq ++ ',' :: decimal r.bytes ++ [',']

/-- The format of the writer thread. -/
def LogRow.text (role : LabRole) (r : LogRow) : Str := r.head role ++ r.kind.name

/-- The file after the rows. -/
def labCsv (role : LabRole) (rows : List LogRow) : Str :=
  labHeader ++ '\n' :: rows.flatMap fun r => r.text role ++ ['\n']

-- ============================================================================
-- The parser
-- ============================================================================

/-- `line.split(',')`, each field trimmed and parsed. -/
def parseLine (line : Str) : Option LogRecord :=
  match line.splitOn ',' with
  | unixNanos :: role :: event :: connId :: seq :: bytes :: kind :: _ => do
      let unixNanos ← fromStrRadix 10 (2 ^ 128 - 1) (trim unixNanos)
      let connId ← fromStrRadix 10 (2 ^ 64 - 1) (trim connId)
      let seq ← fromStrRadix 10 (2 ^ 64 - 1) (trim seq)
      let bytes ← fromStrRadix 10 (2 ^ 64 - 1) (trim bytes)
      return ⟨unixNanos, trim role, trim event, connId, seq, bytes, trim kind⟩
  | _ => none

/-- A line that is not the header; blank ones are skipped. -/
def parseRow (line : Str) : Option LogRecord :=
  if trim line = [] then none else parseLine line

/-- The body of the loop over the numbered lines. -/
def parseNumbered (line : Str × Nat) : Option LogRecord :=
  if line.2 = 0 ∧ "unix_nanos".toList.isPrefixOf line.1 then none else parseRow line.1

def parseReader (text : Str) : List LogRecord := (lines text).zipIdx.filterMap parseNumbered

-- ============================================================================
-- Fields
-- ============================================================================

/-- No comma and no white space. -/
def Plain (s : Str) : Prop := ∀ c ∈ s, c ≠ ',' ∧ isWhitespace c = false

theorem plain_of_all {s : Str} (h : (s.all fun c => c != ',' && !isWhitespace c) = true) :
    Plain s := by
  intro c hc
  have hchar := List.all_eq_true.mp h c hc
  simpa using hchar

theorem LabRole.plain_name (role : LabRole) : Plain role.name := by
  cases role <;> exact plain_of_all (by decide +kernel)

theorem LabEvent.plain_name (event : LabEvent) : Plain event.name := by
  cases event <;> exact plain_of_all (by decide +kernel)

theorem LabKind.plain_name (kind : LabKind) : Plain kind.name := by
  cases kind <;> exact plain_of_all (by decide +kernel)

theorem plain_decimal (n : Nat) : Plain (decimal n) := by
  intro c hc
  have hall : ∀ m < 58, (Char.ofNat m).isDigit = true →
      Char.ofNat m ≠ ',' ∧ isWhitespace (Char.ofNat m) = false := by decide
  have hdigit := isDigit_of_mem_decimal hc
  have hlt : c.toNat < 58 := by
    simp only [Char.isDigit, Bool.and_eq_true, decide_eq_true_eq] at hdigit
    exact Nat.lt_succ_of_le hdigit.2
  have hplain := hall c.toNat hlt (by rwa [Char.ofNat_toNat])
  rwa [Char.ofNat_toNat] at hplain

theorem Plain.trim_eq {s : Str} (h : Plain s) : trim s = s :=
  trim_of_forall fun c hc => (h c hc).2

/-- The fields before the kind. -/
def LogRow.fields (role : LabRole) (r : LogRow) : List Str :=
  [decimal r.unixNanos, role.name, r.event.name, decimal r.connId, decimal r.seq,
    decimal r.bytes]

theorem LogRow.plain_fields (role : LabRole) (r : LogRow) :
    ∀ field ∈ r.fields role, Plain field := by
  intro field h
  simp only [fields, List.mem_cons, List.not_mem_nil, or_false] at h
  obtain rfl | rfl | rfl | rfl | rfl | rfl := h
  · exact plain_decimal _
  · exact role.plain_name
  · exact r.event.plain_name
  · exact plain_decimal _
  · exact plain_decimal _
  · exact plain_decimal _

/-- A row, cut in its kind or not, is its fields with commas between them. -/
theorem LogRow.head_append (role : LabRole) (r : LogRow) (kind : Str) :
    r.head role ++ kind = [','].intercalate (r.fields role ++ [kind]) := by
  simp [head, fields, List.intercalate_cons_cons]

/-- Plain fields are split again. -/
theorem splitOn_fields {fields : List Str} {last : Str} (hfields : ∀ f ∈ fields, Plain f)
    (hlast : Plain last) :
    ([','].intercalate (fields ++ [last])).splitOn ',' = fields ++ [last] := by
  refine List.splitOn_intercalate ',' ?_ (by simp)
  intro f hf hcomma
  obtain hmem | hmem := List.mem_append.mp hf
  · exact (hfields f hmem ',' hcomma).1 rfl
  · rw [List.mem_singleton.mp hmem] at hcomma
    exact (hlast ',' hcomma).1 rfl

/-- A row whose kind is cut still parses, with what is left of the kind. -/
theorem parseLine_head {role : LabRole} (r : LogRow) {kind : Str} (hkind : Plain kind) :
    parseLine (r.head role ++ kind) = some { r.record role with kind } := by
  rw [LogRow.head_append, parseLine, splitOn_fields (r.plain_fields role) hkind]
  simp only [LogRow.fields, List.cons_append, List.nil_append, (plain_decimal _).trim_eq,
    role.plain_name.trim_eq, r.event.plain_name.trim_eq, hkind.trim_eq]
  have h128 : fromStrRadix 10 (2 ^ 128 - 1) (decimal r.unixNanos) = some (r.unixNanos : Nat) :=
    fromStrRadix_decimal (Nat.le_sub_one_of_lt r.unixNanos.isLt)
  have h64 : ∀ n : Fin (2 ^ 64), fromStrRadix 10 (2 ^ 64 - 1) (decimal n) = some (n : Nat) :=
    fun n => fromStrRadix_decimal (Nat.le_sub_one_of_lt n.isLt)
  rw [h128, h64, h64, h64]
  rfl

/-- A line of six fields or less does not parse. -/
theorem parseLine_short {fields : List Str} {last : Str} (hfields : ∀ f ∈ fields, Plain f)
    (hlast : Plain last) (hshort : fields.length < 6) :
    parseLine ([','].intercalate (fields ++ [last])) = none := by
  rw [parseLine, splitOn_fields hfields hlast]
  split
  · next hsplit =>
    have hlen := congrArg List.length hsplit
    simp only [List.length_append, List.length_cons, List.length_nil] at hlen
    omega
  · rfl

-- ============================================================================
-- The lines of a cut file
-- ============================================================================

/-- A row contains no white space, cut in its kind or not. -/
theorem LogRow.not_whitespace (role : LabRole) (r : LogRow) {kind : Str} (hkind : Plain kind) :
    ∀ c ∈ r.head role ++ kind, isWhitespace c = false := by
  intro c hc
  rw [head_append] at hc
  obtain rfl | ⟨field, hfield, hc⟩ := mem_intercalate hc
  · decide
  · obtain hmem | hmem := List.mem_append.mp hfield
    · exact (r.plain_fields role field hmem c hc).2
    · rw [List.mem_singleton.mp hmem] at hc
      exact (hkind c hc).2

/-- So it has no line break. -/
theorem LogRow.not_mem_text (role : LabRole) (r : LogRow) :
    '\n' ∉ r.text role ∧ '\r' ∉ r.text role := by
  have hno := r.not_whitespace role r.kind.plain_name
  rw [← text] at hno
  exact ⟨fun hc => Bool.noConfusion (hno _ hc), fun hc => Bool.noConfusion (hno _ hc)⟩

theorem parseRow_head {role : LabRole} (r : LogRow) {kind : Str} (hkind : Plain kind) :
    parseRow (r.head role ++ kind) = some { r.record role with kind } := by
  have hne : trim (r.head role ++ kind) ≠ [] := by
    rw [trim_of_forall (r.not_whitespace role hkind)]
    simp [LogRow.head]
  rw [parseRow, if_neg hne, parseLine_head r hkind]

/-- A complete row is read as what it says. -/
theorem parseRow_text (role : LabRole) (r : LogRow) :
    parseRow (r.text role) = some (r.record role) :=
  parseRow_head r r.kind.plain_name

theorem parseRow_eq_none {line : Str} (h : parseLine line = none) : parseRow line = none := by
  rw [parseRow, h, ite_self]

/-- Behind the header every line is parsed, whatever its number. -/
theorem filterMap_parseNumbered (ls : List Str) (i : Nat) :
    (ls.zipIdx (i + 1)).filterMap parseNumbered = ls.filterMap parseRow := by
  induction ls generalizing i with
  | nil => rfl
  | cons line ls ih =>
      have hhead : parseNumbered (line, i + 1) = parseRow line :=
        if_neg fun h => Nat.succ_ne_zero i h.1
      rw [List.zipIdx_cons, List.filterMap_cons, List.filterMap_cons, hhead, ih]

/-- The lines of the file, the last one incomplete. -/
theorem labCsv_append (role : LabRole) (rows : List LogRow) (last : Str) :
    labCsv role rows ++ last
      = ['\n'].intercalate (labHeader :: rows.map (LogRow.text role) ++ [last]) := by
  rw [← flatMap_append_eq_intercalate, List.flatMap_cons, List.flatMap_map, labCsv]
  simp only [List.append_assoc, List.cons_append, List.nil_append]

/-- A file with an incomplete last line: its rows, and what that line parses to. -/
theorem parseReader_labCsv_append (role : LabRole) (rows : List LogRow) {last : Str}
    (hlast : '\n' ∉ last) :
    parseReader (labCsv role rows ++ last)
      = rows.map (LogRow.record role) ++ (parseRow last).toList := by
  have hlines : ∀ line ∈ labHeader :: rows.map (LogRow.text role), '\n' ∉ line ∧ '\r' ∉ line := by
    intro line hline
    obtain rfl | hline := List.mem_cons.mp hline
    · decide
    · obtain ⟨r, -, rfl⟩ := List.mem_map.mp hline
      exact r.not_mem_text role
  have hheader : parseNumbered (labHeader, 0) = none := by decide
  have hrows : (rows.map (LogRow.text role)).filterMap parseRow
      = rows.map (LogRow.record role) := by
    rw [List.filterMap_map, ← List.filterMap_eq_map]
    refine List.filterMap_congr fun r _ => ?_
    rw [Function.comp_apply, Function.comp_apply, parseRow_text]
  have hrest : (if last = [] then [] else [last]).filterMap parseRow = (parseRow last).toList := by
    split
    · next hnil =>
      rw [hnil]
      rfl
    · cases h : parseRow last with
      | none => simp [h]
      | some record => simp [h]
  rw [parseReader, labCsv_append, lines_intercalate hlines hlast, List.cons_append,
    List.zipIdx_cons, List.filterMap_cons_none hheader, filterMap_parseNumbered,
    List.filterMap_append, hrows, hrest]

/-- The whole file gives all rows. -/
theorem parseReader_labCsv (role : LabRole) (rows : List LogRow) :
    parseReader (labCsv role rows) = rows.map (LogRow.record role) := by
  have hnil : '\n' ∉ ([] : Str) := List.not_mem_nil
  have hwhole := parseReader_labCsv_append role rows hnil
  rw [List.append_nil] at hwhole
  exact hwhole.trans (List.append_nil _)

-- ============================================================================
-- A log that was cut
-- ============================================================================

/-- The cut falls behind the comma before the kind of a row and before the end of it. -/
def CutInKind (role : LabRole) (rows : List LogRow) (cut : Str) : Prop :=
  ∃ done row rest part, rows = done ++ row :: rest ∧ part <+: row.kind.name ∧
    part ≠ row.kind.name ∧ cut = labCsv role done ++ (row.head role ++ part)

/-- Where a cut can fall: in the header, behind everything, or in a row. -/
theorem cut_cases {role : LabRole} {rows : List LogRow} {cut : Str}
    (hcut : cut <+: labCsv role rows) :
    cut <+: labHeader ∨ cut = labCsv role rows ∨
      ∃ done row rest part, rows = done ++ row :: rest ∧ part <+: row.text role ∧
        cut = labCsv role done ++ part := by
  rw [← List.append_nil (labCsv role rows), labCsv_append] at hcut
  obtain ⟨done, piece, rest, part, hpieces, hpart, rfl⟩ := prefix_intercalate (by simp) hcut
  cases done with
  | nil =>
      obtain ⟨rfl, -⟩ := List.cons.inj hpieces
      exact .inl (by rwa [List.nil_append, List.intercalate_singleton])
  | cons first done =>
      obtain ⟨rfl, htail⟩ := List.cons.inj hpieces
      have hrows : rows.map (LogRow.text role) ++ [[]] = done ++ piece :: rest := htail
      obtain ⟨a, rfl, hlast⟩ | ⟨c, hmap, hlast⟩ := List.append_eq_append_iff.mp hrows
      · -- the cut is behind the last line break
        have ha : a = [] := by
          have hlen := congrArg List.length hlast
          simp only [List.length_append, List.length_cons, List.length_nil] at hlen
          exact List.length_eq_zero_iff.mp (by omega)
        subst ha
        obtain ⟨rfl, -⟩ := List.cons.inj hlast
        rw [List.prefix_nil.mp hpart, List.append_nil, ← labCsv_append, List.append_nil]
        exact .inr (.inl rfl)
      · cases c with
        | nil =>
            obtain ⟨rfl, -⟩ := List.cons.inj hlast
            rw [List.append_nil] at hmap
            rw [List.prefix_nil.mp hpart, ← hmap, ← labCsv_append, List.append_nil]
            exact .inr (.inl rfl)
        | cons c cs =>
            obtain ⟨rfl, -⟩ := List.cons.inj hlast
            obtain ⟨doneRows, rowAndRest, rfl, rfl, hrest⟩ := List.map_eq_append_iff.mp hmap
            obtain ⟨row, restRows, rfl, rfl, -⟩ := List.map_eq_cons_iff.mp hrest
            exact .inr (.inr ⟨doneRows, row, restRows, part, rfl, hpart,
              (labCsv_append role doneRows part).symm⟩)

/-- What is left of a row: fields that are too few, or all of them with a part of the
    kind. -/
theorem part_cases {role : LabRole} {row : LogRow} {part : Str} (h : part <+: row.text role) :
    parseLine part = none ∨ ∃ kind, kind <+: row.kind.name ∧ part = row.head role ++ kind := by
  rw [LogRow.text, LogRow.head_append] at h
  obtain ⟨done, piece, rest, last, hfields, hlast, rfl⟩ := prefix_intercalate (by simp) h
  have hplain : ∀ f ∈ done ++ piece :: rest, Plain f := by
    intro f hf
    rw [← hfields] at hf
    obtain hmem | hmem := List.mem_append.mp hf
    · exact row.plain_fields role f hmem
    · rw [List.mem_singleton.mp hmem]
      exact row.kind.plain_name
  by_cases hrest : rest = []
  · subst hrest
    obtain ⟨rfl, hpiece⟩ := List.append_inj' hfields rfl
    obtain ⟨rfl, -⟩ := List.cons.inj hpiece
    exact .inr ⟨last, hlast, (row.head_append role last).symm⟩
  · refine .inl (parseLine_short (fun f hf => hplain f (List.mem_append_left _ hf)) ?_ ?_)
    · exact fun c hc => hplain piece (by simp) c (hlast.subset hc)
    · have hlen := congrArg List.length hfields
      have hpos := List.length_pos_iff.mpr hrest
      simp only [LogRow.fields, List.length_append, List.length_cons, List.length_nil] at hlen
      omega

/-- A cut in the header gives nothing. -/
theorem parseReader_header {cut : Str} (h : cut <+: labHeader) : parseReader cut = [] := by
  have hall : ∀ k ≤ labHeader.length, parseReader (labHeader.take k) = [] := by
    decide +kernel
  rw [List.prefix_iff_eq_take.mp h]
  exact hall cut.length h.length_le

theorem not_mem_of_prefix_text {role : LabRole} {row : LogRow} {part : Str}
    (h : part <+: row.text role) : '\n' ∉ part :=
  fun hc => (row.not_mem_text role).1 (h.subset hc)

/-- A row with a part of its kind is no prefix of what was written. -/
theorem not_prefix_of_cutInKind {role : LabRole} {rows : List LogRow} {cut : Str}
    (h : CutInKind role rows cut) : ¬ parseReader cut <+: rows.map (LogRow.record role) := by
  obtain ⟨done, row, rest, part, rfl, hpart, hne, rfl⟩ := h
  have hplain : Plain part := fun c hc => row.kind.plain_name c (hpart.subset hc)
  have htext : row.head role ++ part <+: row.text role := List.prefix_append_right_inj _ |>.mpr hpart
  rw [parseReader_labCsv_append role done (not_mem_of_prefix_text htext), parseRow_head row hplain,
    List.map_append, List.prefix_append_right_inj]
  intro hprefix
  have hrecord := (List.cons_prefix_cons.mp hprefix).1
  exact hne (congrArg LogRecord.kind hrecord)

/-- Any other cut leaves whole rows and a line that does not parse. -/
theorem prefix_of_not_cutInKind {role : LabRole} {rows : List LogRow} {cut : Str}
    (hcut : cut <+: labCsv role rows) (h : ¬ CutInKind role rows cut) :
    parseReader cut <+: rows.map (LogRow.record role) := by
  obtain hheader | rfl | ⟨done, row, rest, part, rfl, hpart, rfl⟩ := cut_cases hcut
  · rw [parseReader_header hheader]
    exact List.nil_prefix
  · exact (parseReader_labCsv role rows).symm ▸ List.prefix_refl _
  · rw [parseReader_labCsv_append role done (not_mem_of_prefix_text hpart), List.map_append,
      List.prefix_append_right_inj]
    obtain hnone | ⟨kind, hkind, rfl⟩ := part_cases hpart
    · rw [parseRow_eq_none hnone]
      exact List.nil_prefix
    · obtain rfl : kind = row.kind.name := by
        by_contra hne
        exact h ⟨done, row, rest, kind, rfl, hkind, hne, rfl⟩
      have hrow := parseRow_text role row
      rw [LogRow.text] at hrow
      rw [hrow]
      exact List.cons_prefix_cons.mpr ⟨rfl, List.nil_prefix⟩

/-- For every list of rows and every cut of their file: what is parsed is a prefix of the
    rows exactly if the cut does not fall inside the kind of a row; and the whole file gives
    all rows. -/
theorem parseReader_cut_iff (role : LabRole) (rows : List LogRow) {cut : Str}
    (hcut : cut <+: labCsv role rows) :
    (parseReader cut <+: rows.map (LogRow.record role) ↔ ¬ CutInKind role rows cut) ∧
      parseReader (labCsv role rows) = rows.map (LogRow.record role) :=
  ⟨⟨fun h hin => not_prefix_of_cutInKind hin h, prefix_of_not_cutInKind hcut⟩,
    parseReader_labCsv role rows⟩

/-- A frame of the server's wire. -/
def LogRow.frame : LogRow := ⟨1000, .serverWireInput, 1, 0, 514, .real⟩

/-- A cut behind the second row's sequence number. -/
theorem parseReader_cut_iff_sample :
    (parseReader ((labCsv .server [.frame, .frame]).take 121)
        <+: [LogRow.frame, .frame].map (LogRow.record .server)
      ↔ ¬ CutInKind .server [.frame, .frame] ((labCsv .server [.frame, .frame]).take 121)) ∧
    parseReader (labCsv .server [.frame, .frame])
      = [LogRow.frame, .frame].map (LogRow.record .server) :=
  parseReader_cut_iff .server [.frame, .frame] (List.take_prefix 121 _)

/-- The last two characters of the kind and the line break are lost: a record of the kind
    `re` is read. -/
theorem parseReader_reads_part :
    (labCsv .server [.frame]).take 85 <+: labCsv .server [.frame] ∧
      parseReader ((labCsv .server [.frame]).take 85)
        = [{ LogRow.frame.record .server with kind := "re".toList }] ∧
      ¬ parseReader ((labCsv .server [.frame]).take 85)
        <+: [LogRow.frame].map (LogRow.record .server) := by
  refine ⟨List.take_prefix 85 _, by decide +kernel, ?_⟩
  decide +kernel

end MixTor
