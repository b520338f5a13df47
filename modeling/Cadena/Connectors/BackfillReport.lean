import Cadena.Base.SeparatedValues
import Cadena.Base.CodeUnits
import Cadena.Connectors.BackfillPlanner

/-!
# The audit report of a backfill

`csv.ts` and the rows that `report` of `backfill.service.ts` hands to it.
Cells come from provider data: a string that a spreadsheet would run as a
formula is prefixed with an apostrophe, and the rest is RFC 4180, so that a
reader gets the table back (`csv_reads_back`).
-/

namespace Cadena.Connectors.Backfill

open Cadena.Base Cadena.Base.SeparatedValues

/-- A value as far as `csvCell` looks at it. -/
inductive Cell where
  /-- `null` or `undefined`. -/
  | missing
  | text (value : Units)
  /-- Any other value, with what `String(value)` gives; a date with its ISO text. -/
  | other (string : Units)

/-- `FORMULA_LEAD`: `=`, `+`, `-`, `@`, a tab or a carriage return comes first. -/
def formulaLead : Units → Bool
  | [] => false
  | c :: _ => c ∈ [61, 43, 45, 64, 9, 13]

/-- The text of a cell, before it is quoted. -/
def Cell.written : Cell → Units
  | .missing => []
  | .text value => if formulaLead value then 39 :: value else value
  | .other string => string

/-- The marks of the format: `"`, `,`, CR and LF. -/
def csvMarks : Marks Nat := ⟨34, 44, 13, 10, by decide⟩

/-- The last line of `csvCell`: quotes where the text has a mark. -/
def quoteCell (t : Units) : Units :=
  if t.any (· ∈ [34, 44, 13, 10]) then
    34 :: (t.flatMap fun c => if c = 34 then [34, 34] else [c]) ++ [34]
  else t

def csvCell : Cell → Units
  | .missing => []
  | .text value => quoteCell (if formulaLead value then 39 :: value else value)
  | .other t => quoteCell t

def csvRow (cells : List Cell) : Units := [44].intercalate (cells.map csvCell)

def toCsv (header : List Units) (rows : List (List Cell)) : Units :=
  [13, 10].intercalate (csvRow (header.map Cell.text) :: rows.map csvRow) ++ [13, 10]

theorem csvCell_eq (value : Cell) : csvCell value = writeField csvMarks value.written := by
  have hdouble : ∀ t : Units, (t.flatMap fun c => if c = 34 then [34, 34] else [c])
      = doubled csvMarks t := by
    intro t
    refine List.flatMap_congr fun c _ => ?_
    by_cases hc : c = 34
    · simp [hc, csvMarks]
    · simp [hc, csvMarks]
  have hquote : ∀ t, quoteCell t = writeField csvMarks t := by
    intro t
    rw [quoteCell, hdouble]
    rfl
  cases value with
  | missing => simp [csvCell, Cell.written, writeField]
  | text value => rw [csvCell, hquote, Cell.written]
  | other string => rw [csvCell, hquote, Cell.written]

theorem csvRow_eq (cells : List Cell) :
    csvRow cells = writeRecord csvMarks (cells.map Cell.written) := by
  rw [csvRow, writeRecord, List.map_map]
  congr 1
  exact List.map_congr_left fun c _ => csvCell_eq c

theorem toCsv_eq (header : List Units) (rows : List (List Cell)) :
    toCsv header rows
      = writeTable csvMarks ((header.map Cell.text :: rows).map fun row => row.map Cell.written) := by
  have hjoin : ∀ (r : Units) (rs : List Units),
      [13, 10].intercalate (r :: rs) ++ [13, 10] = (r :: rs).flatMap (· ++ [13, 10]) := by
    intro r rs
    induction rs generalizing r with
    | nil => simp
    | cons s rs ih =>
      rw [List.intercalate_cons_cons, List.append_assoc, ih]
      rfl
  rw [toCsv, hjoin, writeTable, ← List.map_cons, List.flatMap_map, List.flatMap_map]
  exact List.flatMap_congr fun row _ => by rw [csvRow_eq]; rfl

theorem written_text_not_formula (value : Units) :
    formulaLead (Cell.text value).written = false := by
  rw [Cell.written]
  by_cases h : formulaLead value = true
  · rw [if_pos h]
    rfl
  · rw [if_neg h]
    exact Bool.eq_false_iff.mpr h

theorem read_toCsv (header : List Units) (rows : List (List Cell)) :
    read csvMarks (toCsv header rows)
      = some ((header.map Cell.text :: rows).map fun row =>
          if row = [] then [[]] else row.map Cell.written) := by
  rw [toCsv_eq, read_writeTable, List.map_map]
  congr 1
  refine List.map_congr_left fun row _ => ?_
  simp only [Function.comp_apply, asRead, List.map_eq_nil_iff]

/-- **The report is read back and runs nothing.** A row without a cell is
an empty line, which is read as one empty cell. -/
theorem csv_reads_back (header : List Units) (rows : List (List Cell)) :
    read csvMarks (toCsv header rows)
        = some ((header.map Cell.text :: rows).map fun row =>
            if row = [] then [[]] else row.map Cell.written)
      ∧ ∀ row ∈ header.map Cell.text :: rows, ∀ value, .text value ∈ row →
          formulaLead (Cell.text value).written = false :=
  ⟨read_toCsv header rows, fun _ _ value _ => written_text_not_formula value⟩

/-- A header without a cell comes back with one. -/
theorem empty_header_reads_back :
    read csvMarks (toCsv [] []) ≠ some [[]] := by decide

example : read csvMarks (toCsv [units "a"] [[.text (units "=1,\"2\""), .missing], [.other (units "-1")]])
    = some [[units "a"], [units "'=1,\"2\"", []], [units "-1"]] := by decide

/-! ## The report -/

/-- A record that the job read, joined with its chunk, its queue entry and its twin. -/
structure ReportedRecord where
  chunk_seq : Nat
  window_start : Option Millis
  window_end : Option Millis
  external_id : Units
  native_key : Option Units
  twin_id : Option Units
  record_updated_at : Option Millis
  outcome : Units
  queue_status : Option Units
  attempts : Option Nat
  last_error : Option Units
  recorded_at : Option Millis

structure FailedChunk where
  seq : Nat
  window_start : Option Millis
  window_end : Option Millis
  attempts : Nat
  last_error : Option Units
  updated_at : Option Millis

def iso : Option Millis → Cell
  | none => .missing
  | some t => .text (units (toISOString t))

/-- `value ?? ''`. -/
def orEmpty (value : Option Units) : Cell := .text (value.getD [])

def numberCell (n : Nat) : Cell := .other (units (toString n))

def recordCells (id name : Units) (row : ReportedRecord) : List Cell :=
  [.text id, .text name, numberCell row.chunk_seq, iso row.window_start, iso row.window_end,
    .text row.external_id, orEmpty row.native_key, orEmpty row.twin_id,
    iso row.record_updated_at, .text row.outcome, orEmpty row.queue_status,
    (row.attempts.map numberCell).getD (.text []), orEmpty row.last_error, iso row.recorded_at]

def failedCells (id name : Units) (row : FailedChunk) : List Cell :=
  [.text id, .text name, numberCell row.seq, iso row.window_start, iso row.window_end,
    .text [], .text [], .text [], .text [], .text (units "chunk_failed"), .text [],
    numberCell row.attempts, orEmpty row.last_error, iso row.updated_at]

def reportHeader : List Units :=
  ["job_id", "job_name", "chunk", "window_start", "window_end", "external_id", "native_key",
    "twin_id", "record_updated_at", "outcome", "queue_status", "attempts", "error",
    "recorded_at"].map units

/-- The file that `report` returns for a job. -/
def report (id name : Units) (records : List ReportedRecord) (failed : List FailedChunk) :
    Units :=
  toCsv reportHeader (records.map (recordCells id name) ++ failed.map (failedCells id name))

/-- Whatever a provider wrote into its records, the report has one line for
each record and each failed chunk, and a value for each column in each line. -/
theorem report_columns (id name : Units) (records : List ReportedRecord)
    (failed : List FailedChunk) :
    ∃ lines, read csvMarks (report id name records failed) = some (reportHeader :: lines)
      ∧ lines.length = records.length + failed.length
      ∧ ∀ line ∈ lines, line.length = reportHeader.length := by
  have hheader : (if reportHeader.map Cell.text = [] then [[]]
      else (reportHeader.map Cell.text).map Cell.written) = reportHeader := by decide
  rw [report, read_toCsv, List.map_cons, hheader]
  refine ⟨_, rfl, by simp, ?_⟩
  intro line hline
  rw [List.map_append, List.mem_append, List.map_map, List.map_map, List.mem_map,
    List.mem_map] at hline
  rcases hline with ⟨row, _, rfl⟩ | ⟨row, _, rfl⟩
  · rfl
  · rfl

end Cadena.Connectors.Backfill
