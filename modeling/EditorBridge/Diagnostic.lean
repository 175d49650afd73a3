/-
Diagnostics: the entries of an error text as an editor shows them.  Columns of a
entry count code points; on a line of the document they become UTF-16 units and
stop at the end of the line.
-/
import EditorBridge.ErrorReport
import EditorBridge.Position

namespace EditorBridge

/-- How serious a diagnostic is. -/
inductive Severity where
  | error
  | warning
  | information
  | hint
deriving DecidableEq, Repr

namespace Severity

/-- The severity that a word of an error text stands for. -/
def ofWord (word : String) : Severity :=
  if word = "error" || word = "syntax error" then .error
  else if word = "warning" then .warning
  else if word = "info" then .information
  else .hint

def code : Severity → Nat
  | .error => 1
  | .warning => 2
  | .information => 3
  | .hint => 4

end Severity

/-- A message about a place of a document. -/
structure Diagnostic where
  range : Range
  message : Text
  severity : Severity
deriving DecidableEq, Repr

namespace Diagnostic

/-- Who reports all diagnostics. -/
def source : String := "Nelua LSP"

/-- Why an error text gives no diagnostics. -/
inductive ReportError where
  | numeral (cause : Text.NumeralTooLong)
  | range (cause : RangeError)
deriving DecidableEq, Repr

/-- A range that is taken from an entry as it stands. -/
def plainRange (line column length : Nat) : Except CoordinateError Range := do
  let start ← Position.check ⟨line, column⟩
  let stop ← Position.check ⟨line, column + length⟩
  .ok ⟨start, stop⟩

/-- The range of an entry.  On a line of the text it is clipped to that line. -/
def entryRange (entry : ReportEntry) (text : Option (List CodePoint)) : Except RangeError Range :=
  let line := entry.line - 1
  let column := entry.column - 1
  let plain := (plainRange line column entry.length).mapError RangeError.coordinate
  match text with
  | none => plain
  | some text =>
      if lineCount text ≤ line then plain
      else
        let start := lineStart text line
        let stop := start + (lineText text line).length
        let first := min (start + column) stop
        let last := min (first + entry.length) stop
        Range.ofSpan text ⟨first, last⟩

def ofEntry (entry : ReportEntry) (text : Option (List CodePoint)) :
    Except RangeError Diagnostic :=
  (entryRange entry text).map fun range =>
    { range, message := entry.message, severity := .ofWord entry.severity }

/-- The diagnostics of an error text about a document, in the order reported. -/
def ofReport (report : List CodePoint) (text : Option (List CodePoint)) :
    Except ReportError (List Diagnostic) := do
  let entries ← (ErrorReport.parse report).mapError ReportError.numeral
  entries.mapM fun entry => (ofEntry entry text).mapError ReportError.range

end Diagnostic

end EditorBridge
