/-
The error text of an analyzer.  An entry starts with a header
`file:line:column: severity: message`; within the next two lines an underline
`^~~~` may give the length of the place.  Colours are taken out first.
-/
import EditorBridge.Text.Decimal
import EditorBridge.Text.Lines

namespace EditorBridge

/-- One entry of an error text; line and column count from one. -/
structure ReportEntry where
  line : Nat
  column : Nat
  length : Nat
  severity : String
  message : Text
deriving DecidableEq, Repr

namespace ErrorReport

/-- What is left behind a colour escape, given what follows its bracket. -/
def behindColour? : List CodePoint → Option (List CodePoint)
  | [] => none
  | c :: rest =>
      if c = .char 'm' then some rest
      else if c.isIn Text.isAsciiDigit || c = .char ';' then behindColour? rest
      else none

theorem length_behindColour? {cs rest : List CodePoint} (h : behindColour? cs = some rest) :
    rest.length < cs.length := by
  induction cs with
  | nil => simp [behindColour?] at h
  | cons c more ih =>
      simp only [behindColour?] at h
      split at h
      · cases h
        simp
      · split at h
        · have := ih h
          simp only [List.length_cons]
          omega
        · simp at h

/-- What is left behind a colour escape at the front. -/
def behindEscape? : List CodePoint → Option (List CodePoint)
  | .char '\x1b' :: .char '[' :: rest => behindColour? rest
  | _ => none

theorem length_behindEscape? {cs rest : List CodePoint} (h : behindEscape? cs = some rest) :
    rest.length < cs.length := by
  unfold behindEscape? at h
  split at h
  · have := length_behindColour? h
    simp only [List.length_cons]
    omega
  · simp at h

/-- Take out the colour escapes of a terminal. -/
def withoutColours (cs : List CodePoint) : List CodePoint :=
  match cs with
  | [] => []
  | c :: rest =>
      match _h : behindEscape? (c :: rest) with
      | some left => withoutColours left
      | none => c :: withoutColours rest
termination_by cs.length
decreasing_by
  · exact length_behindEscape? _h
  · simp

/-- The parts of a header that are read further; the numerals are not read yet. -/
structure Header where
  line : List CodePoint
  column : List CodePoint
  severity : List CodePoint
  message : List CodePoint
deriving DecidableEq, Repr

/-- Whether the code point may stand in a line or a column. -/
def isDigit (c : CodePoint) : Bool := c.isIn Text.isDigit

def isBlank (c : CodePoint) : Bool := c.isIn Text.isBlank

/-- Digits that end at a colon, and what follows the colon. -/
def numeral? (cs : List CodePoint) : Option (List CodePoint × List CodePoint) :=
  match cs.takeWhile isDigit, cs.dropWhile isDigit with
  | d :: digits, .char ':' :: rest => some (d :: digits, rest)
  | _, _ => none

/-- Whether the code point may stand in a severity. -/
def isSeverityChar (c : CodePoint) : Bool := c.isIn fun c => c.isAlpha || c == ' '

/-- A severity that ends at a colon, and what follows the colon.  It starts with
a letter. -/
def severity? (cs : List CodePoint) : Option (List CodePoint × List CodePoint) :=
  match cs.takeWhile isSeverityChar, cs.dropWhile isSeverityChar with
  | c :: word, .char ':' :: rest => if c.isIn Char.isAlpha then some (c :: word, rest) else none
  | _, _ => none

/-- Read a header from behind the colon that ends the file name. -/
def headerBehindFile? (cs : List CodePoint) : Option Header := do
  let (line, rest) ← numeral? cs
  let (column, rest) ← numeral? rest
  let (severity, message) ← severity? (rest.dropWhile isBlank)
  some ⟨line, column, severity, message⟩

/-- Read a header.  The file name ends at the first colon that lets the rest be
read. -/
def header? : List CodePoint → Option Header
  | [] => none
  | c :: rest =>
      if c = .char ':' then (headerBehindFile? rest).or (header? rest) else header? rest

/-- The width of an underline: a caret and its tildes, with blanks around. -/
def underline? (cs : List CodePoint) : Option Nat :=
  match cs.dropWhile isBlank with
  | .char '^' :: rest =>
      if (rest.dropWhile (· == .char '~')).all isBlank then
        some ((rest.takeWhile (· == .char '~')).length + 1)
      else none
  | _ => none

/-- The length that the lines behind a header give: the first underline before
the next header, one when there is none. -/
def lengthIn : List (List CodePoint) → Nat
  | [] => 1
  | line :: rest =>
      if (header? line).isSome then 1
      else match underline? line with
        | some width => width
        | none => lengthIn rest

/-- The entry of a header and the lines that follow it. -/
def entry (header : Header) (following : List (List CodePoint)) :
    Except Text.NumeralTooLong ReportEntry := do
  let line ← Text.readDigits (Text.chars header.line)
  let column ← Text.readDigits (Text.chars header.column)
  .ok
    { line, column
      length := lengthIn (following.take 2)
      severity := String.ofList ((Text.trim (Text.chars header.severity)).map Char.toLower)
      message := ⟨Text.trimWhile isBlank header.message⟩ }

def entriesOfLines : List (List CodePoint) → Except Text.NumeralTooLong (List ReportEntry)
  | [] => .ok []
  | line :: rest =>
      match header? line with
      | none => entriesOfLines rest
      | some header => do
          let first ← entry header rest
          let more ← entriesOfLines rest
          .ok (first :: more)

/-- The entries of an error text, in order. -/
def parse (text : List CodePoint) : Except Text.NumeralTooLong (List ReportEntry) :=
  entriesOfLines (Text.lines (withoutColours text))

end ErrorReport

end EditorBridge
