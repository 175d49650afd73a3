/-
Positions in a text.  An editor counts lines from zero and, within a line, the
units of UTF-16; a tree counts code points from the start of the text.  Every
offset of a text has exactly one position, unless a lone surrogate stands before
it on its line, and what is no position of an offset is refused with its cause.
-/
import EditorBridge.Text.Encoding

namespace EditorBridge

/-- A line and a number of UTF-16 units within it, both from zero. -/
structure Position where
  line : Nat
  character : Nat
deriving DecidableEq, Repr

/-- Two positions, the second one past the last character. -/
structure Range where
  start : Position
  stop : Position
deriving DecidableEq, Repr

/-- Two offsets of a text, the second one past the last character. -/
structure Span where
  start : Int
  stop : Int
deriving DecidableEq, Repr

/-- Why a position or an offset is not in a text. -/
inductive PositionError where
  | lineOutside (line : Int) (lines : Nat)
  | negativeCharacter (character : Int)
  | pastLineEnd (character line : Nat)
  | splitsPair (character line : Nat)
  | offsetOutside (offset : Int) (size : Nat)
  | unplaced (tag : String)
  | reported (message : Text)
deriving DecidableEq, Repr

/-- What is reported about a position that is not in a text. -/
def PositionError.message : PositionError → Text
  | .lineOutside line lines =>
      "line " ++ Text.signedText line ++ " is outside the document (0.."
        ++ Text.signedText (lines - 1 : Int) ++ ")"
  | .negativeCharacter character => "negative character " ++ Text.signedText character
  | .pastLineEnd character line =>
      "character " ++ Text.decimalText character ++ " is past the end of line "
        ++ Text.decimalText line
  | .splitsPair character line =>
      "character " ++ Text.decimalText character ++ " splits a surrogate pair on line "
        ++ Text.decimalText line
  | .offsetOutside offset size =>
      "offset " ++ Text.signedText offset ++ " is outside the document (0.."
        ++ Text.decimalText size ++ ")"
  | .unplaced tag => tag ++ " node has no source position"
  | .reported message => message

/-- A coordinate too large for the protocol. -/
inductive CoordinateError where
  | line (value : Nat)
  | character (value : Nat)
deriving DecidableEq, Repr

/-- What is reported about a coordinate that is too large. -/
def CoordinateError.message (e : CoordinateError) : String :=
  let (name, value) := match e with
    | .line value => ("line", value)
    | .character value => ("character", value)
  "Position." ++ name ++ " should be in range [0:2147483647], but was "
    ++ Text.decimalText value ++ "."

/-- Why a range cannot be given to the editor. -/
inductive RangeError where
  | position (cause : PositionError)
  | coordinate (cause : CoordinateError)
  | encoding (cause : Text.EncodeError)
deriving DecidableEq, Repr

/-- The number of UTF-16 units of a code point. -/
def unitWidth (c : CodePoint) : Nat := if 0xffff < c.toNat then 2 else 1

/-- The number of UTF-16 units of a text. -/
def unitLength : List CodePoint → Nat
  | [] => 0
  | c :: rest => unitWidth c + unitLength rest

/-- The number of lines of a text; an empty text has one. -/
def lineCount (text : List CodePoint) : Nat := text.count (.char '\n') + 1

/-- The offsets just behind the newlines of a text that starts at `offset`. -/
def lineStartsFrom (offset : Nat) : List CodePoint → List Nat
  | [] => []
  | c :: rest =>
      if c = .char '\n' then (offset + 1) :: lineStartsFrom (offset + 1) rest
      else lineStartsFrom (offset + 1) rest

/-- The offsets at which the lines of a text start. -/
def lineStarts (text : List CodePoint) : List Nat := 0 :: lineStartsFrom 0 text

/-- What is left of a text from the start of a line on. -/
def dropLines : Nat → List CodePoint → List CodePoint
  | 0, text => text
  | _ + 1, [] => []
  | n + 1, c :: rest => if c = .char '\n' then dropLines n rest else dropLines (n + 1) rest

/-- The code points of one line, without its newline. -/
def lineText (text : List CodePoint) (line : Nat) : List CodePoint :=
  (dropLines line text).takeWhile (· != .char '\n')

/-- The offset at which a line starts. -/
def lineStart (text : List CodePoint) (line : Nat) : Nat :=
  text.length - (dropLines line text).length

namespace Position

/-- The largest coordinate of the protocol. -/
def maxCoordinate : Nat := 2147483647

/-- The position behind one more code point. -/
def step (p : Position) (c : CodePoint) : Position :=
  if c = .char '\n' then ⟨p.line + 1, 0⟩ else ⟨p.line, p.character + unitWidth c⟩

/-- The position behind a text. -/
def behind (text : List CodePoint) : Position := text.foldl step ⟨0, 0⟩

/-- What stands behind the last newline. -/
def lastLine (text : List CodePoint) : List CodePoint :=
  (text.reverse.takeWhile (· != .char '\n')).reverse

/-- The position of an offset.  What stands before it on its line is encoded to be measured. -/
def ofOffset (text : List CodePoint) (offset : Int) : Except RangeError Position :=
  if offset < 0 || (text.length : Int) < offset then
    .error (.position (.offsetOutside offset text.length))
  else match Text.refusal? .utf16 (lastLine (text.take offset.toNat)) with
    | some cause => .error (.encoding cause)
    | none => .ok (behind (text.take offset.toNat))

/-- Why a number of units leads to no code point of a line. -/
inductive SeekError where
  | pastEnd
  | insidePair
deriving DecidableEq, Repr

/-- How many code points of the line in front make up so many units. -/
def seek : Nat → List CodePoint → Except SeekError Nat
  | 0, _ => .ok 0
  | _ + 1, [] => .error .pastEnd
  | n + 1, c :: rest =>
      if c = .char '\n' then .error .pastEnd
      else if unitWidth c ≤ n + 1 then (seek (n + 1 - unitWidth c) rest).map (· + 1)
      else .error .insidePair

/-- The offset of a position. -/
def toOffset (text : List CodePoint) (line character : Int) : Except PositionError Nat :=
  if line < 0 || (lineCount text : Int) ≤ line then
    .error (.lineOutside line (lineCount text))
  else if character < 0 then .error (.negativeCharacter character)
  else match seek character.toNat (dropLines line.toNat text) with
    | .ok n => .ok (lineStart text line.toNat + n)
    | .error .pastEnd => .error (.pastLineEnd character.toNat line.toNat)
    | .error .insidePair => .error (.splitsPair character.toNat line.toNat)

/-- Refuse a position with a coordinate that is too large, the line first. -/
def check (p : Position) : Except CoordinateError Position :=
  if maxCoordinate < p.line then .error (.line p.line)
  else if maxCoordinate < p.character then .error (.character p.character)
  else .ok p

/-- The position of an offset, as the protocol takes it. -/
def place (text : List CodePoint) (offset : Int) : Except RangeError Position := do
  let p ← ofOffset text offset
  p.check.mapError .coordinate

/-- Lines first, then characters. -/
protected def le (p q : Position) : Prop :=
  p.line < q.line ∨ (p.line = q.line ∧ p.character ≤ q.character)

/-- Lines first, then characters, strictly. -/
protected def lt (p q : Position) : Prop :=
  p.line < q.line ∨ (p.line = q.line ∧ p.character < q.character)

instance : LE Position := ⟨Position.le⟩

instance : LT Position := ⟨Position.lt⟩

end Position

def Range.ofSpan (text : List CodePoint) (span : Span) : Except RangeError Range := do
  let start ← Position.place text span.start
  let stop ← Position.place text span.stop
  .ok ⟨start, stop⟩

end EditorBridge
