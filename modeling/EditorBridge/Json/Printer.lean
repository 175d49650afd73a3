/-
Compact JSON text: no blanks, fields in their order, and in a string only the
quote, the backslash and the controls below the space escaped.  The text is written
in code points, because a string may hold lone surrogates, or in characters, with
these escaped.
-/
import EditorBridge.Json.Value
import EditorBridge.Text.Quoted

namespace EditorBridge.Json

/-- How a character stands in a string of JSON text. -/
def escape (c : Char) : List Char :=
  if c = '\x22' then ['\\', '\x22']
  else if c = '\\' then ['\\', '\\']
  else if c = '\n' then ['\\', 'n']
  else if c = '\r' then ['\\', 'r']
  else if c = '\t' then ['\\', 't']
  else if c = '\x0c' then ['\\', 'f']
  else if c = '\x08' then ['\\', 'b']
  else if c.toNat < 0x20 then '\\' :: 'u' :: Text.hexDigits 4 c.toNat
  else [c]

/-- How a character stands in a string of JSON text that is ASCII throughout:
what lies past the tilde becomes one or two escaped units. -/
def escapeAscii (c : Char) : List Char :=
  if c.toNat < 0x7f then escape c
  else if c.toNat < 0x10000 then '\\' :: 'u' :: Text.hexDigits 4 c.toNat
  else
    let high := 0xd800 + (c.toNat - 0x10000) / 0x400
    let low := 0xdc00 + (c.toNat - 0x10000) % 0x400
    '\\' :: 'u' :: Text.hexDigits 4 high ++ '\\' :: 'u' :: Text.hexDigits 4 low

/-- How a code point stands in a string of JSON text. -/
def escapePoint : CodePoint → List CodePoint
  | .char c => Text.glyphs (escape c)
  | .lone offset => [.lone offset]

/-- How a code point stands in a string of JSON text that is ASCII throughout. -/
def escapePointAscii : CodePoint → List Char
  | .char c => escapeAscii c
  | .lone offset => '\\' :: 'u' :: Text.hexDigits 4 (CodePoint.lone offset).toNat

/-- What JSON text is written in: the marks and numerals, and the code points of strings. -/
structure Script (κ : Type) where
  glyph : Char → κ
  escape : CodePoint → List κ

def wireScript : Script CodePoint := ⟨.char, escapePoint⟩

def asciiScript : Script Char := ⟨id, escapePointAscii⟩

variable {κ : Type}

/-- A string of JSON text. -/
def printString (script : Script κ) (s : Text) : List κ :=
  script.glyph '\x22' :: s.points.flatMap script.escape ++ [script.glyph '\x22']

/-- A number with a point, an exponent, or one of the names of what is no
finite number. -/
def printFloat (x : Number.Binary64) : List Char :=
  match x.view with
  | .notANumber => "NaN".toList
  | .infinite negative => if negative then "-Infinity".toList else "Infinity".toList
  | .finite _ _ _ => x.text.toList

mutual

/-- JSON text of a value. -/
def printWith (script : Script κ) : Json → List κ
  | .null => ['n', 'u', 'l', 'l'].map script.glyph
  | .bool true => ['t', 'r', 'u', 'e'].map script.glyph
  | .bool false => ['f', 'a', 'l', 's', 'e'].map script.glyph
  | .int n => (Text.signedDecimal n).map script.glyph
  | .float x => (printFloat x).map script.glyph
  | .str s => printString script s
  | .arr items => script.glyph '[' :: printItems script items
  | .obj fields => script.glyph '\x7b' :: printFields script fields

/-- The items of an array and its closing bracket. -/
def printItems (script : Script κ) : List Json → List κ
  | [] => [script.glyph ']']
  | item :: rest => printWith script item ++ printMoreItems script rest

/-- The further items of an array, each behind a comma. -/
def printMoreItems (script : Script κ) : List Json → List κ
  | [] => [script.glyph ']']
  | item :: rest => script.glyph ',' :: printWith script item ++ printMoreItems script rest

/-- The fields of an object and its closing brace. -/
def printFields (script : Script κ) : Fields → List κ
  | [] => [script.glyph '\x7d']
  | (key, value) :: rest =>
      printString script key ++ script.glyph ':' :: printWith script value
        ++ printMoreFields script rest

/-- The further fields of an object, each behind a comma. -/
def printMoreFields (script : Script κ) : Fields → List κ
  | [] => [script.glyph '\x7d']
  | (key, value) :: rest =>
      script.glyph ',' :: printString script key ++ script.glyph ':' :: printWith script value
        ++ printMoreFields script rest

end

/-- The compact text of a value. -/
def print (value : Json) : Text := ⟨printWith wireScript value⟩

/-- The compact text of a value in ASCII. -/
def printAscii (value : Json) : String := String.ofList (printWith asciiScript value)

end EditorBridge.Json
