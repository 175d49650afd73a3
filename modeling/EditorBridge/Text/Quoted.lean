/-
Quoted text, as it stands in a report about a name, a path or a message.  The
single quote is the usual mark; a text that holds one and no double quote is
put between double quotes.  What cannot be shown is escaped, and so is every
lone surrogate.
-/
import EditorBridge.Text.CodePoint
import EditorBridge.Text.Hex
import EditorBridge.Text.Printable

namespace EditorBridge.Text

namespace Quoted

/-- The mark that needs the fewest escapes, with the single quote preferred. -/
def mark (points : List CodePoint) : Char :=
  if points.contains (.char '\x27') && !points.contains (.char '\x22') then '\x22' else '\x27'

/-- How a character stands between two marks. -/
def escapeChar (quote c : Char) : List Char :=
  if c = quote || c = '\\' then ['\\', c]
  else if c = '\t' then ['\\', 't']
  else if c = '\n' then ['\\', 'n']
  else if c = '\r' then ['\\', 'r']
  else if isPrintable c then [c]
  else if c.toNat < 0x100 then '\\' :: 'x' :: hexDigits 2 c.toNat
  else if c.toNat < 0x10000 then '\\' :: 'u' :: hexDigits 4 c.toNat
  else '\\' :: 'U' :: hexDigits 8 c.toNat

/-- How a code point stands between two marks. -/
def escape (quote : Char) : CodePoint → List Char
  | .char c => escapeChar quote c
  | .lone offset => '\\' :: 'u' :: hexDigits 4 (CodePoint.lone offset).toNat

end Quoted

/-- A text between quotes, with what cannot be shown escaped. -/
def quoted (text : Text) : String :=
  let quote := Quoted.mark text.points
  String.ofList (quote :: text.points.flatMap (Quoted.escape quote) ++ [quote])

/-- A list of texts, each quoted, between square brackets. -/
def quotedList (texts : List Text) : String :=
  "[" ++ ", ".intercalate (texts.map quoted) ++ "]"

end EditorBridge.Text
