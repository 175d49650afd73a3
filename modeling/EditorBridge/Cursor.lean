/-
The text around a cursor.  The identifier being typed and the token glued behind
the cursor are dropped, and a point or a colon at the end becomes a call that an
analyzer can type.
-/
import EditorBridge.Text.CodePoint

namespace EditorBridge

/-- What is asked for in a completion: visible names, the fields behind a point,
or the methods behind a colon. -/
inductive Access where
  | bare
  | field
  | method
deriving DecidableEq, Repr

def Access.word : Access → String
  | .bare => "normal"
  | .field => "field"
  | .method => "meta"

namespace Cursor

/-- Whether an identifier may start with the code point. -/
def startsName (c : CodePoint) : Bool := c.isIn fun c => c.isAlpha || c == '_'

/-- Whether an identifier may hold the code point. -/
def isNameChar (c : CodePoint) : Bool := startsName c || c.isIn Char.isDigit

/-- What is left of a text without the longest identifier at its end.  A run of
name characters may begin with digits; these stay. -/
def dropNameAtEnd (cs : List CodePoint) : List CodePoint :=
  let run := (cs.reverse.takeWhile isNameChar).reverse
  cs.take (cs.length - run.length) ++ run.takeWhile fun c => !startsName c

/-- What is left of a text without an identifier at its start. -/
def dropNameAtStart? : List CodePoint → Option (List CodePoint)
  | [] => none
  | c :: rest => if startsName c then some (rest.dropWhile isNameChar) else none

/-- What is left of a text without the identifier at its start, and without a
point or a colon in front of that. -/
def dropTokenAtStart (cs : List CodePoint) : List CodePoint :=
  match cs with
  | [] => []
  | c :: rest =>
      if c = .char '.' || c = .char ':' then (dropNameAtStart? rest).getD cs
      else (dropNameAtStart? cs).getD cs

/-- The place in a text that a possibly negative offset means: negative ones
count from the end, and all are kept inside the text. -/
def clampOffset (size : Nat) (offset : Int) : Nat :=
  if offset < 0 then (size + offset).toNat else min offset.toNat size

/-- The text before and behind a cursor, with the identifier under the cursor
dropped on both sides. -/
def split (text : List CodePoint) (offset : Int) : List CodePoint × List CodePoint :=
  let place := clampOffset text.length offset
  (dropNameAtEnd (text.take place), dropTokenAtStart (text.drop place))

/-- Turn a point or a colon at the end into a call, and tell what is asked for. -/
def asCall (before : List CodePoint) : List CodePoint × Access :=
  match before.getLast? with
  | some (.char '.') => (before.dropLast ++ Text.glyphs ['(', ')'], .field)
  | some (.char ':') => (before.dropLast ++ Text.glyphs ['(', ')'], .method)
  | _ => (before, .bare)

end Cursor

end EditorBridge
