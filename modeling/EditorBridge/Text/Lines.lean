/-
Lines of a report.  Every Unicode line boundary ends a line, a carriage return
and the line feed behind it count as one boundary, and the boundary itself
belongs to no line.
-/
import EditorBridge.Text.CodePoint

namespace EditorBridge.Text

def isLineBreak (c : Char) : Bool :=
  let n := c.toNat
  (0x0a ≤ n && n ≤ 0x0d) || (0x1c ≤ n && n ≤ 0x1e) || n == 0x85
    || n == 0x2028 || n == 0x2029

/-- The lines of a text.  A boundary at the very end opens no further line. -/
def lines : List CodePoint → List (List CodePoint)
  | [] => []
  | .char '\r' :: .char '\n' :: rest => [] :: lines rest
  | c :: rest =>
      if c.isIn isLineBreak then [] :: lines rest
      else match lines rest with
        | [] => [[c]]
        | line :: more => (c :: line) :: more

@[simp] theorem lines_nil : lines [] = [] := rfl

/-- Newlines as an editor sees them: `\r\n` and a lone `\r` become `\n`. -/
def unifyNewlines : List Char → List Char
  | [] => []
  | '\r' :: '\n' :: rest => '\n' :: unifyNewlines rest
  | c :: rest => (if c = '\r' then '\n' else c) :: unifyNewlines rest

end EditorBridge.Text
