/-
Blank characters: the separators that are trimmed from the ends of a message,
skipped in an error header and allowed around a number.
-/

namespace EditorBridge.Text

/-- The blank characters of Unicode together with the four information
separators `U+001C` to `U+001F`. -/
def isBlank (c : Char) : Bool :=
  let n := c.toNat
  (0x09 ≤ n && n ≤ 0x0d) || (0x1c ≤ n && n ≤ 0x20) || n == 0x85 || n == 0xa0
    || n == 0x1680 || (0x2000 ≤ n && n ≤ 0x200a) || n == 0x2028 || n == 0x2029
    || n == 0x202f || n == 0x205f || n == 0x3000

/-- The blank characters that may stand around a numeral: no information separator
is among them. -/
def isNumeralBlank (c : Char) : Bool :=
  isBlank c && !(0x1c ≤ c.toNat && c.toNat ≤ 0x1f)

/-- Drop what is of a kind at both ends. -/
def trimWhile {α : Type} (p : α → Bool) (cs : List α) : List α :=
  ((cs.dropWhile p).reverse.dropWhile p).reverse

/-- Drop the blank characters at both ends. -/
def trim (cs : List Char) : List Char := trimWhile isBlank cs

@[simp] theorem trim_nil : trim [] = [] := rfl

end EditorBridge.Text
