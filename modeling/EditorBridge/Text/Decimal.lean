/-
Decimal numerals.  A number is written with no leading zero and read in any
script; the reader also takes blanks around the numeral, a sign in front of it
and single underscores between its digits.
-/
import EditorBridge.Text.Blank
import EditorBridge.Text.DecimalDigit

namespace EditorBridge.Text

def decimal (n : Nat) : List Char :=
  if n < 10 then [Char.ofNat (0x30 + n)]
  else decimal (n / 10) ++ [Char.ofNat (0x30 + n % 10)]
termination_by n
decreasing_by omega

/-- The decimal numeral of an integer. -/
def signedDecimal : Int → List Char
  | .ofNat n => decimal n
  | .negSucc n => '-' :: decimal (n + 1)

/-- The decimal numeral of a natural number, as a string. -/
def decimalText (n : Nat) : String := String.ofList (decimal n)

/-- The decimal numeral of an integer, as a string. -/
def signedText (n : Int) : String := String.ofList (signedDecimal n)

/-- The longest numeral that is converted to a number, or that a number is written as. -/
def maxNumeralDigits : Nat := 4300

/-- Whether the numeral of a number is not too long. -/
def IsConvertible (n : Nat) : Prop := n < Nat.pow 10 maxNumeralDigits

instance (n : Nat) : Decidable (IsConvertible n) :=
  inferInstanceAs (Decidable (n < Nat.pow 10 maxNumeralDigits))

/-- The decimal numeral of an integer, unless it is too long to be written. -/
def numeral? (n : Int) : Option String :=
  if IsConvertible n.natAbs then some (signedText n) else none

/-- What is reported about an integer that is too long to be written. -/
def unwritableMessage : String :=
  "Exceeds the limit (4300 digits) for integer string conversion; "
    ++ "use sys.set_int_max_str_digits() to increase the limit"

/-- A numeral too long to be converted. -/
structure NumeralTooLong where
  digits : Nat
deriving DecidableEq, Repr

/-- What is reported about a numeral that is too long. -/
def NumeralTooLong.message (e : NumeralTooLong) : String :=
  "Exceeds the limit (4300 digits) for integer string conversion: value has "
    ++ decimalText e.digits
    ++ " digits; use sys.set_int_max_str_digits() to increase the limit"

/-- The value of a run of digits, unless the run is too long. -/
def readDigits (cs : List Char) : Except NumeralTooLong Nat :=
  if maxNumeralDigits < cs.length then .error ⟨cs.length⟩ else .ok (digitsValue cs)

/-- Digits with single underscores between them, underscores dropped. -/
def groupedDigits? : List Char → Option (List Char)
  | [] => none
  | [c] => if isDigit c then some [c] else none
  | c :: '_' :: rest => if isDigit c then (groupedDigits? rest).map (c :: ·) else none
  | c :: rest => if isDigit c then (groupedDigits? rest).map (c :: ·) else none

/-- A natural number as a person may type it. -/
def readNat? (cs : List Char) : Option Nat := do
  let digits ← groupedDigits? cs
  if maxNumeralDigits < digits.length then none else some (digitsValue digits)

/-- An integer as a person may type it: blanks around it, an optional sign, and
underscores between digits are accepted. -/
def readInt? (cs : List Char) : Option Int :=
  match trimWhile isNumeralBlank cs with
  | '-' :: rest => (readNat? rest).map fun n => -(n : Int)
  | '+' :: rest => (readNat? rest).map Int.ofNat
  | rest => (readNat? rest).map Int.ofNat

end EditorBridge.Text
