/-
Numbers with a binary point: sixty-four bits, of which one is the sign, eleven
the exponent and fifty-two the fraction.  A decimal is read as the nearest of
them, with a half going to the even neighbour.
-/
import EditorBridge.Text.Decimal

namespace EditorBridge.Number

def twoTo (n : Nat) : Nat := Nat.pow 2 n

def tenTo (n : Nat) : Nat := Nat.pow 10 n

/-- A number of the sixty-four bit binary format. -/
structure Binary64 where
  bits : UInt64
deriving DecidableEq, Repr

/-- What the bits of a number stand for: `mantissa * 2 ^ exponent` when finite. -/
inductive Binary64.View where
  | finite (negative : Bool) (mantissa : Nat) (exponent : Int)
  | infinite (negative : Bool)
  | notANumber
deriving DecidableEq, Repr

namespace Binary64

/-- The sign bit. -/
def isNegative (x : Binary64) : Bool := x.bits.toNat ≥ twoTo 63

/-- The eleven exponent bits. -/
def exponentField (x : Binary64) : Nat := x.bits.toNat / twoTo 52 % twoTo 11

/-- The fifty-two fraction bits. -/
def fraction (x : Binary64) : Nat := x.bits.toNat % twoTo 52

/-- Take the bits apart. -/
def view (x : Binary64) : View :=
  if x.exponentField = 2047 then
    if x.fraction = 0 then .infinite x.isNegative else .notANumber
  else if x.exponentField = 0 then .finite x.isNegative x.fraction (-1074)
  else .finite x.isNegative (x.fraction + twoTo 52) (x.exponentField - 1075 : Int)

/-- Put sign, exponent field and fraction together. -/
def ofFields (negative : Bool) (exponentField fraction : Nat) : Binary64 :=
  ⟨UInt64.ofNat ((if negative then twoTo 63 else 0) + exponentField * twoTo 52 + fraction)⟩

def signedZero (negative : Bool) : Binary64 := ofFields negative 0 0

def infinity (negative : Bool) : Binary64 := ofFields negative 2047 0

/-- The quiet value that is no number. -/
def notANumber : Binary64 := ofFields false 2047 (twoTo 51)

/-- Whether the number is zero, of either sign. -/
def isZero (x : Binary64) : Bool := x.exponentField == 0 && x.fraction == 0

/-- The quotient of two naturals rounded to the nearest natural, a half to the
even one. -/
def roundQuotient (num den : Nat) : Nat :=
  let q := num / den
  let r := num % den
  if 2 * r < den then q
  else if den < 2 * r then q + 1
  else q + q % 2

/-- The nearest number to `num / den`, both positive. -/
def ofQuotient (negative : Bool) (num den : Nat) : Binary64 :=
  let scaled (exponent : Int) : Nat × Nat :=
    if exponent < 0 then (num * twoTo exponent.natAbs, den) else (num, den * twoTo exponent.natAbs)
  let guess : Int := (num.log2 : Int) - den.log2 - 53
  let (n, d) := scaled guess
  let exponent := max (-1074) (if n / d < twoTo 53 then guess else guess + 1)
  let (n, d) := scaled exponent
  let mantissa := roundQuotient n d
  let (mantissa, exponent) :=
    if mantissa = twoTo 53 then (twoTo 52, exponent + 1) else (mantissa, exponent)
  if exponent > 971 then infinity negative
  else if mantissa < twoTo 52 then ofFields negative 0 mantissa
  else ofFields negative (exponent + 1075).toNat (mantissa - twoTo 52)

/-- The nearest number to `digits * 10 ^ exponent`. -/
def ofDecimal (negative : Bool) (digits : Nat) (exponent : Int) : Binary64 :=
  let magnitude : Int := (Text.decimal digits).length + exponent
  if digits = 0 || magnitude < -400 then signedZero negative
  else if 400 < magnitude then infinity negative
  else if exponent < 0 then ofQuotient negative digits (tenTo exponent.natAbs)
  else ofQuotient negative (digits * tenTo exponent.natAbs) 1

/-- The integer part, toward zero, of a finite number. -/
def truncate? (x : Binary64) : Option Int :=
  match x.view with
  | .finite negative mantissa exponent =>
      let whole :=
        if exponent < 0 then mantissa / twoTo exponent.natAbs else mantissa * twoTo exponent.natAbs
      some (if negative then -(whole : Int) else whole)
  | _ => none

end Binary64

end EditorBridge.Number
