/-
Shortest decimals.  A binary number is written with the fewest digits that read
back as itself, and of those the nearest to it.
-/
import EditorBridge.Number.Binary64

namespace EditorBridge.Number

/-- The decimal `0.d₁d₂… * 10 ^ point` with the digits of `digits`. -/
structure DecimalForm where
  digits : Nat
  point : Int
deriving DecidableEq, Repr

namespace Shortest

/-- A positive rational as a pair of naturals. -/
abbrev Ratio := Nat × Nat

/-- `n * 10 ^ e` as a quotient. -/
def timesTen (n : Nat) (e : Int) : Ratio :=
  if e < 0 then (n, tenTo e.natAbs) else (n * tenTo e.natAbs, 1)

/-- `n * 2 ^ e` as a quotient. -/
def timesTwo (n : Nat) (e : Int) : Ratio :=
  if e < 0 then (n, twoTo e.natAbs) else (n * twoTo e.natAbs, 1)

def less (a b : Ratio) : Bool := a.1 * b.2 < b.1 * a.2

def atMost (a b : Ratio) : Bool := a.1 * b.2 ≤ b.1 * a.2

/-- The reals that read as one binary number; both ends belong to it or none. -/
structure Interval where
  low : Ratio
  high : Ratio
  closed : Bool

/-- Whether the quotient reads as the number of the interval. -/
def Interval.holds (i : Interval) (x : Ratio) : Bool :=
  if i.closed then atMost i.low x && atMost x i.high else less i.low x && less x i.high

/-- The reals that are nearest to `mantissa * 2 ^ exponent`.  Below a power of
two the neighbour is half as far away. -/
def interval (mantissa : Nat) (exponent : Int) : Interval where
  low :=
    if mantissa = twoTo 52 && exponent > -1074 then timesTwo (4 * mantissa - 1) (exponent - 2)
    else timesTwo (2 * mantissa - 1) (exponent - 1)
  high := timesTwo (2 * mantissa + 1) (exponent - 1)
  closed := mantissa % 2 == 0

/-- The power of ten just above a positive quotient, from a guess that is at
most `fuel` too low. -/
def pointFrom (x : Ratio) : Nat → Int → Int
  | 0, guess => guess
  | fuel + 1, guess => if less x (timesTen 1 guess) then guess else pointFrom x fuel (guess + 1)

/-- The least `p` with the quotient below `10 ^ p`. -/
def point (x : Ratio) : Int :=
  let bits : Int := (x.1.log2 : Int) - x.2.log2
  let guess := Int.fdiv (bits * 3) 10 - 3
  pointFrom x 120 guess

/-- The distance of two quotients, both over the product of their denominators. -/
def gap (a b : Ratio) : Nat × Nat :=
  (((a.1 * b.2 : Nat) - (b.1 * a.2 : Nat) : Int).natAbs, a.2 * b.2)

/-- The candidate with `count` digits, when one of the two neighbours of `x` on
that grid reads back. -/
def candidate? (x : Ratio) (i : Interval) (p : Int) (count : Nat) : Option DecimalForm :=
  let unit : Int := p - count
  let scaled := timesTen 1 unit
  let below := x.1 * scaled.2 / (x.2 * scaled.1)
  let above := below + 1
  let value (n : Nat) := timesTen n unit
  match i.holds (value below) && below != 0, i.holds (value above) with
  | true, true =>
      let down := gap x (value below)
      let up := gap (value above) x
      if less down up then some ⟨below, p⟩
      else if less up down then some ⟨above, p⟩
      else some ⟨below + below % 2, p⟩
  | true, false => some ⟨below, p⟩
  | false, true => some ⟨above, p⟩
  | false, false => none

/-- Drop trailing zeros of a numeral. -/
def dropZeros (cs : List Char) : List Char := (cs.reverse.dropWhile (· == '0')).reverse

/-- The shortest digits of `mantissa * 2 ^ exponent`, a positive number, and the
place of their point. -/
def digits (mantissa : Nat) (exponent : Int) : List Char × Int :=
  let x := timesTwo mantissa exponent
  let i := interval mantissa exponent
  let p := point x
  match (List.range 17).findSome? fun k => (candidate? x i p (k + 1)).map (·, k + 1) with
  | some (form, count) =>
      let numeral := Text.decimal form.digits
      (dropZeros numeral, if numeral.length > count then form.point + 1 else form.point)
  | none => (Text.decimal mantissa, p)

end Shortest

namespace Binary64

/-- Digits with their point: positional between `10 ^ -4` and `10 ^ 16`, with an
exponent of at least two digits otherwise. -/
def layOut (digits : List Char) (point : Int) : List Char :=
  if point > 16 || point ≤ -4 then
    let exponent := point - 1
    let mantissa := match digits with
      | [] => []
      | [d] => [d]
      | d :: more => d :: '.' :: more
    let size := Text.decimal exponent.natAbs
    let padded := if size.length < 2 then '0' :: size else size
    mantissa ++ 'e' :: (if exponent < 0 then '-' else '+') :: padded
  else if point ≤ 0 then
    '0' :: '.' :: List.replicate point.natAbs '0' ++ digits
  else
    let whole := digits.take point.toNat
    let rest := digits.drop point.toNat
    whole ++ List.replicate (point.toNat - digits.length) '0'
      ++ '.' :: (if rest.isEmpty then ['0'] else rest)

/-- The shortest text that reads back as the number. -/
def text (x : Binary64) : String :=
  match x.view with
  | .notANumber => "nan"
  | .infinite negative => if negative then "-inf" else "inf"
  | .finite negative mantissa exponent =>
      let body :=
        if mantissa = 0 then ['0', '.', '0']
        else
          let (digits, point) := Shortest.digits mantissa exponent
          layOut digits point
      String.ofList (if negative then '-' :: body else body)

end Binary64

end EditorBridge.Number
