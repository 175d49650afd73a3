/-
Reading JSON text.  The reader goes from left to right and stops at the first
place where the text cannot go on; the report names that place.  Beyond the
grammar it takes the names of what is no finite number, and of two fields with
one key the later value counts.
-/
import EditorBridge.Json.Value
import EditorBridge.Text.Hex

namespace EditorBridge.Json

/-- What the reader missed or refused. -/
inductive Complaint where
  | expectingValue
  | expectingKey
  | expectingColon
  | expectingComma
  | unterminatedString
  | controlCharacter
  | badEscape
  | badUnicodeEscape
  | extraData
  | byteOrderMark
deriving DecidableEq, Repr

def Complaint.message : Complaint → String
  | .expectingValue => "Expecting value"
  | .expectingKey => "Expecting property name enclosed in double quotes"
  | .expectingColon => "Expecting ':' delimiter"
  | .expectingComma => "Expecting ',' delimiter"
  | .unterminatedString => "Unterminated string starting at"
  | .controlCharacter => "Invalid control character at"
  | .badEscape => "Invalid \\escape"
  | .badUnicodeEscape => "Invalid \\uXXXX escape"
  | .extraData => "Extra data"
  | .byteOrderMark => "Unexpected UTF-8 BOM (decode using utf-8-sig)"

/-- Why a reading stopped: a complaint with the number of characters from the
place of the fault to the end, or a numeral too long to be converted. -/
inductive Stop where
  | complaint (what : Complaint) (left : Nat)
  | numeral (tooLong : Text.NumeralTooLong)
deriving DecidableEq, Repr

/-- The outcome of reading a part of a text: what was read, and what is left. -/
abbrev Reading (α : Type) := Except Stop (α × List Char)

/-- Whether the character may stand between two parts of a JSON text. -/
def isSpace (c : Char) : Bool := c == ' ' || c == '\t' || c == '\n' || c == '\r'

def skipSpace (cs : List Char) : List Char := cs.dropWhile isSpace

/-- The unit that four hexadecimal digits denote. -/
def unit? : List Char → Option Nat
  | a :: b :: c :: d :: _ => do
      let a ← Text.hexValue? a
      let b ← Text.hexValue? b
      let c ← Text.hexValue? c
      let d ← Text.hexValue? d
      some (a * 4096 + b * 256 + c * 16 + d)
  | _ => none

/-- The character behind a backslash that stands for one other character. -/
def unescape? (c : Char) : Option Char :=
  if c = '\x22' then some '\x22'
  else if c = '\\' then some '\\'
  else if c = '/' then some '/'
  else if c = 'b' then some '\x08'
  else if c = 'f' then some '\x0c'
  else if c = 'n' then some '\n'
  else if c = 'r' then some '\r'
  else if c = 't' then some '\t'
  else none

/-- Whether the unit is the first of a surrogate pair. -/
def isHighUnit (n : Nat) : Bool := 0xd800 ≤ n && n < 0xdc00

/-- Whether the unit is the second of a surrogate pair. -/
def isLowUnit (n : Nat) : Bool := 0xdc00 ≤ n && n < 0xe000

/-- The code point of a unit that stands alone. -/
def pointOfUnit (n : Nat) : CodePoint :=
  if isHighUnit n || isLowUnit n then .lone (Fin.ofNat 0x800 (n - 0xd800))
  else .char (Char.ofNat n)

def pointOfPair (high low : Nat) : CodePoint :=
  .char (Char.ofNat (0x10000 + (high - 0xd800) * 0x400 + (low - 0xdc00)))

/-- The code point of an escaped unit.  A second escape behind it is taken along when
the two units are a pair; `rest` is what follows the first one. -/
def joinUnits (high : Nat) (rest : List Char) : Reading CodePoint :=
  if isHighUnit high && !(rest.drop 6).isEmpty && "\\u".toList.isPrefixOf rest then
    match unit? (rest.drop 2) with
    | none => .error (.complaint .badUnicodeEscape (rest.length - 1))
    | some low =>
        if isLowUnit low then .ok (pointOfPair high low, rest.drop 6)
        else .ok (pointOfUnit high, rest)
  else .ok (pointOfUnit high, rest)

theorem length_joinUnits {high : Nat} {rest left : List Char} {c : CodePoint}
    (h : joinUnits high rest = .ok (c, left)) : left.length ≤ rest.length := by
  unfold joinUnits at h
  split at h
  · split at h
    · simp at h
    · split at h <;> rw [Except.ok.injEq, Prod.mk.injEq] at h <;> simp [← h.2]
  · rw [Except.ok.injEq, Prod.mk.injEq] at h
    simp [← h.2]

/-- Read an escape that gives a code unit, from behind its letter `u` on.  Some
character has to follow the digits. -/
def readUnicodeEscape (digits : List Char) : Reading CodePoint :=
  match unit? digits, digits.drop 4 with
  | some high, next :: more => joinUnits high (next :: more)
  | _, _ => .error (.complaint .badUnicodeEscape (digits.length + 1))

theorem length_readUnicodeEscape {digits left : List Char} {c : CodePoint}
    (h : readUnicodeEscape digits = .ok (c, left)) : left.length ≤ digits.length := by
  unfold readUnicodeEscape at h
  split at h
  next high next more hunit hmore =>
    have hjoin := length_joinUnits h
    rw [← hmore, List.length_drop] at hjoin
    omega
  · simp at h

/-- Read the rest of a string; `opened` is what follows its opening quote. -/
def readPoints (opened : List Char) : List Char → Reading (List CodePoint)
  | [] => .error (.complaint .unterminatedString (opened.length + 1))
  | c :: rest =>
      if c = '\x22' then .ok ([], rest)
      else if c = '\\' then
        match rest with
        | [] => .error (.complaint .unterminatedString (opened.length + 1))
        | e :: more =>
            if e = 'u' then
              match _h : readUnicodeEscape more with
              | .error stop => .error stop
              | .ok (d, left) => (readPoints opened left).map fun (ds, left) => (d :: ds, left)
            else match unescape? e with
              | none => .error (.complaint .badEscape (more.length + 2))
              | some d => (readPoints opened more).map fun (ds, left) => (.char d :: ds, left)
      else if c.toNat < 0x20 then .error (.complaint .controlCharacter (rest.length + 1))
      else (readPoints opened rest).map fun (ds, left) => (.char c :: ds, left)
termination_by cs => cs.length
decreasing_by
  · have := length_readUnicodeEscape _h
    simp only [List.length_cons] at this ⊢
    omega
  · simp only [List.length_cons]
    omega
  · simp

/-- Read a string from behind its opening quote. -/
def readString (cs : List Char) : Reading Text :=
  (readPoints cs cs).map fun (ds, left) => (⟨ds⟩, left)

/-- The fraction of a numeral: a point with a digit behind it. -/
def spanFraction : List Char → List Char × List Char
  | '.' :: rest =>
      match rest.takeWhile Text.isAsciiDigit with
      | [] => ([], '.' :: rest)
      | digits => (digits, rest.dropWhile Text.isAsciiDigit)
  | rest => ([], rest)

/-- The exponent of a numeral, when it has digits. -/
def spanExponent (cs : List Char) : Option Int × List Char :=
  match cs with
  | e :: rest =>
      if e = 'e' || e = 'E' then
        let (negative, digits) := match rest with
          | '-' :: more => (true, more)
          | '+' :: more => (false, more)
          | more => (false, more)
        match digits.takeWhile Text.isAsciiDigit with
        | [] => (none, cs)
        | ds =>
            let size : Int := Text.digitsValue ds
            (some (if negative then -size else size), digits.dropWhile Text.isAsciiDigit)
      else (none, cs)
  | [] => (none, cs)

/-- The whole part of a numeral: zero, or digits that begin with another. -/
def spanWhole : List Char → List Char × List Char
  | '0' :: rest => (['0'], rest)
  | cs => (cs.takeWhile Text.isAsciiDigit, cs.dropWhile Text.isAsciiDigit)

/-- Read a numeral of given sign; `left` counts from its first character. -/
def readNumeral (negative : Bool) (left : Nat) (cs : List Char) : Reading Json :=
  let (whole, rest) := spanWhole cs
  if whole.isEmpty then .error (.complaint .expectingValue left)
  else
    let (fraction, rest) := spanFraction rest
    let (exponent, rest) := spanExponent rest
    if fraction.isEmpty && exponent.isNone then
      match Text.readDigits whole with
      | .error tooLong => .error (.numeral tooLong)
      | .ok n => .ok (.int (if negative then -(n : Int) else n), rest)
    else
      let size := Text.digitsValue (whole ++ fraction)
      let power := exponent.getD 0 - fraction.length
      .ok (.float (Number.Binary64.ofDecimal negative size power), rest)

/-- The names a value may begin with, and the values they stand for. -/
def names : List (List Char × Json) :=
  [("null".toList, .null), ("true".toList, .bool true), ("false".toList, .bool false),
    ("NaN".toList, .float Number.Binary64.notANumber),
    ("Infinity".toList, .float (Number.Binary64.infinity false)),
    ("-Infinity".toList, .float (Number.Binary64.infinity true))]

def readScalar (cs : List Char) : Reading Json :=
  match names.find? fun entry => entry.1.isPrefixOf cs with
  | some (name, value) => .ok (value, cs.drop name.length)
  | none =>
      match cs with
      | '-' :: rest => readNumeral true cs.length rest
      | _ => readNumeral false cs.length cs

mutual

/-- Read a value.  `fuel` bounds the nesting and the number of parts. -/
def readValue : Nat → List Char → Reading Json
  | 0, cs => .error (.complaint .expectingValue cs.length)
  | fuel + 1, cs =>
      match cs with
      | '\x22' :: rest => (readString rest).map fun (s, left) => (.str s, left)
      | '[' :: rest =>
          match skipSpace rest with
          | ']' :: left => .ok (.arr [], left)
          | rest => (readItems fuel rest).map fun (items, left) => (.arr items, left)
      | '\x7b' :: rest =>
          match skipSpace rest with
          | '\x7d' :: left => .ok (.obj [], left)
          | rest => (readFields fuel [] rest).map fun (fields, left) => (.obj fields, left)
      | _ => readScalar cs

/-- Read the items of an array up to its closing bracket. -/
def readItems : Nat → List Char → Reading (List Json)
  | 0, cs => .error (.complaint .expectingValue cs.length)
  | fuel + 1, cs =>
      match readValue fuel cs with
      | .error stop => .error stop
      | .ok (item, rest) =>
          match skipSpace rest with
          | ']' :: left => .ok ([item], left)
          | ',' :: rest =>
              (readItems fuel (skipSpace rest)).map fun (items, left) => (item :: items, left)
          | rest => .error (.complaint .expectingComma rest.length)

/-- Read the fields of an object up to its closing brace, behind those in `seen`. -/
def readFields : Nat → Fields → List Char → Reading Fields
  | 0, _, cs => .error (.complaint .expectingKey cs.length)
  | fuel + 1, seen, '\x22' :: cs =>
      match readString cs with
      | .error stop => .error stop
      | .ok (key, rest) =>
          match skipSpace rest with
          | ':' :: rest =>
              match readValue fuel (skipSpace rest) with
              | .error stop => .error stop
              | .ok (value, rest) =>
                  let fields := Fields.set seen key value
                  match skipSpace rest with
                  | '\x7d' :: left => .ok (fields, left)
                  | ',' :: rest => readFields fuel fields (skipSpace rest)
                  | rest => .error (.complaint .expectingComma rest.length)
          | rest => .error (.complaint .expectingColon rest.length)
  | _ + 1, _, cs => .error (.complaint .expectingKey cs.length)

end

/-- Why a text is no JSON: a complaint at a place of the text, or a numeral too
long to be converted. -/
inductive ReadError where
  | malformed (what : Complaint) (place line column : Nat)
  | numeral (tooLong : Text.NumeralTooLong)
deriving DecidableEq, Repr

/-- What is reported about a text that is no JSON. -/
def ReadError.message : ReadError → String
  | .malformed what place line column =>
      what.message ++ ": line " ++ Text.decimalText line ++ " column "
        ++ Text.decimalText column ++ " (char " ++ Text.decimalText place ++ ")"
  | .numeral tooLong => tooLong.message

/-- Name the line and the column of a place, both counted from one. -/
def ReadError.at (what : Complaint) (text : List Char) (place : Nat) : ReadError :=
  let before := text.take place
  let column := (before.reverse.takeWhile (· != '\n')).length + 1
  .malformed what place (before.count '\n' + 1) column

/-- Read a whole text as one JSON value. -/
def parse (text : List Char) : Except ReadError Json :=
  if text.head? = some '\ufeff' then .error (.at .byteOrderMark text 0)
  else match readValue (2 * text.length + 2) (skipSpace text) with
    | .error (.complaint what left) => .error (.at what text (text.length - left))
    | .error (.numeral tooLong) => .error (.numeral tooLong)
    | .ok (value, rest) =>
        match skipSpace rest with
        | [] => .ok value
        | rest => .error (.at .extraData text (text.length - rest.length))

end EditorBridge.Json
