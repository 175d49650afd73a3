/-
UTF-8.  One octet sequence is examined at a time: it either gives a character,
or it is refused at the first octet that no character continues with.  Strict
reading reports the first refusal; lenient reading puts one replacement
character in the place of every refused sequence.
-/
import EditorBridge.Text.Decimal
import EditorBridge.Text.Quoted

namespace EditorBridge.Text.Utf8

/-- Why a sequence of octets is no character. -/
inductive Refusal where
  | invalidStart
  | invalidContinuation
  | unexpectedEnd
deriving DecidableEq, Repr

/-- What the octets at a place begin with.  `more` counts the octets behind the
first that belong to the character or to the refused sequence. -/
inductive Head where
  | char (c : Char) (more : Nat)
  | refused (cause : Refusal) (more : Nat)
deriving DecidableEq, Repr

/-- Whether the octet can continue a character. -/
def isContinuation (octet : UInt8) : Bool := 0x80 ≤ octet.toNat && octet.toNat < 0xc0

/-- The six bits that a continuation octet carries. -/
def payload (octet : UInt8) : Nat := octet.toNat % 64

/-- Whether `second` may follow the first octet of a three-octet character:
overlong forms and surrogates are left out. -/
def allowsSecondOfThree (first : Nat) (second : UInt8) : Bool :=
  isContinuation second
    && (if second.toNat < 0xa0 then first != 0xe0 else first != 0xed)

/-- Whether `second` may follow the first octet of a four-octet character:
overlong forms and code points past the last one are left out. -/
def allowsSecondOfFour (first : Nat) (second : UInt8) : Bool :=
  isContinuation second
    && (if second.toNat < 0x90 then first != 0xf0 else first != 0xf4)

def headOfTwo (first : Nat) : List UInt8 → Head
  | [] => .refused .unexpectedEnd 0
  | b :: _ =>
      if isContinuation b then .char (Char.ofNat (first % 32 * 64 + payload b)) 1
      else .refused .invalidContinuation 0

def headOfThree (first : Nat) : List UInt8 → Head
  | [] => .refused .unexpectedEnd 0
  | b :: rest =>
      if !allowsSecondOfThree first b then .refused .invalidContinuation 0
      else match rest with
        | [] => .refused .unexpectedEnd 1
        | c :: _ =>
            if isContinuation c then
              .char (Char.ofNat (first % 16 * 4096 + payload b * 64 + payload c)) 2
            else .refused .invalidContinuation 1

def headOfFour (first : Nat) : List UInt8 → Head
  | [] => .refused .unexpectedEnd 0
  | b :: rest =>
      if !allowsSecondOfFour first b then .refused .invalidContinuation 0
      else match rest with
        | [] => .refused .unexpectedEnd 1
        | c :: rest =>
            if !isContinuation c then .refused .invalidContinuation 1
            else match rest with
              | [] => .refused .unexpectedEnd 2
              | d :: _ =>
                  if isContinuation d then
                    .char (Char.ofNat
                      (first % 8 * 262144 + payload b * 4096 + payload c * 64 + payload d)) 3
                  else .refused .invalidContinuation 2

/-- Examine the octets that begin with `first`. -/
def head (first : UInt8) (rest : List UInt8) : Head :=
  let n := first.toNat
  if n < 0x80 then .char (Char.ofNat n) 0
  else if n < 0xc2 then .refused .invalidStart 0
  else if n < 0xe0 then headOfTwo n rest
  else if n < 0xf0 then headOfThree n rest
  else if n < 0xf5 then headOfFour n rest
  else .refused .invalidStart 0

/-- A refused sequence in its place: it starts at `start` with `octet` and is
`more + 1` octets long. -/
structure DecodeError where
  cause : Refusal
  start : Nat
  octet : UInt8
  more : Nat
deriving DecidableEq, Repr

def DecodeError.message (e : DecodeError) : String :=
  let place :=
    if e.more = 0 then
      "byte 0x" ++ String.ofList (hexDigits 2 e.octet.toNat)
        ++ " in position " ++ decimalText e.start
    else
      "bytes in position " ++ decimalText e.start ++ "-" ++ decimalText (e.start + e.more)
  let cause := match e.cause with
    | .invalidStart => "invalid start byte"
    | .invalidContinuation => "invalid continuation byte"
    | .unexpectedEnd => "unexpected end of data"
  "'utf-8' codec can't decode " ++ place ++ ": " ++ cause

/-- Read octets that begin at place `start` of a message. -/
def decodeFrom (start : Nat) : List UInt8 → Except DecodeError (List Char)
  | [] => .ok []
  | b :: rest =>
      match head b rest with
      | .char c more => (decodeFrom (start + more + 1) (rest.drop more)).map (c :: ·)
      | .refused cause more => .error ⟨cause, start, b, more⟩
termination_by octets => octets.length
decreasing_by
  simp only [List.length_drop, List.length_cons]
  omega

/-- Strict reading: the text, or the first refusal. -/
def decode (octets : List UInt8) : Except DecodeError (List Char) := decodeFrom 0 octets

/-- Lenient reading: a replacement character for every refused sequence. -/
def decodeLenient : List UInt8 → List Char
  | [] => []
  | b :: rest =>
      match head b rest with
      | .char c more => c :: decodeLenient (rest.drop more)
      | .refused _ more => '\ufffd' :: decodeLenient (rest.drop more)
termination_by octets => octets.length
decreasing_by
  all_goals
    simp only [List.length_drop, List.length_cons]
    omega

def encode (cs : List Char) : List UInt8 := cs.flatMap String.utf8EncodeChar

end EditorBridge.Text.Utf8
