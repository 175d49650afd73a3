/-
Percent encoding: an octet that may not stand for itself is written as a
percent sign and two hexadecimal digits.
-/
import EditorBridge.Text.Utf8

namespace EditorBridge.Uri

/-- Whether the octet stands for itself in an encoded path. -/
def isPlain (octet : UInt8) : Bool :=
  let n := octet.toNat
  (0x61 ≤ n && n ≤ 0x7a) || (0x41 ≤ n && n ≤ 0x5a) || (0x30 ≤ n && n ≤ 0x39)
    || n == 0x5f || n == 0x2e || n == 0x2d || n == 0x7e || n == 0x2f

/-- The hexadecimal digit of a value below sixteen, in upper case. -/
def upperHexDigit (n : Nat) : Char :=
  if n < 10 then Char.ofNat (0x30 + n) else Char.ofNat (0x41 + (n - 10))

/-- How an octet is written in an encoded path. -/
def encodeOctet (octet : UInt8) : List Char :=
  if isPlain octet then [Char.ofNat octet.toNat]
  else ['%', upperHexDigit (octet.toNat / 16), upperHexDigit (octet.toNat % 16)]

def percentEncode (octets : List UInt8) : List Char := octets.flatMap encodeOctet

/-- The octet that two hexadecimal digits denote. -/
def octet? (high low : Char) : Option UInt8 := do
  let high ← Text.hexValue? high
  let low ← Text.hexValue? low
  some (UInt8.ofNat (high * 16 + low))

/-- The octets of ASCII text.  A percent sign without two digits behind it
stands for itself. -/
def percentOctets : List Char → List UInt8
  | [] => []
  | '%' :: high :: low :: rest =>
      match octet? high low with
      | some octet => octet :: percentOctets rest
      | none => 0x25 :: percentOctets (high :: low :: rest)
  | c :: rest => UInt8.ofNat c.toNat :: percentOctets rest

def isAscii (c : CodePoint) : Bool := c.toNat < 0x80

/-- Decode a text.  Each run of ASCII is decoded by itself, leniently; all else
stands for itself. -/
def percentDecode (points : List CodePoint) : List CodePoint :=
  match points with
  | [] => []
  | c :: rest =>
      if isAscii c then
        Text.glyphs (Text.Utf8.decodeLenient
            (percentOctets (Text.chars (c :: rest.takeWhile isAscii))))
          ++ percentDecode (rest.dropWhile isAscii)
      else c :: percentDecode rest
termination_by points.length
decreasing_by
  · have := (List.dropWhile_suffix (l := rest) isAscii).length_le
    simp only [List.length_cons]
    omega
  · simp

end EditorBridge.Uri
