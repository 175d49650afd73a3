/-
The authority of a URI, the part between the two slashes and the path.  When it has
brackets, its host has to be an address, and no character of the authority may turn
into a delimiter when its compatibility forms are taken.
-/
import EditorBridge.Text.DecimalDigit
import EditorBridge.Text.Quoted
import EditorBridge.Text.Split

namespace EditorBridge.Uri

/-- Why a URI is refused. -/
inductive UriError where
  | misplacedBrackets
  | badFutureAddress
  | plainAddressInBrackets
  | noAddress (host : Text)
  | hiddenDelimiter (authority : Text)
deriving DecidableEq, Repr

def UriError.message : UriError → Text
  | .misplacedBrackets => "Invalid IPv6 URL"
  | .badFutureAddress => "IPvFuture address is invalid"
  | .plainAddressInBrackets => "An IPv4 address cannot be in brackets"
  | .noAddress host => Text.quoted host ++ " does not appear to be an IPv4 or IPv6 address"
  | .hiddenDelimiter authority =>
      "netloc '" ++ authority ++ "' contains invalid characters under NFKC normalization"

/-- A number of a dotted address: up to three digits, no leading zero, at most
255. -/
def isOctet (part : List CodePoint) : Bool :=
  !part.isEmpty && part.all (·.isIn Text.isAsciiDigit) && part.length ≤ 3
    && (part == [.char '0'] || part.head? != some (.char '0'))
    && part.foldl (fun n c => 10 * n + (c.toNat - 0x30)) 0 ≤ 255

/-- A dotted address of four numbers. -/
def isDottedAddress (host : List CodePoint) : Bool :=
  let parts := Text.splitAt (.char '.') host
  parts.length == 4 && parts.all isOctet

/-- A group of a colon address: up to four hexadecimal digits. -/
def isGroup (part : List CodePoint) : Bool :=
  !part.isEmpty && part.length ≤ 4 && part.all (·.isIn Text.isHexDigit)

/-- The groups of a colon address; a dotted address at the end counts as two. -/
def groups? (host : List CodePoint) : Option (List (List CodePoint)) :=
  let parts := Text.splitAt (.char ':') host
  let last := parts.getLast?.getD []
  if parts.length < 3 then none
  else if last.contains (.char '.') then
    if isDottedAddress last then some (parts.dropLast ++ [[.char '0'], [.char '0']]) else none
  else some parts

/-- Whether the groups make an address: eight of them, or fewer around one empty
place. -/
def isGroupList (parts : List (List CodePoint)) : Bool :=
  let inner := (parts.drop 1).dropLast
  match (inner.zipIdx 1).filter (fun entry => entry.1.isEmpty) with
  | [] => parts.length == 8 && parts.all isGroup
  | [(_, skip)] =>
      let front := parts.take skip
      let back := parts.drop (skip + 1)
      let frontOk := front == [[]] || front.all isGroup
      let backOk := back == [[]] || back.all isGroup
      let size (side : List (List CodePoint)) : Nat := if side == [[]] then 0 else side.length
      frontOk && backOk && parts.length ≤ 9 && size front + size back < 8
  | _ => false

/-- A colon address, with an optional zone behind a percent sign. -/
def isColonAddress (host : List CodePoint) : Bool :=
  let address := host.takeWhile (· != .char '%')
  let zone := host.dropWhile (· != .char '%')
  let zoneOk := zone.isEmpty || (zone.length > 1 && !(zone.drop 1).contains (.char '%'))
  zoneOk && match groups? address with
    | none => false
    | some parts => isGroupList parts

/-- An address of a future version: `v`, a hexadecimal version, a point and at
least one character. -/
def isFutureAddress (host : List CodePoint) : Bool :=
  let version := host.drop 1
  match version.takeWhile (·.isIn Text.isHexDigit), version.dropWhile (·.isIn Text.isHexDigit) with
  | [], _ => false
  | _, .char '.' :: rest => !rest.isEmpty
  | _, _ => false

/-- Check the host of an authority with brackets. -/
def checkBracketed (host : List CodePoint) : Except UriError Unit :=
  if host.head? = some (.char 'v') then
    if isFutureAddress host then .ok () else .error .badFutureAddress
  else if isDottedAddress host then .error .plainAddressInBrackets
  else if isColonAddress host then .ok ()
  else .error (.noAddress ⟨host⟩)

/-- The characters whose compatibility form holds a delimiter of URIs. -/
def delimiterForms : List Nat :=
  [0x2047, 0x2048, 0x2049, 0x2100, 0x2101, 0x2105, 0x2106, 0x2a74, 0xfe13, 0xfe16, 0xfe55,
    0xfe56, 0xfe5f, 0xfe6b, 0xff03, 0xff0f, 0xff1a, 0xff1f, 0xff20]

/-- What an authority says behind the user, who stands before its last `@`. -/
def behindUser (authority : List CodePoint) : List CodePoint :=
  (authority.reverse.takeWhile (· != .char '@')).reverse

/-- The host of a text with an opening bracket.  Nothing may stand before the bracket,
and what follows the closing one has to start with a colon. -/
def bracketedHost? (text : List CodePoint) : Option (List CodePoint) :=
  match text with
  | .char '[' :: bracketed =>
      let behind := (bracketed.dropWhile (· != .char ']')).drop 1
      if behind.isEmpty || behind.head? == some (.char ':') then
        some (bracketed.takeWhile (· != .char ']'))
      else none
  | _ => none

/-- The host of an authority that has brackets; they may also stand in front of the
last `@`, and the host is then bare. -/
def hostInBrackets? (authority : List CodePoint) : Option (List CodePoint) :=
  let text := behindUser authority
  if text.contains (.char '[') then bracketedHost? text else some (text.takeWhile (· != .char ':'))

def checkBrackets (authority : List CodePoint) : Except UriError Unit :=
  match authority.contains (.char '['), authority.contains (.char ']') with
  | false, false => .ok ()
  | true, true =>
      match hostInBrackets? authority with
      | some host => checkBracketed host
      | none => .error .misplacedBrackets
  | _, _ => .error .misplacedBrackets

/-- Check an authority: its brackets first, then its hidden delimiters. -/
def checkAuthority (authority : List CodePoint) : Except UriError Unit := do
  checkBrackets authority
  if authority.any fun c => delimiterForms.contains c.toNat then
    .error (.hiddenDelimiter ⟨authority⟩)
  else .ok ()

end EditorBridge.Uri
