/-
Document URIs.  A `file` URI names a path; every other URI is taken for a path
as it stands, so that each document has one.
-/
import EditorBridge.Path
import EditorBridge.Uri.Authority
import EditorBridge.Uri.Percent

namespace EditorBridge.Uri

/-- The letters that every file URI starts with. -/
def fileMark : List Char := "file://".toList

/-- Whether a code point ends the authority. -/
def endsAuthority (c : CodePoint) : Bool := c == .char '/' || c == .char '?' || c == .char '#'

/-- Whether a code point ends the path. -/
def endsPath (c : CodePoint) : Bool := c == .char '?' || c == .char '#'

/-- Whether a code point is passed over wherever it stands in a URI. -/
def isDropped (c : CodePoint) : Bool := c == .char '\t' || c == .char '\n' || c == .char '\r'

/-- The path of a document. -/
def toPath (uri : Text) : Except UriError Path :=
  if (Text.glyphs fileMark).isPrefixOf uri.points then do
    let body := (uri.points.drop fileMark.length).filter fun c => !isDropped c
    checkAuthority (body.takeWhile fun c => !endsAuthority c)
    let path := (body.dropWhile fun c => !endsAuthority c).takeWhile fun c => !endsPath c
    .ok (Path.ofText ⟨percentDecode path⟩)
  else .ok (Path.ofText uri)

/-- The URI of a file. -/
def ofPath (path : Path) : Except Path.ResolveError Text := do
  let absolute ← path.resolve
  let octets ← (Path.octets absolute.text).mapError Path.ResolveError.encoding
  .ok (Text.ofChars (fileMark ++ percentEncode octets))

end EditorBridge.Uri
