/-
File paths.  A path is a root and the names below it: empty names and the name
`.` are dropped when it is read, the name `..` is kept, and exactly two slashes
at the front make a root of their own.
-/
import EditorBridge.Text.Encoding
import EditorBridge.Text.Split

namespace EditorBridge

/-- What a path starts from. -/
inductive Path.Root where
  | relative
  | slash
  | doubleSlash
deriving DecidableEq, Repr

/-- A file path. -/
structure Path where
  root : Path.Root
  names : List Text
deriving DecidableEq, Repr

namespace Path

/-- How the root is written. -/
def Root.text : Root → Text
  | .relative => ""
  | .slash => "/"
  | .doubleSlash => "//"

/-- The root that a run of slashes at the front stands for. -/
def rootOfSlashes : Nat → Root
  | 0 => .relative
  | 2 => .doubleSlash
  | _ => .slash

def ofText (text : Text) : Path :=
  let names := (Text.splitAt (.char '/') text.points).filter fun name =>
    name != [] && name != [.char '.']
  ⟨rootOfSlashes (text.points.takeWhile (· == .char '/')).length, names.map Text.mk⟩

/-- The text of a path; the empty relative path is `.`. -/
def text (path : Path) : Text :=
  let body := path.root.text ++ Text.join "/" path.names
  if body.isEmpty then "." else body

/-- The directory of a path.  A root is its own directory. -/
def parent (path : Path) : Path := ⟨path.root, path.names.dropLast⟩

/-- The names that are left when every `..` has taken back the name before it. -/
def collapse (names : List Text) : List Text :=
  (names.foldl (fun kept (name : Text) => if name = ".." then kept.drop 1 else name :: kept)
    []).reverse

/-- The absolute form of a path by its names alone, with relative paths counted from
the root directory. -/
def absolute (path : Path) : Path :=
  ⟨if path.root = .relative then .slash else path.root, collapse path.names⟩

/-- The octet that a lone surrogate stands for in the name of a file. -/
def strayOctet? (offset : Fin 0x800) : Option UInt8 :=
  if 0x480 ≤ offset.val ∧ offset.val < 0x500 then some (UInt8.ofNat (offset.val - 0x400)) else none

/-- The octets that name a file. -/
def octetsFrom (start : Nat) : List CodePoint → Except Text.EncodeError (List UInt8)
  | [] => .ok []
  | .char c :: rest => (octetsFrom (start + 1) rest).map (String.utf8EncodeChar c ++ ·)
  | .lone offset :: rest =>
      match strayOctet? offset with
      | some octet => (octetsFrom (start + 1) rest).map (octet :: ·)
      | none => .error ⟨.utf8, start, offset, Text.Codec.utf8.run rest⟩

def octets (text : Text) : Except Text.EncodeError (List UInt8) := octetsFrom 0 text.points

/-- A path that no file can have. -/
inductive ResolveError where
  | embeddedNul
  | encoding (cause : Text.EncodeError)
deriving DecidableEq, Repr

/-- What is reported about a path that no file can have. -/
def ResolveError.message : ResolveError → String
  | .embeddedNul => "embedded null byte"
  | .encoding cause => cause.message

/-- Refuse a text that names no file. -/
def checkText (text : Text) : Except ResolveError Unit :=
  match octets text with
  | .error cause => .error (.encoding cause)
  | .ok _ => if text.points.contains (.char '\x00') then .error .embeddedNul else .ok ()

/-- Follow the names of a path and look at every file on the way.  `kept` holds the names that
lead to the place that was reached, the last one first. -/
def follow (isRelative : Bool) (kept : List Text) : List Text → Except ResolveError Unit
  | [] => .ok ()
  | name :: rest =>
      if name = ".." then
        let back := if isRelative && (kept.isEmpty || kept.head? = some "..") then name :: kept
          else kept.drop 1
        follow isRelative back rest
      else
        match checkText
            ((if isRelative then "" else "/") ++ Text.join "/" (name :: kept).reverse) with
        | .error cause => .error cause
        | .ok () => follow isRelative (name :: kept) rest

/-- The absolute form of a path, with relative paths counted from the root
directory and no `..` left. -/
def resolve (path : Path) : Except ResolveError Path :=
  match follow (path.root == .relative) [] path.names with
  | .error cause => .error cause
  | .ok () => .ok ⟨.slash, collapse path.names⟩

end Path

end EditorBridge
