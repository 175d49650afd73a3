/-
Files as the server sees them: the octets under each path below the root
directory, and the directories there are besides.  A path is followed name by name,
so that every directory on the way has to be there.  Paths and names are of limited
length, counted in octets.
-/
import EditorBridge.Fault
import EditorBridge.Text.Lines
import EditorBridge.Text.Utf8

namespace EditorBridge

/-- The files there are, each with the names that lead to it from the root, and
directories that may be empty. -/
structure FileSystem where
  files : List (List Text × List UInt8) := []
  directories : List (List Text) := []

namespace FileSystem

/-- What a path leads to. -/
inductive Entry where
  | directory
  | file (octets : List UInt8)
  | missing
deriving DecidableEq, Repr

/-- What the names from the root lead to. -/
def entry (fs : FileSystem) (names : List Text) : Entry :=
  match fs.files.find? fun file => file.1 == names with
  | some file => .file file.2
  | none =>
      if names.isEmpty || fs.directories.any names.isPrefixOf
          || fs.files.any fun file => names.isPrefixOf file.1 then .directory
      else .missing

/-- The most octets that a name can have. -/
def maxNameOctets : Nat := 255

/-- The most octets that a path can have. -/
def maxPathOctets : Nat := 4095

/-- The octets of a name or of a path. -/
def octets (text : Text) : Except Fault (List UInt8) :=
  (Path.octets text).mapError fun cause => .path (.encoding cause)

/-- Follow names from a place, given by the names that lead to it.  What may be
missing is the last one only.  A name that is too long shows when its directory is
reached. -/
def follow (fs : FileSystem) (path : Text) (place : List Text) :
    List Text → Except Fault Entry
  | [] => .ok (fs.entry place)
  | name :: rest =>
      match fs.entry place with
      | .directory => do
          if maxNameOctets < (← octets name).length then .error (.nameTooLong path)
          else fs.follow path (if name = ".." then place.dropLast else place ++ [name]) rest
      | .file _ => .error (.notDirectory path)
      | .missing => .error (.noFile path)

/-- The text in the octets of a file: what is no text is replaced, and every line
ends in a newline. -/
def decodeText (octets : List UInt8) : Text :=
  .ofChars (Text.unifyNewlines (Text.Utf8.decodeLenient octets))

/-- What a path leads to, when every directory on the way is there. -/
def find (fs : FileSystem) (path : Path) : Except Fault Entry := do
  let octets ← octets path.text
  if octets.contains 0 then .error (.path .embeddedNul)
  else if maxPathOctets < octets.length then .error (.nameTooLong path.text)
  else fs.follow path.text [] path.names

def read (fs : FileSystem) (path : Path) : Except Fault Text := do
  match ← fs.find path with
  | .directory => .error (.isDirectory path.text)
  | .file octets => .ok (decodeText octets)
  | .missing => .error (.noFile path.text)

/-- Open a file to write at its end.  A missing one is made, so that only its
directory has to be there. -/
def openToAppend (fs : FileSystem) (path : Path) : Except Fault Unit := do
  match ← fs.find path with
  | .directory => .error (.isDirectory path.text)
  | .file _ | .missing => .ok ()

def readUri (fs : FileSystem) (uri : Text) : Except Fault Text :=
  match Uri.toPath uri with
  | .error cause => .error (.uri cause)
  | .ok path => fs.read path

end FileSystem

end EditorBridge
