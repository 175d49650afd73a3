/-
The documents of a session.  A document holds the text that came last and what
its analysis gave, and the editor is told the diagnostics of that same analysis.
A trial run on another text touches neither.
-/
import EditorBridge.Completion
import EditorBridge.Session

namespace EditorBridge

namespace Session

/-- Whether a document is at hand. -/
def holds (s : Session) (uri : Text) : Bool := s.documents.contains uri

/-- Where a document's names of other files are looked for. -/
def searchRoot (s : Session) (uri : Text) : Except Uri.UriError Path :=
  match s.root with
  | some root => .ok root
  | none => (Uri.toPath uri).map Path.parent

end Session

namespace Config

open Serving

/-- Parse and analyze a text. -/
def examine (cfg : Config) (uri text : Text) : Serving Analysis := do
  let s ← get
  let found := cfg.host.examine s.root s.calls uri text
  set { s with calls := s.calls ++ found.calls, log := s.log ++ found.log }
  lift found.outcome

/-- Read the text of a document that the editor did not send. -/
def readText (cfg : Config) (uri : Text) : Serving Text := do
  let s ← get
  set { s with calls := s.calls ++ [Call.read uri] }
  lift (cfg.host.read s.calls uri)

/-- Tell the editor the diagnostics of a document, if it is to be told. -/
def publish (cfg : Config) (uri : Text) (diagnostics : List Diagnostic) : Serving Unit :=
  if cfg.publishes then send (.diagnostics uri diagnostics) else pure ()

/-- Analyze a text and keep it as that of the document. -/
def refresh (cfg : Config) (uri text : Text) : Serving Document := do
  let analysis ← cfg.examine uri text
  let document : Document := ⟨uri, text, analysis.tree⟩
  modify fun s => { s with documents := s.documents.insert uri document }
  note .info ("Analyzed " ++ uri ++ ": " ++ Text.decimalText analysis.diagnostics.length
    ++ " diagnostics")
  cfg.publish uri analysis.diagnostics
  return document

/-- Analyze a text on trial, as if it were that of the document. -/
def probe (cfg : Config) (uri text : Text) : Serving (Option Tree) := do
  let analysis ← cfg.examine uri text
  note .debug ("Transient analysis of " ++ uri ++ ": tree="
    ++ Json.displayBool analysis.tree.isSome)
  return analysis.tree

/-- The document of a URI, which is read first when it is not at hand. -/
def document (cfg : Config) (uri : Text) : Serving Document := do
  match (← get).documents.get? uri with
  | some document => return document
  | none =>
      note .debug ("Document " ++ uri ++ " not cached; reading from disk")
      let text ← cfg.readText uri
      cfg.refresh uri text

/-- Forget a document, and tell whether it was at hand. -/
def close (uri : Text) : Serving Bool := do
  let known := (← get).holds uri
  modify fun s => { s with documents := s.documents.erase uri }
  return known

/-- The offset of a position in a document. -/
def offsetOf (text : Text) (line character : Int) : Serving Nat :=
  lift ((Position.toOffset text.points line character).mapError Fault.position)

/-- The completion items at a position of a document.  They are taken from a trial
run on the text without the identifier at the cursor. -/
def complete (cfg : Config) (uri : Text) (line character : Int) :
    Serving (List CompletionItem) := do
  let document ← cfg.document uri
  let offset ← offsetOf document.text line character
  let (left, behind) := Cursor.split document.text.points offset
  let (before, mode) := Cursor.asCall left
  match ← cfg.probe uri ⟨before ++ behind⟩ with
  | none => return []
  | some tree =>
      match tree.locationAt (before.length - 1 : Nat) with
      | none => return []
      | some location =>
          let items := tree.graph.completions location mode
          note .debug ("Completion " ++ uri ++ " mode=" ++ mode.word ++ ": "
            ++ Text.decimalText items.length ++ " items")
          return items

end Config

end EditorBridge
