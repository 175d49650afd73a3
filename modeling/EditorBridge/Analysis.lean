/-
What comes of a text: the analyzer parses it and then resolves its names, and
either step may fail with an error text that becomes diagnostics.  The analyzer
and the reader of files belong to the host; each answer may depend on all the
calls made before.
-/
import EditorBridge.Fault
import EditorBridge.Log

namespace EditorBridge

/-- A call that was made to the host. -/
inductive Call where
  | parse (text filename : Text)
  | analyze (root : Path)
  | read (uri : Text)
deriving DecidableEq, Repr

/-- Who parses and analyzes programs and reads files.  Each function is given the
calls made before.  Either step of an analysis may end well and leave no tree. -/
structure Host where
  parse : List Call → Text → Text → Except Fault (Option Tree)
  analyze : List Call → Option Tree → Path → Except Fault (Option Tree)
  read : List Call → Text → Except Fault Text

/-- What an analysis leaves: diagnostics, and a tree when there is one. -/
structure Analysis where
  tree : Option Tree
  diagnostics : List Diagnostic

/-- An analysis with the calls it made and what the log says about it. -/
structure Examination where
  outcome : Except Fault Analysis
  calls : List Call
  log : List Log.Entry

/-- What is left of an analysis that failed with an error text. -/
def Analysis.ofReport (tree : Option Tree) (report text : Text) : Except Fault Analysis :=
  match Diagnostic.ofReport report.points (some text.points) with
  | .ok diagnostics => .ok ⟨tree, diagnostics⟩
  | .error cause => .error (.ofReportError cause)

/-- Parse and analyze the text of a document.  Names of other files are looked for
below `root`, or else in the directory of the document. -/
def Host.examine (host : Host) (root : Option Path) (history : List Call)
    (uri text : Text) : Examination :=
  match Uri.toPath uri with
  | .error cause => ⟨.error (.uri cause), [], []⟩
  | .ok path =>
      let parsing := Call.parse text path.text
      match host.parse history text path.text with
      | .error (.parse report) =>
          ⟨Analysis.ofReport none report text, [parsing], [⟨.debug, "Parse failed for " ++ uri⟩]⟩
      | .error fault => ⟨.error fault, [parsing], []⟩
      | .ok parsed =>
          let root := root.getD path.parent
          match host.analyze (history ++ [parsing]) parsed root with
          | .error (.analysis report tree) =>
              ⟨Analysis.ofReport tree report text, [parsing, .analyze root],
                [⟨.debug, "Analysis failed for " ++ uri ++ " (partial tree: "
                  ++ Json.displayBool tree.isSome ++ ")"⟩]⟩
          | .error fault => ⟨.error fault, [parsing, .analyze root], []⟩
          | .ok tree => ⟨.ok ⟨tree, []⟩, [parsing, .analyze root], []⟩

end EditorBridge
