/-
What can go wrong while a message is served.  Most faults are ordinary: they end
the work on one message and are reported.  An interrupt ends the whole program.
-/
import EditorBridge.Diagnostic
import EditorBridge.Json.Display
import EditorBridge.Tree.Graph
import EditorBridge.Uri

namespace EditorBridge

/-- The cause of a failure.  `other` is what an analyzer or a reader of files
reports under a name of its own. -/
inductive Fault where
  | position (cause : PositionError)
  | coordinate (cause : CoordinateError)
  | numeral (cause : Text.NumeralTooLong)
  | encoding (cause : Text.EncodeError)
  | unwritable
  | uri (cause : Uri.UriError)
  | path (cause : Path.ResolveError)
  | declaration (cause : Graph.DeclareError)
  | parse (report : Text)
  | analysis (report : Text) (tree : Option Tree)
  | rpc (code : Int) (message : Text) (data : Json)
  | noFile (file : Text)
  | isDirectory (file : Text)
  | notDirectory (file : Text)
  | nameTooLong (file : Text)
  | missingMethod (value : Json) (method : String)
  | unusableMethod (value : Json)
  | relativeModule (name : Text)
  | frameTooLong
  | endlessOutline
  | interrupt (message : Text)
  | other (kind : String) (message : Text)

namespace Fault

def ofRange : RangeError → Fault
  | .position cause => .position cause
  | .coordinate cause => .coordinate cause
  | .encoding cause => .encoding cause

/-- The fault of an error text that gives no diagnostics. -/
def ofReportError : Diagnostic.ReportError → Fault
  | .numeral cause => .numeral cause
  | .range cause => ofRange cause

def kind : Fault → String
  | .position _ => "PositionError"
  | .encoding _ | .path (.encoding _) => "UnicodeEncodeError"
  | .coordinate _ | .numeral _ | .unwritable | .uri _ | .path .embeddedNul | .declaration _ =>
      "ValueError"
  | .parse _ => "ParseError"
  | .analysis _ _ => "AnalysisError"
  | .rpc _ _ _ => "JsonRpcError"
  | .noFile _ => "FileNotFoundError"
  | .isDirectory _ => "IsADirectoryError"
  | .notDirectory _ => "NotADirectoryError"
  | .nameTooLong _ => "OSError"
  | .missingMethod _ _ => "AttributeError"
  | .unusableMethod _ | .relativeModule _ => "TypeError"
  | .frameTooLong => "OverflowError"
  | .endlessOutline => "RecursionError"
  | .interrupt _ => "KeyboardInterrupt"
  | .other kind _ => kind

def message : Fault → Text
  | .position cause => cause.message
  | .coordinate cause => cause.message
  | .numeral cause => cause.message
  | .encoding cause => cause.message
  | .unwritable => Text.unwritableMessage
  | .uri cause => cause.message
  | .path cause => cause.message
  | .declaration cause => cause.message
  | .parse report => report
  | .analysis report _ => report
  | .rpc code message _ => "JSON-RPC error " ++ Text.signedText code ++ ": " ++ message
  | .noFile file => "[Errno 2] No such file or directory: " ++ Text.quoted file
  | .isDirectory file => "[Errno 21] Is a directory: " ++ Text.quoted file
  | .notDirectory file => "[Errno 20] Not a directory: " ++ Text.quoted file
  | .nameTooLong file => "[Errno 36] File name too long: " ++ Text.quoted file
  | .missingMethod value method =>
      "'" ++ value.kindName ++ "' object has no attribute '" ++ method ++ "'"
  | .unusableMethod value => "unhashable type: '" ++ value.kindName ++ "'"
  | .relativeModule name =>
      "the 'package' argument is required to perform a relative import for " ++ Text.quoted name
  | .frameTooLong => "cannot fit 'int' into an index-sized integer"
  | .endlessOutline => "maximum recursion depth exceeded"
  | .interrupt message => message
  | .other _ message => message

/-- Whether the fault ends only the work on one message. -/
def isOrdinary : Fault → Bool
  | .interrupt _ => false
  | _ => true

end Fault

end EditorBridge
