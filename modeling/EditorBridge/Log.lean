/-
The log: what the program says about its own work, one entry a line, each with a
level that decides whether it is shown.
-/
import EditorBridge.Text.CodePoint
import EditorBridge.Text.Hex

namespace EditorBridge

/-- How much an entry matters. -/
inductive Log.Level where
  | debug
  | info
  | warning
  | error
deriving DecidableEq, Repr

/-- One entry of the log. -/
structure Log.Entry where
  level : Log.Level
  message : Text
deriving DecidableEq, Repr

namespace Log

def Level.word : Level → String
  | .debug => "DEBUG"
  | .info => "INFO"
  | .warning => "WARNING"
  | .error => "ERROR"

/-- Whether an entry is shown even when not everything is asked for. -/
def Level.isGrave : Level → Bool
  | .debug | .info => false
  | .warning | .error => true

def Entry.line (entry : Entry) : Text :=
  entry.level.word ++ " nelua_lsp: " ++ entry.message ++ "\n"

/-- The lines that are shown of a log: all of them, or the grave ones only. -/
def lines (verbose : Bool) (entries : List Entry) : List Text :=
  (entries.filter fun entry => verbose || entry.level.isGrave).map Entry.line

/-- A line as the error stream shows it, with lone surrogates escaped. -/
def escaped (line : Text) : String :=
  String.ofList (line.points.flatMap fun
    | .char c => [c]
    | .lone offset => '\\' :: 'u' :: Text.hexDigits 4 (CodePoint.lone offset).toNat)

/-- What the error stream shows of a log. -/
def text (verbose : Bool) (entries : List Entry) : String :=
  String.join ((lines verbose entries).map escaped)

/-- What a log file holds; a line that cannot be encoded is left out. -/
def fileText (verbose : Bool) (entries : List Entry) : String :=
  String.join ((lines verbose entries).filterMap Text.string?)

end Log

end EditorBridge
