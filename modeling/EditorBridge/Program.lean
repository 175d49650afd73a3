/-
The program: it reads its arguments, opens its log, loads the analyzer that the
arguments name, and serves its input.  What it writes goes to the editor, to the
error stream, or to a log file when one is named.
-/
import EditorBridge.Arguments
import EditorBridge.FileSystem
import EditorBridge.Registry
import EditorBridge.Server

namespace EditorBridge

/-- What a program leaves when it ends. -/
structure Program.Ending where
  exit : Nat
  sent : List Outgoing := []
  stdout : String := ""
  stderr : String := ""
  logFile : Option (Path × String) := none

namespace Program

/-- The variable of the environment that names the analyzer. -/
def analyzerVariable : String := "NELUA_LSP_ANALYZER"

def report (fields : Json.Fields) : String := Json.printAscii (.obj fields) ++ "\n"

def unconfigured : String :=
  report [("error", .str "No analyzer configured"),
    ("hint", .str ("Pass --analyzer module:attribute or set " ++ analyzerVariable))]

/-- An ending with what goes to the error stream and what goes to the log. -/
def ending (arguments : Arguments) (exit : Nat) (sent : List Outgoing) (stderr : String)
    (log : List Log.Entry) : Ending :=
  match arguments.logFile? with
  | some path => { exit, sent, stderr, logFile := some (path, Log.fileText arguments.verbose log) }
  | none => { exit, sent, stderr := stderr ++ Log.text arguments.verbose log }

/-- The code of a program that was interrupted. -/
def interrupted : Nat := 130

def serve (arguments : Arguments) (host : Host) (input : List UInt8) : Except Fault Ending :=
  let run := Config.run { host, rootOverride := arguments.root? } input
  match run.outcome with
  | .ok exit => .ok (ending arguments exit run.session.sent "" run.session.log)
  | .error fault =>
      if fault.isOrdinary then .error fault
      else .ok (ending arguments interrupted run.session.sent "" run.session.log)

/-- A stage that the program may end at. -/
inductive Stage (α : Type) where
  | ended (ending : Ending)
  | ready (value : α)

def readArguments (environment : Option String) (arguments : List String) : Stage Arguments :=
  match Arguments.parse environment arguments with
  | .help => .ended { exit := 0, stdout := Arguments.help }
  | .refused cause => .ended { exit := 2, stderr := cause.text }
  | .arguments arguments => .ready arguments

/-- Open the log file, if one is named.  Its path is made absolute first. -/
def openLog (fs : FileSystem) (arguments : Arguments) : Except Fault Unit :=
  match arguments.logFile? with
  | none => .ok ()
  | some path => fs.openToAppend path.absolute

def loadHost (registry : Registry Host) (arguments : Arguments) : Except Fault (Stage Host) :=
  match arguments.analyzer?.filter fun spec => !spec.isEmpty with
  | none => .ok (.ended (ending arguments 1 [] unconfigured []))
  | some spec =>
      match registry.load spec with
      | .error (.fault fault) => .error fault
      | .error failure =>
          .ok (.ended (ending arguments 1 [] (report [("error", .str failure.message)]) []))
      | .ok host => .ok (.ready host)

/-- Run the program on its arguments, its environment and its input.  The log is
opened before the analyzer is looked for. -/
def run (registry : Registry Host) (fs : FileSystem) (environment : Option String)
    (arguments : List String) (input : List UInt8) : Except Fault Ending :=
  match readArguments environment arguments with
  | .ended ending => .ok ending
  | .ready arguments => do
      openLog fs arguments
      match ← loadHost registry arguments with
      | .ended ending => .ok ending
      | .ready host => serve arguments host input

end Program

end EditorBridge
