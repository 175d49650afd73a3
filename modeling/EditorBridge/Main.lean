/-
The command line.
-/
import EditorBridge.Program

namespace EditorBridge.Main

def analyzers : Registry Host := {}

/-- Read a stream to its end. -/
partial def readToEnd (stream : IO.FS.Stream) (found : ByteArray) : IO ByteArray := do
  let chunk ← stream.read 65536
  if chunk.isEmpty then return found else readToEnd stream (found ++ chunk)

def openLog (arguments : Arguments) : IO (Option IO.FS.Handle) := do
  match arguments.logFile?.bind fun path => path.text.string? with
  | none => return none
  | some name => return some (← IO.FS.Handle.mk name .append)

/-- Write what a program leaves to its streams and its log file. -/
def deliver (logFile : Option IO.FS.Handle) (ending : Program.Ending) : IO UInt32 := do
  let stdout ← IO.getStdout
  let stderr ← IO.getStderr
  for message in ending.sent do
    match message.octets with
    | .error _ => pure ()
    | .ok octets => stdout.write (ByteArray.mk octets.toArray)
  stdout.putStr ending.stdout
  stdout.flush
  stderr.putStr ending.stderr
  match logFile, ending.logFile with
  | some file, some (_, log) => file.putStr log
  | _, _ => pure ()
  return UInt32.ofNat ending.exit

def abandon (fault : Fault) : IO UInt32 := do
  (← IO.getStderr).putStrLn (fault.kind ++ ": " ++ Log.escaped fault.message)
  return 1

/-- Run the server on the standard streams.  The input is read only when there is
an analyzer to serve it with. -/
def run (arguments : List String) : IO UInt32 := do
  let environment ← IO.getEnv Program.analyzerVariable
  match Program.readArguments environment arguments with
  | .ended ending => deliver none ending
  | .ready arguments =>
      let logFile ← openLog arguments
      match Program.loadHost analyzers arguments with
      | .error fault => abandon fault
      | .ok (.ended ending) => deliver logFile ending
      | .ok (.ready host) =>
          let input ← readToEnd (← IO.getStdin) ByteArray.empty
          match Program.serve arguments host input.toList with
          | .error fault => abandon fault
          | .ok ending => deliver logFile ending

end EditorBridge.Main

def main (arguments : List String) : IO UInt32 := EditorBridge.Main.run arguments
