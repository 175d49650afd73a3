/-
The arguments of the command line.  A long switch may be cut short as long as only
one switch starts that way, a value may follow behind an equals sign, and letters
may be run together.  Two dashes behind an equals sign take the value of a switch
away.  What is left over is refused at the end.
-/
import EditorBridge.Path
import EditorBridge.Text.DecimalDigit
import EditorBridge.Text.Quoted

namespace EditorBridge

/-- What is known about the value of a switch: nothing, that it was taken away, or
the value that was given last. -/
inductive Setting (α : Type) where
  | unset
  | emptied
  | given (value : α)
deriving DecidableEq, Repr

namespace Setting

variable {α : Type}

def ofOption : Option α → Setting α
  | none => .unset
  | some value => .given value

/-- The value that counts.  One that was taken away is replaced. -/
def value? (replacement : Option α) : Setting α → Option α
  | .unset => none
  | .emptied => replacement
  | .given value => some value

@[simp] theorem value?_ofOption (replacement value : Option α) :
    (ofOption value).value? replacement = value := by
  cases value <;> rfl

end Setting

/-- What the arguments say. -/
structure Arguments where
  analyzer : Setting String := .unset
  root : Setting Path := .unset
  verbose : Bool := false
  logFile : Setting Path := .unset
deriving DecidableEq, Repr

/-- The switches there are. -/
inductive Switch where
  | help
  | analyzer
  | root
  | verbose
  | logFile
deriving DecidableEq, Repr

namespace Switch

/-- All spellings of the switches, in order. -/
def spellings : List (String × Switch) :=
  [("-h", .help), ("--help", .help), ("--analyzer", .analyzer), ("--root", .root),
    ("-v", .verbose), ("--verbose", .verbose), ("--log-file", .logFile)]

def name (switch : Switch) : String :=
  "/".intercalate ((spellings.filter fun entry => entry.2 == switch).map Prod.fst)

def takesValue : Switch → Bool
  | .help | .verbose => false
  | .analyzer | .root | .logFile => true

/-- The switch of a letter. -/
def ofLetter? (c : Char) : Option Switch := spellings.lookup (String.ofList ['-', c])

end Switch

namespace Arguments

/-- Why arguments are refused. -/
inductive UsageError where
  | ambiguous (argument : String) (spellings : List String)
  | expectsValue (switch : Switch)
  | ignoredValue (switch : Switch) (value : String)
  | unrecognized (arguments : List String)
deriving DecidableEq, Repr

/-- What is reported about arguments that are refused. -/
def UsageError.message : UsageError → String
  | .ambiguous argument spellings =>
      "ambiguous option: " ++ argument ++ " could match " ++ ", ".intercalate spellings
  | .expectsValue switch => "argument " ++ switch.name ++ ": expected one argument"
  | .ignoredValue switch value =>
      "argument " ++ switch.name ++ ": ignored explicit argument " ++ Text.quoted value
  | .unrecognized arguments => "unrecognized arguments: " ++ " ".intercalate arguments

/-- What an argument is.  A long switch may have a value attached to it, and the
letter of a switch more letters. -/
inductive Word where
  | plain
  | switch (switch : Switch)
  | switchWith (switch : Switch) (value : List Char)
  | letters (switch : Switch) (more : List Char)
  | unknown
deriving DecidableEq, Repr

/-- Whether a text is a negative number, maybe with a line end behind it. -/
def isNegativeNumber : List Char → Bool
  | '-' :: rest =>
      let body := if rest.getLast? = some '\n' then rest.dropLast else rest
      let fraction := body.dropWhile Text.isDigit
      match fraction with
      | [] => !body.isEmpty
      | '.' :: digits => !digits.isEmpty && digits.all Text.isDigit
      | _ => false
  | _ => false

/-- The word of an argument that starts like a switch and is none. -/
def strayWord (cs : List Char) : Word :=
  if isNegativeNumber cs || cs.contains ' ' then .plain else .unknown

/-- The word of a switch with its value, if it has one attached. -/
def switchWord (switch : Switch) (value : Option (List Char)) : Word :=
  match value with
  | none => .switch switch
  | some value => .switchWith switch value

/-- The word of an argument with two dashes: a spelling, or the start of just one. -/
def longWord (argument : String) : Except UsageError Word :=
  let cs := argument.toList
  let start := cs.takeWhile (· != '=')
  let value := if start = cs then none else some (cs.drop (start.length + 1))
  match Switch.spellings.lookup argument, Switch.spellings.lookup (String.ofList start) with
  | some switch, _ => .ok (.switch switch)
  | none, some switch => .ok (switchWord switch value)
  | none, none =>
      match Switch.spellings.filter fun entry => start.isPrefixOf entry.1.toList with
      | [] => .ok (strayWord cs)
      | [entry] => .ok (switchWord entry.2 value)
      | entries => .error (.ambiguous argument (entries.map Prod.fst))

/-- The word of an argument with one dash and a letter.  An equals sign may divide
the letter from the letters behind it. -/
def shortWord (cs : List Char) (letter : Char) (rest : List Char) : Word :=
  match Switch.ofLetter? letter, rest with
  | none, _ => strayWord cs
  | some switch, [] => .switch switch
  | some switch, '=' :: more => .letters switch more
  | some switch, more => .letters switch more

def word (argument : String) : Except UsageError Word :=
  match argument.toList with
  | '-' :: '-' :: _ => longWord argument
  | '-' :: letter :: rest => .ok (shortWord argument.toList letter rest)
  | _ => .ok .plain

/-- The words of all arguments.  Behind two dashes nothing is a switch. -/
def words : List String → Except UsageError (List (String × Word))
  | [] => .ok []
  | "--" :: rest => .ok (("--", .unknown) :: rest.map fun argument => (argument, .plain))
  | argument :: rest => do
      let first ← word argument
      let others ← words rest
      .ok ((argument, first) :: others)

/-- The switches whose letters are run together with a first one.  From a letter on
that is no switch, the text is a value, which no switch with a letter takes. -/
def letters (switch : Switch) : List Char → Except UsageError (List Switch)
  | [] => .error (.ignoredValue switch "")
  | letter :: rest =>
      match Switch.ofLetter? letter with
      | none => .error (.ignoredValue switch (String.ofList (letter :: rest)))
      | some next =>
          if rest.isEmpty then .ok [switch, next]
          else (letters next rest).map (switch :: ·)

/-- What comes of the arguments: what they say, a call for help, or a refusal. -/
inductive Outcome where
  | arguments (arguments : Arguments)
  | help
  | refused (cause : UsageError)
deriving DecidableEq, Repr

def settingOf {α : Type} (read : String → α) (value : String) : Setting α :=
  if value = "--" then .emptied else .given (read value)

/-- Take a switch with its value. -/
def withValue (arguments : Arguments) (switch : Switch) (value : String) : Arguments :=
  match switch with
  | .analyzer => { arguments with analyzer := settingOf id value }
  | .root => { arguments with root := settingOf (fun value => Path.ofText value) value }
  | .logFile => { arguments with logFile := settingOf (fun value => Path.ofText value) value }
  | .help | .verbose => arguments

/-- Take the words one after another.  `left` holds what is left over so far. -/
def take (arguments : Arguments) (left : List String) : List (String × Word) → Outcome
  | [] => if left.isEmpty then .arguments arguments else .refused (.unrecognized left)
  | (argument, .plain) :: rest | (argument, .unknown) :: rest =>
      take arguments (left ++ [argument]) rest
  | (_, .switch .help) :: _ => .help
  | (_, .switch .verbose) :: rest => take { arguments with verbose := true } left rest
  | (_, .switch switch) :: (value, .plain) :: rest =>
      take (arguments.withValue switch value) left rest
  | (_, .switch switch) :: _ => .refused (.expectsValue switch)
  | (_, .switchWith switch value) :: rest =>
      let value := String.ofList value
      if switch.takesValue then take (arguments.withValue switch value) left rest
      else .refused (.ignoredValue switch value)
  | (_, .letters switch more) :: rest =>
      match letters switch more with
      | .error cause => .refused cause
      | .ok switches =>
          if switches.contains .help then .help
          else take { arguments with verbose := true } left rest

/-- Read the arguments, given the analyzer that is named by the environment. -/
def parse (environment : Option String) (arguments : List String) : Outcome :=
  match words arguments with
  | .error cause => .refused cause
  | .ok found => take { analyzer := .ofOption environment } [] found

/-- The path that stands for one that was taken away: a list of nothing. -/
def emptiedPath : Path := ⟨.relative, ["[]"]⟩

def analyzer? (arguments : Arguments) : Option String := arguments.analyzer.value? none

/-- Where names of other files are looked for, whatever the editor says. -/
def root? (arguments : Arguments) : Option Path := arguments.root.value? (some emptiedPath)

def logFile? (arguments : Arguments) : Option Path := arguments.logFile.value? (some emptiedPath)

def usage : String :=
  "usage: nelua_lsp [-h] [--analyzer ANALYZER] [--root ROOT] [-v]\n" ++
  "                 [--log-file LOG_FILE]\n"

def help : String :=
  usage ++
  "\nLanguage server for Nelua, speaking LSP over stdin/stdout.\n" ++
  "\noptions:\n" ++
  "  -h, --help           show this help message and exit\n" ++
  "  --analyzer ANALYZER  Analyzer to drive, as module:attribute (default:\n" ++
  "                       $NELUA_LSP_ANALYZER)\n" ++
  "  --root ROOT          Override module search root\n" ++
  "  -v, --verbose        Enable verbose logging\n" ++
  "  --log-file LOG_FILE  Write logs here instead of stderr\n"

/-- What is written about arguments that are refused. -/
def UsageError.text (cause : UsageError) : String :=
  usage ++ "nelua_lsp: error: " ++ cause.message ++ "\n"

end Arguments

end EditorBridge
