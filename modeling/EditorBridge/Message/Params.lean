/-
The parameters of messages.  How parameters are read is a matter of its own: a reader
gives what a message needs, or reports why it cannot be had.  The lenient reader takes
numbers also as truth values, fractions or numerals, and any value for a string; what
it cannot read it counts field by field, and reports the count.
-/
import EditorBridge.Fault

namespace EditorBridge.Params

/-- What a query about a place needs. -/
structure PositionParams where
  uri : Text
  position : Position
deriving DecidableEq, Repr

/-- What the opening of a document brings. -/
structure OpenParams where
  uri : Text
  text : Text
deriving DecidableEq, Repr

/-- What a change of a document brings: the texts it had, one after another. -/
structure ChangeParams where
  uri : Text
  texts : List Text
deriving DecidableEq, Repr

def readInt? : Json → Option Int
  | .bool b => some (if b then 1 else 0)
  | .int n => some n
  | .float x => x.truncate?
  | .str s => s.chars?.bind Text.readInt?
  | _ => none

def readBetween? (least greatest : Int) (value : Json) : Option Int :=
  (readInt? value).filter fun n => decide (least ≤ n ∧ n ≤ greatest)

/-- A line or a character. -/
def readCoordinate? (value : Json) : Option Nat :=
  (readBetween? 0 2147483647 value).map Int.toNat

def readVersion? (value : Json) : Option Int := readBetween? (-2147483648) 2147483647 value

def readString? (value : Json) : Option Text := value.display?

def field? {α : Type} (key : Text) (read : Json → Option α) (value : Json) : Option α :=
  (value.get? key).bind read

def readIdentifier? (value : Json) : Option Text := field? "uri" readString? value

/-- The URI that identifies a version of a document. -/
def readVersioned? (value : Json) : Option Text := do
  let uri ← readIdentifier? value
  let _ ← field? "version" readVersion? value
  some uri

/-- Whether a value can name a language: it is no array and no object. -/
def isLanguage : Json → Bool
  | .arr _ | .obj _ => false
  | _ => true

def readItem? (value : Json) : Option OpenParams := do
  let uri ← readIdentifier? value
  let _ ← (value.get? "languageId").filter isLanguage
  let _ ← field? "version" readVersion? value
  let text ← field? "text" readString? value
  some ⟨uri, text⟩

def readPosition? (value : Json) : Option Position := do
  let line ← field? "line" readCoordinate? value
  let character ← field? "character" readCoordinate? value
  some ⟨line, character⟩

def readRange? (value : Json) : Option Range := do
  let start ← field? "start" readPosition? value
  let stop ← field? "end" readPosition? value
  some ⟨start, stop⟩

/-- A change: the text, and maybe the range that it replaces. -/
def readChange? (value : Json) : Option Text :=
  match value.get? "range" with
  | none => field? "text" readString? value
  | some range => do
      let _ ← readRange? range
      let text ← field? "text" readString? value
      match value.get? "rangeLength" with
      | none | some .null => some text
      | some length => (readCoordinate? length).map fun _ => text

/-- The changes of a document; what is empty has none. -/
def readChanges? : Json → Option (List Text)
  | .arr items => items.mapM readChange?
  | .str s => if s.isEmpty then some [] else none
  | .obj fields => if fields.isEmpty then some [] else none
  | _ => none

/-- Whether a value is one of the three ways in which a completion comes about. -/
def isTriggerKind : Json → Bool
  | .bool b => b
  | .int n => n == 1 || n == 2 || n == 3
  | .float x => [1, 2, 3].any fun n => x == .ofDecimal false n 0
  | _ => false

/-- Whether a value says how a completion came about. -/
def isCompletionContext : Json → Bool
  | .null => true
  | value => (value.get? "triggerKind").any isTriggerKind

/-- Parameters of one kind of message: their name, and the fields that may be
missing, with what these accept. -/
structure Shape where
  name : String
  optional : List (Text × (Json → Bool)) := []

/-- A token, which may be anything. -/
def token (key : Text) : Text × (Json → Bool) := (key, fun _ => true)

/-- The fields of every query that may be missing. -/
def queryTokens : List (Text × (Json → Bool)) :=
  [token "workDoneToken", token "partialResultToken"]

def hoverShape : Shape := ⟨"HoverParams", [token "workDoneToken"]⟩

def definitionShape : Shape := ⟨"DefinitionParams", queryTokens⟩

def completionShape : Shape :=
  ⟨"CompletionParams", ("context", isCompletionContext) :: queryTokens⟩

def symbolShape : Shape := ⟨"DocumentSymbolParams", queryTokens⟩

/-- The parameters of the opening of a document. -/
def openShape : Shape := ⟨"DidOpenTextDocumentParams", []⟩

def changeShape : Shape := ⟨"DidChangeTextDocumentParams", []⟩

/-- The parameters of the closing of a document. -/
def closeShape : Shape := ⟨"DidCloseTextDocumentParams", []⟩

/-- Why parameters cannot be read: some of their fields fail, or they are a value
that has no fields to look for. -/
inductive ParamsError where
  | failing (shape : String) (count : Nat)
  | fieldless (shape kind : String)
deriving DecidableEq, Repr

/-- What is reported about parameters that cannot be read. -/
def ParamsError.reason : ParamsError → String
  | .failing shape count =>
      "While structuring " ++ shape ++ " (" ++ Text.decimalText count
        ++ (if count = 1 then " sub-exception)" else " sub-exceptions)")
  | .fieldless _ kind => "argument of type '" ++ kind ++ "' is not iterable"

/-- Whether a text stands somewhere in another. -/
def occursIn (part : List CodePoint) : List CodePoint → Bool
  | [] => part.isEmpty
  | c :: rest => part.isPrefixOf (c :: rest) || occursIn part rest

/-- Whether a value names a key: as a field, as an item or as a part. -/
def names (value : Json) (key : Text) : Bool :=
  match value with
  | .obj fields => (Json.Fields.get? fields key).isSome
  | .arr items => items.any fun | .str s => s == key | _ => false
  | .str s => occursIn key.points s.points
  | _ => false

/-- Whether a field that may be missing is there and fails. -/
def optionalFails (params : Json) (field : Text × (Json → Bool)) : Bool :=
  names params field.1 && !((params.get? field.1).any field.2)

/-- Whether nothing can be looked for in a value. -/
def isFieldless : Json → Bool
  | .null | .bool _ | .int _ | .float _ => true
  | _ => false

/-- Judge parameters, given how many of the required fields fail. -/
def Shape.judge (shape : Shape) (params : Json) (missing : Nat) : Except ParamsError Unit :=
  if !shape.optional.isEmpty && isFieldless params then
    .error (.fieldless shape.name params.kindName)
  else
    let count := missing + shape.optional.countP (optionalFails params)
    if count = 0 then .ok () else .error (.failing shape.name count)

def readOne {α : Type} (shape : Shape) (params : Json) (first : Option α) :
    Except ParamsError α :=
  match first with
  | none => do
      shape.judge params 1
      .error (.failing shape.name 1)
  | some a => do
      shape.judge params 0
      .ok a

def readTwo {α β : Type} (shape : Shape) (params : Json) (first : Option α)
    (second : Option β) : Except ParamsError (α × β) :=
  match first, second with
  | some a, some b => do
      shape.judge params 0
      .ok (a, b)
  | none, none => do
      shape.judge params 2
      .error (.failing shape.name 2)
  | _, _ => do
      shape.judge params 1
      .error (.failing shape.name 1)

def readPlace (shape : Shape) (params : Json) : Except ParamsError PositionParams :=
  (readTwo shape params (field? "textDocument" readIdentifier? params)
    (field? "position" readPosition? params)).map fun (uri, position) => ⟨uri, position⟩

/-- The parameters of a query about a document. -/
def readDocument (shape : Shape) (params : Json) : Except ParamsError Text :=
  readOne shape params (field? "textDocument" readIdentifier? params)

/-- The parameters of the opening of a document. -/
def readOpen (params : Json) : Except ParamsError OpenParams :=
  readOne openShape params (field? "textDocument" readItem? params)

def readChangeParams (params : Json) : Except ParamsError ChangeParams :=
  (readTwo changeShape params (field? "textDocument" readVersioned? params)
    (field? "contentChanges" readChanges? params)).map fun (uri, texts) => ⟨uri, texts⟩

/-- How parameters are read: each function gives what a message needs, or a report. -/
structure Readers where
  place : Shape → Json → Except Text PositionParams
  document : Shape → Json → Except Text Text
  opened : Json → Except Text OpenParams
  changed : Json → Except Text ChangeParams

/-- The readers that take whatever can be understood. -/
def lenient : Readers where
  place shape params := (readPlace shape params).mapError fun e => e.reason
  document shape params := (readDocument shape params).mapError fun e => e.reason
  opened params := (readOpen params).mapError fun e => e.reason
  changed params := (readChangeParams params).mapError fun e => e.reason

def invalidParams : Int := -32602

/-- The fault of parameters that cannot be read. -/
def fault (shape : Shape) (reason : Text) : Fault :=
  .rpc invalidParams ("Invalid " ++ shape.name ++ ": " ++ reason) .null

end EditorBridge.Params
