/-
What an analyzer says about a program: types, symbols and the attributes of
nodes.  They refer to each other by number, so that links may go round in
circles and identity is a matter of numbers.
-/
import EditorBridge.Number.Shortest
import EditorBridge.Position
import EditorBridge.Table

namespace EditorBridge

abbrev TypeId := Nat

abbrev SymbolId := Nat

abbrev NodeId := Nat

abbrev ScopeId := Nat

/-- The kinds of types that are told apart. -/
inductive TypeKind where
  | type
  | function
  | polyfunction
  | pointer
  | record
  | enum
  | scalar
deriving DecidableEq, Repr, Inhabited

def TypeKind.word : TypeKind → String
  | .type => "type"
  | .function => "function"
  | .polyfunction => "polyfunction"
  | .pointer => "pointer"
  | .record => "record"
  | .enum => "enum"
  | .scalar => "scalar"

/-- A resolved type.  Fields carry their types, metafields their symbols. -/
structure TypeInfo where
  kind : TypeKind := .scalar
  name : Text := ""
  nickname : Option Text := none
  description : Option Text := none
  signature : Option Text := none
  subtype : Option TypeId := none
  fields : Table (Option TypeId) := .empty
  metafields : Table SymbolId := .empty
  symbol : Option SymbolId := none
  node : Option NodeId := none
deriving Inhabited

/-- The text, unless it is missing or empty. -/
def nonempty? (text : Option Text) : Option Text := text.filter (· != "")

namespace TypeInfo

/-- How a type is named to the user. -/
def text (t : TypeInfo) : Text := (nonempty? t.nickname).getD t.name

/-- How a type is spelled out to the user. -/
def longText (t : TypeInfo) : Text := (nonempty? t.description).getD t.name

/-- Whether it is the type of type expressions. -/
def isType (t : TypeInfo) : Bool := t.kind == .type

/-- Whether its values are called. -/
def isFunction (t : TypeInfo) : Bool := t.kind == .function || t.kind == .polyfunction

/-- Whether its values point to others. -/
def isPointer (t : TypeInfo) : Bool := t.kind == .pointer

def isRecord (t : TypeInfo) : Bool := t.kind == .record

def isEnum (t : TypeInfo) : Bool := t.kind == .enum

end TypeInfo

/-- A value that is known before the program runs. -/
inductive Constant where
  | int (value : Int)
  | float (value : Number.Binary64)
  | str (value : Text)
  | bool (value : Bool)
deriving DecidableEq, Repr

/-- The text of a value, unless it is an integer too long to be written. -/
def Constant.text? : Constant → Option Text
  | .int n => (Text.numeral? n).map Text.ofString
  | .float x => some x.text
  | .str s => some s
  | .bool b => some (if b then "True" else "False")

/-- What is known about an expression or a declaration.  `value` is the type
that a type expression denotes. -/
structure Attr where
  type : Option TypeId := none
  value : Option TypeId := none
  const : Option Constant := none
  name : Option Text := none
  symbol : Option SymbolId := none
  callee : Option SymbolId := none
  isMethod : Bool := false
  isBuiltin : Bool := false
deriving Inhabited

/-- A declared name, which is an attribute of its own. -/
structure Symbol extends Attr where
  node : Option NodeId := none
  selfType : Option TypeId := none
deriving Inhabited

/-- Whether the symbol is called on a receiver. -/
def Symbol.isBound (s : Symbol) : Bool := s.selfType.isSome

/-- The attribute of a node: one of its own, or a symbol. -/
inductive NodeAttr where
  | own (attr : Attr)
  | symbol (id : SymbolId)

instance : Inhabited NodeAttr := ⟨.own default⟩

namespace Tag

def block : String := "Block"

def id : String := "Id"

def idDecl : String := "IdDecl"

def call : String := "Call"

def callMethod : String := "CallMethod"

/-- A field behind a point. -/
def dotIndex : String := "DotIndex"

/-- A method behind a colon. -/
def colonIndex : String := "ColonIndex"

def funcDef : String := "FuncDef"

def recordType : String := "RecordType"

def recordField : String := "RecordField"

def enumType : String := "EnumType"

/-- A member of an enumeration type expression. -/
def enumField : String := "EnumField"

def isCall (tag : String) : Bool := tag == call || tag == callMethod

def isIndex (tag : String) : Bool := tag == dotIndex || tag == colonIndex

end Tag

/-- A node of a tree.  A node that the analyzer made up has no span. -/
structure Node where
  tag : String := ""
  span : Option Span := none
  children : List NodeId := []
  attr : NodeAttr := default
  name : Option Text := none
  src : Option Text := none
deriving Inhabited

namespace Node

def isPlaced (node : Node) : Bool := node.span.isSome

/-- Whether the offset lies in the span of the node. -/
def covers (node : Node) (offset : Int) : Bool :=
  match node.span with
  | some span => span.start ≤ offset && offset < span.stop
  | none => false

def range (text : List CodePoint) (node : Node) : Except RangeError Range :=
  match node.span with
  | some span => Range.ofSpan text span
  | none => .error (.position (.unplaced node.tag))

end Node

end EditorBridge
