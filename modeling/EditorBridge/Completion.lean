/-
Completion choices.  A bare name is completed from the scopes around it, inner
declarations before outer ones; behind a point or a colon stand the members of
the receiver's type.
-/
import EditorBridge.Cursor
import EditorBridge.Location

namespace EditorBridge

/-- A name that can be put in, and its type. -/
structure CompletionItem where
  label : Text
  detail : Text
deriving DecidableEq, Repr

namespace Graph

/-- The type of a symbol, as a candidate shows it. -/
def symbolDetail (g : Graph) (id : SymbolId) : Text := g.typeText? (g.symbol id).type

/-- Add the names of a scope that no scope further in has declared. -/
def addScope (g : Graph) (found : Table Text) (scope : ScopeId) : Table Text :=
  (g.scopes.scope scope).symbols.entries.foldl
    (fun found entry => found.insertNew entry.1 (g.symbolDetail entry.2)) found

/-- The names visible from a scope. -/
def visibleNames (g : Graph) (scope : ScopeId) : Table Text :=
  (g.scopes.chain scope).foldl g.addScope .empty

/-- The members of a type: the methods behind a colon; behind a point the fields
of an instance, or what hangs on the type itself. -/
def members (g : Graph) (type : TypeId) (mode : Access) (isInstance : Bool) :
    List (Text × Text) :=
  let info := g.typeInfo type
  let fields := info.fields.entries.map fun entry => (entry.1, g.typeText? entry.2)
  let metafields (keep : SymbolId → Bool) :=
    (info.metafields.entries.filter fun entry => keep entry.2).map fun entry =>
      (entry.1, g.symbolDetail entry.2)
  if mode = .method then metafields fun id => (g.symbol id).isBound
  else if isInstance then fields
  else if info.isRecord then metafields fun _ => true
  else if info.isEnum then info.fields.names.map fun name => (name, info.text)
  else fields

/-- The type that a call is completed on, and whether it is that of a value
rather than a type expression. -/
def receiver (g : Graph) (call : NodeId) : Option TypeId × Bool :=
  let calleeType := (g.children call).head?.bind fun callee =>
    (g.nodeAttr callee).type.map fun type => (callee, type)
  match calleeType with
  | none => ((g.nodeAttr call).type, false)
  | some (callee, type) =>
      let info := g.typeInfo type
      if info.isType then ((g.nodeAttr callee).value, false)
      else if info.isPointer && info.subtype.isSome then (info.subtype, true)
      else (some type, true)

def choices (g : Graph) (location : Location) (mode : Access) :
    List (Text × Text) :=
  if mode = .bare then
    match location.scope with
    | some scope => (g.visibleNames scope).entries
    | none => []
  else if Tag.isCall (g.node location.node).tag then
    match g.receiver location.node with
    | (some type, isInstance) => g.members type mode isInstance
    | (none, _) => []
  else []

/-- The completion items at a located node, in order. -/
def completions (g : Graph) (location : Location) (mode : Access) : List CompletionItem :=
  (g.choices location mode).map fun entry => ⟨entry.1, entry.2⟩

end Graph

end EditorBridge
