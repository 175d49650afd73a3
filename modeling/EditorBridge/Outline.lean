/-
The outline of a document: its functions with what they hold, then its other
names in alphabetical order, with the fields of records and enumerations.
-/
import EditorBridge.Definition
import EditorBridge.Visited

namespace EditorBridge

/-- What an entry of an outline is. -/
inductive SymbolKind where
  | field
  | enumeration
  | function
  | variable
  | record
deriving DecidableEq, Repr

def SymbolKind.code : SymbolKind → Nat
  | .field => 8
  | .enumeration => 10
  | .function => 12
  | .variable => 13
  | .record => 23

/-- An entry of an outline.  Fields have no list of entries below them. -/
inductive DocumentSymbol where
  | mk (name detail : Text) (kind : SymbolKind) (range selectionRange : Range)
      (children : Option (List DocumentSymbol))

namespace Graph

/-- How a type expression is named to the user. -/
def typeExprText (g : Graph) (id : NodeId) : Text :=
  let attr := g.nodeAttr id
  match nonempty? attr.name with
  | some name => name
  | none => g.typeText? (attr.value.or attr.type)

/-- The entry of a field or member, when its node has the tag and a place. -/
def fieldSymbol? (g : Graph) (text : List CodePoint) (tag : String)
    (detail : NodeId → Except Fault Text) (id : NodeId) : Except Fault (Option DocumentSymbol) :=
  let node := g.node id
  if node.tag != tag || !node.isPlaced then .ok none
  else do
    let range ← (node.range text).mapError Fault.ofRange
    let detail ← detail id
    .ok (some (.mk (node.name.getD "") detail .field range range none))

/-- The entries of the fields or members of a type expression. -/
def fieldEntries (g : Graph) (text : List CodePoint) (tag : String)
    (detail : NodeId → Except Fault Text) (ids : List NodeId) :
    Except Fault (List DocumentSymbol) :=
  (ids.mapM (g.fieldSymbol? text tag detail)).map fun entries => entries.filterMap id

def recordFieldDetail (g : Graph) (id : NodeId) : Text :=
  match g.children id with
  | [] => ""
  | type :: _ => g.typeExprText type

/-- The value of a member of an enumeration: that of its expression, or else its own. -/
def enumFieldConst? (g : Graph) (id : NodeId) : Option Constant :=
  let own := (g.nodeAttr id).const
  match g.children id with
  | [] => own
  | value :: _ => (g.nodeAttr value).const.or own

def enumFieldDetail (g : Graph) (id : NodeId) : Except Fault Text :=
  match g.enumFieldConst? id with
  | none => .ok ""
  | some const =>
      match const.text? with
      | some text => .ok text
      | none => .error .unwritable

/-- A record in an outline, or an enumeration and the type of its members. -/
def enumDetail (g : Graph) (id : NodeId) : Text :=
  match (g.children id).find? fun child => (g.node child).tag != Tag.enumField with
  | none => "enum"
  | some subtype =>
      let text := g.typeExprText subtype
      if text.isEmpty then "enum" else "enum(" ++ text ++ ")"

/-- The node of the type expression that a declaration gives a name to. -/
def typeExpr? (g : Graph) (id : NodeId) : Option NodeId :=
  if (g.node id).tag == Tag.idDecl then do
    let value ← (g.nodeAttr id).value
    (g.typeInfo value).node
  else none

/-- Kind, detail and fields of a name that is no function. -/
def nameContents (g : Graph) (text : List CodePoint) (symbol : Symbol) (id : NodeId) :
    Except Fault (SymbolKind × Text × List DocumentSymbol) :=
  let plain := (SymbolKind.variable, g.typeText? symbol.type, [])
  match g.typeExpr? id with
  | none => .ok plain
  | some expr =>
      let tag := (g.node expr).tag
      if tag == Tag.recordType then
        (g.fieldEntries text Tag.recordField (fun id => .ok (g.recordFieldDetail id))
          (g.children expr)).map fun fields => (.record, "record", fields)
      else if tag == Tag.enumType then
        (g.fieldEntries text Tag.enumField g.enumFieldDetail (g.children expr)).map
          fun fields => (.enumeration, g.enumDetail expr, fields)
      else .ok plain

def nameEntry (g : Graph) (text : List CodePoint) (block : NodeId) (name : Text)
    (symbol : Symbol) (id : NodeId) : Except Fault DocumentSymbol := do
  let (kind, detail, fields) ← g.nameContents text symbol id
  let range ← (g.enclosingRange (some block) id text).mapError Fault.ofRange
  let selection ← (g.range text id).mapError Fault.ofRange
  .ok (.mk name detail kind range selection (some fields))

/-- A name of a scope that an outline shows, with its symbol and its node. -/
structure NamedNode where
  name : Text
  symbol : SymbolId
  node : NodeId
deriving DecidableEq, Repr

/-- Whether the outline shows a name, and where it is declared: it has a type, is
no function, and lies in the document itself. -/
def shownName? (g : Graph) (src : Option Path) (name : Text) (symbol : SymbolId) :
    Option NamedNode := do
  let type ← (g.symbol symbol).type
  let node ← (g.symbol symbol).node
  if (g.typeInfo type).isFunction || !(g.node node).isPlaced
      || liesElsewhere (g.node node).src src then none
  else some ⟨name, symbol, node⟩

/-- The names of a scope that an outline shows, in alphabetical order. -/
def shownNames (g : Graph) (src : Option Path) (scope : ScopeId) : List NamedNode :=
  let symbols := (g.scopes.scope scope).symbols
  (symbols.entries.mergeSort fun a b => Text.le a.1 b.1).filterMap fun entry =>
    g.shownName? src entry.1 entry.2

/-- A function that an outline shows, with the node of its name and its body. -/
structure FunctionNode where
  node : NodeId
  name : NodeId
  body : Option NodeId
deriving DecidableEq, Repr

/-- The function whose scope this is, when the outline shows it. -/
def shownFunction? (g : Graph) (scope : ScopeId) : Option FunctionNode := do
  let node ← (g.scopes.scope scope).node
  let name ← (g.children node).head?
  if (g.node node).tag == Tag.funcDef && (g.node node).isPlaced && (g.node name).isPlaced then
    some ⟨node, name, g.childWithTag? node Tag.block⟩
  else none

def functionName (g : Graph) (name : NodeId) : Text :=
  ((nonempty? (g.nodeAttr name).name).or (g.node name).name).getD ""

theorem mem_ids_of_scopeOf? {g : Graph} {id : NodeId} {scope : ScopeId}
    (h : g.scopeOf? id = some scope) : scope ∈ g.scopes.ids :=
  List.mem_reverse.mp (List.mem_of_find?_eq_some h)

/-- The entries for the scope of a block.  `visited` holds the scopes around it;
a scope inside itself has no outline. -/
def scopeEntries (g : Graph) (text : List CodePoint) (src : Option Path) (visited : List ScopeId)
    (block : NodeId) : Except Fault (List DocumentSymbol) :=
  match _hscope : g.scopeOf? block with
  | none => .ok []
  | some scope =>
      if _hvisited : visited.contains scope then .error .endlessOutline
      else do
        let functions ← ((g.scopes.inside scope).filterMap g.shownFunction?).mapM fun shown => do
          let range ← (g.range text shown.node).mapError Fault.ofRange
          let selection ← (g.range text shown.name).mapError Fault.ofRange
          let children ← match shown.body with
            | some body => g.scopeEntries text src (scope :: visited) body
            | none => .ok []
          .ok (DocumentSymbol.mk (g.functionName shown.name)
            (g.typeText? (g.nodeAttr shown.node).type) .function range selection
            (some children))
        let names ← (g.shownNames src scope).mapM fun shown =>
          g.nameEntry text block shown.name (g.symbol shown.symbol) shown.node
        .ok (functions ++ names)
termination_by remaining g.scopes.ids visited
decreasing_by exact remaining_cons_lt (mem_ids_of_scopeOf? _hscope) (by simpa using _hvisited)

end Graph

def Tree.outline (tree : Tree) (text : List CodePoint) : Except Fault (List DocumentSymbol) :=
  let src := (tree.graph.node tree.root).src.map Path.ofText
  tree.graph.scopeEntries text src [] tree.root

end EditorBridge
