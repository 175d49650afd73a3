/-
The graph of a program: its types, symbols, nodes and scopes.  Links between
types and symbols may go round in circles; the children of nodes never do,
though two nodes may share a child.
-/
import EditorBridge.Text.Quoted
import EditorBridge.Tree.Scope

namespace EditorBridge

/-- No node is its own descendant. -/
def Acyclic (nodes : Array Node) : Prop :=
  WellFounded fun child parent => child ∈ (nodes.getD parent default).children

/-- Everything an analyzer says about a program. -/
structure Graph where
  types : Array TypeInfo
  symbols : Array Symbol
  nodes : Array Node
  scopes : ScopeForest
  acyclic : Acyclic nodes

/-- What an attribute belongs to, by which two attributes are told apart. -/
inductive AttrRef where
  | symbol (id : SymbolId)
  | node (id : NodeId)
deriving DecidableEq, Repr

namespace Graph

def typeInfo (g : Graph) (id : TypeId) : TypeInfo := g.types.getD id default

def symbol (g : Graph) (id : SymbolId) : Symbol := g.symbols.getD id default

def node (g : Graph) (id : NodeId) : Node := g.nodes.getD id default

def children (g : Graph) (id : NodeId) : List NodeId := (g.node id).children

/-- What the attribute of a node belongs to. -/
def attrRef (g : Graph) (id : NodeId) : AttrRef :=
  match (g.node id).attr with
  | .own _ => .node id
  | .symbol s => .symbol s

/-- The attribute of a node or of a symbol. -/
def attr (g : Graph) : AttrRef → Attr
  | .symbol id => (g.symbol id).toAttr
  | .node id =>
      match (g.node id).attr with
      | .own attr => attr
      | .symbol s => (g.symbol s).toAttr

def nodeAttr (g : Graph) (id : NodeId) : Attr := g.attr (.node id)

def typeText (g : Graph) (id : TypeId) : Text := (g.typeInfo id).text

/-- How a type that may be missing is named to the user. -/
def typeText? (g : Graph) : Option TypeId → Text
  | some id => g.typeText id
  | none => ""

/-- Whether a symbol is that of a function. -/
def isFunction (g : Graph) (id : SymbolId) : Bool :=
  (g.symbol id).type.any fun type => (g.typeInfo type).isFunction

def childWithTag? (g : Graph) (id : NodeId) (tag : String) : Option NodeId :=
  (g.children id).find? fun child => (g.node child).tag == tag

def range (g : Graph) (text : List CodePoint) (id : NodeId) : Except RangeError Range :=
  (g.node id).range text

def scopeOf? (g : Graph) (id : NodeId) : Option ScopeId := g.scopes.ofNode? id

/-- A symbol without a name cannot be declared. -/
inductive DeclareError where
  | unnamed
deriving DecidableEq, Repr

/-- What is reported about a symbol that cannot be declared. -/
def DeclareError.message : DeclareError → String
  | .unnamed => "symbol must have a name"

/-- Declare a symbol in a scope under its own name. -/
def declare (g : Graph) (scope : ScopeId) (id : SymbolId) : Except DeclareError Graph :=
  match nonempty? (g.symbol id).name with
  | none => .error .unnamed
  | some name => .ok { g with scopes := g.scopes.declare scope name id }

/-- The scope as a report shows it, its names in alphabetical order. -/
def scopeText (g : Graph) (id : ScopeId) : String :=
  let scope := g.scopes.scope id
  let tag := match scope.node with
    | some node => (g.node node).tag
    | none => "None"
  let sorted := scope.symbols.names.mergeSort Text.le
  "Scope(node=" ++ tag ++ ", symbols=" ++ Text.quotedList sorted ++ ")"

end Graph

/-- One more than the heights of the children, by the heights found so far. -/
def raiseHeights (nodes : Array Node) (heights : Array Nat) : Array Nat :=
  nodes.map fun node =>
    node.children.foldl (fun h child => max h (heights.getD child 0 + 1)) 0

/-- The heights of all nodes, when no path is longer than the number of nodes. -/
def nodeHeights (nodes : Array Node) : Array Nat :=
  (List.range (nodes.size + 1)).foldl (fun heights _ => raiseHeights nodes heights)
    (Array.replicate nodes.size 0)

/-- Every child is lower than its parent. -/
def heightsDescend (nodes : Array Node) (heights : Array Nat) : Bool :=
  (List.range nodes.size).all fun parent =>
    (nodes.getD parent default).children.all fun child =>
      heights.getD child 0 < heights.getD parent 0

theorem acyclic_of_heightsDescend {nodes : Array Node} {heights : Array Nat}
    (h : heightsDescend nodes heights = true) : Acyclic nodes := by
  refine Subrelation.wf ?_ (measure fun id => heights.getD id 0).wf
  intro child parent hchild
  by_cases hparent : parent < nodes.size
  · simp only [heightsDescend, List.all_eq_true, List.mem_range, decide_eq_true_eq] at h
    exact h parent hparent child hchild
  · simp only [Array.getD, hparent, dite_false] at hchild
    exact absurd hchild (by simp [default, instInhabitedNode.default])

/-- The graph of given tables, when its nodes go round in no circle. -/
def Graph.ofTables? (types : Array TypeInfo) (symbols : Array Symbol) (nodes : Array Node)
    (scopes : ScopeForest) : Option Graph :=
  if h : heightsDescend nodes (nodeHeights nodes) = true then
    some ⟨types, symbols, nodes, scopes, acyclic_of_heightsDescend h⟩
  else none

/-- A graph with the node that stands for the whole document. -/
structure Tree where
  graph : Graph
  root : NodeId

end EditorBridge
