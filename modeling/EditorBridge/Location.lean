/-
What sits at an offset of a document: the innermost node there, the nodes around
it, the symbol it stands for and the scope it lies in.
-/
import EditorBridge.Tree.Walk

namespace EditorBridge

/-- What sits at an offset. -/
structure Location where
  node : NodeId
  nodes : List NodeId
  symbol : Option SymbolId := none
  scope : Option ScopeId := none
deriving DecidableEq, Repr

namespace Tree

/-- The nodes that cover an offset, in the order of a walk. -/
def covering (tree : Tree) (offset : Int) : List NodeId :=
  (tree.graph.walk tree.root).filter fun id => (tree.graph.node id).covers offset

/-- The symbol that a node stands for. -/
def symbolAt (tree : Tree) (id : NodeId) : Option SymbolId :=
  match (tree.graph.node id).attr with
  | .symbol symbol => some symbol
  | .own attr => attr.symbol

/-- The scope of the innermost of some nodes that has one. -/
def scopeAround (tree : Tree) (nodes : List NodeId) : Option ScopeId :=
  nodes.reverse.findSome? tree.graph.scopeOf?

def locationAt (tree : Tree) (offset : Int) : Option Location :=
  let nodes := tree.covering offset
  nodes.getLast?.map fun leaf =>
    { node := leaf, nodes, symbol := tree.symbolAt leaf, scope := tree.scopeAround nodes }

end Tree

end EditorBridge
