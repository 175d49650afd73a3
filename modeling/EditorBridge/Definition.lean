/-
Definitions: where the name at a place was declared.  The declaration may lie in
another file, whose text has to be read before its ranges are known.
-/
import EditorBridge.Fault
import EditorBridge.Location

namespace EditorBridge

/-- A link from a name to its declaration. -/
structure LocationLink where
  targetUri : Text
  targetRange : Range
  targetSelectionRange : Range
  originSelectionRange : Range
deriving DecidableEq, Repr

/-- Where a declaration was found. -/
inductive Destination where
  | nowhere
  | here (target : NodeId)
  | elsewhere (uri : Text) (target : NodeId)
deriving DecidableEq, Repr

namespace Graph

/-- Whether the names of nodes with this tag have definitions. -/
def hasDefinition (tag : String) : Bool := tag == Tag.id || Tag.isCall tag || Tag.isIndex tag

/-- The node that declares what a located node stands for: for a call, what it
calls. -/
def declaringNode? (g : Graph) (location : Location) : Option NodeId := do
  let tag := (g.node location.node).tag
  let symbol ←
    if tag == Tag.id || Tag.isIndex tag then location.symbol
    else if Tag.isCall tag then (g.nodeAttr location.node).callee
    else none
  (g.symbol symbol).node

/-- Whether a file name is given and names another file than the path. -/
def liesElsewhere (src : Option Text) (path : Option Path) : Bool :=
  match src, path with
  | some src, some path => Path.ofText src != path
  | _, _ => false

/-- The range of the nearest node above `target` that has a place, or else that
of the target. -/
def enclosingRange (g : Graph) (root : Option NodeId) (target : NodeId) (text : List CodePoint) :
    Except RangeError Range :=
  match root.bind fun root =>
      (g.ancestors root target).find? fun id => (g.node id).isPlaced with
  | some above => g.range text above
  | none => g.range text target

end Graph

namespace Tree

/-- Where the declaration of a located node lies, both of them having a place. -/
def destination (tree : Tree) (location : Location) (uri : Text) :
    Except Fault Destination :=
  let g := tree.graph
  match g.declaringNode? location with
  | none => .ok .nowhere
  | some target =>
      if !(g.node target).isPlaced || !(g.node location.node).isPlaced then .ok .nowhere
      else match (g.node target).src with
        | none => .ok (.here target)
        | some src => do
            let path ← (Uri.toPath uri).mapError Fault.uri
            if Graph.liesElsewhere (some src) (some path) then
              let other ← (Uri.ofPath (Path.ofText src)).mapError Fault.path
              .ok (.elsewhere other target)
            else .ok (.here target)

/-- The link to a declaration in a text.  `root` is missing for another file. -/
def link (tree : Tree) (location : Location) (text : List CodePoint) (targetUri : Text)
    (targetText : List CodePoint) (root : Option NodeId) (target : NodeId) :
    Except RangeError LocationLink := do
  let g := tree.graph
  let selection ← g.range targetText target
  let range ← g.enclosingRange root target targetText
  let origin ← g.range text location.node
  .ok ⟨targetUri, range, selection, origin⟩

/-- The links of a located node; a text of another file is asked for with `read`. -/
def definition (tree : Tree) (location : Location) (text : List CodePoint) (uri : Text)
    (read : Text → Except Fault Text) : Except Fault (List LocationLink) := do
  match ← tree.destination location uri with
  | .nowhere => .ok []
  | .here target =>
      let link ← (tree.link location text uri text (some tree.root) target).mapError Fault.ofRange
      .ok [link]
  | .elsewhere other target =>
      let otherText ← read other
      let link ←
        (tree.link location text other otherText.points none target).mapError Fault.ofRange
      .ok [link]

end Tree

end EditorBridge
