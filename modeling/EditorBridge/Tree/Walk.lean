/-
Walks through the nodes of a graph.  A walk keeps the nodes that wait in a list
and takes the next one from its front; the number of steps still to come bounds
it.  Beside the walk stands the order it visits the nodes in, said recursively.
-/
import EditorBridge.Tree.Graph

namespace EditorBridge

/-- The sum of a list of numbers. -/
def total : List Nat → Nat
  | [] => 0
  | n :: rest => n + total rest

theorem total_append (ms ns : List Nat) : total (ms ++ ns) = total ms + total ns := by
  induction ms with
  | nil => simp [total]
  | cons m rest ih => simp [total, ih, Nat.add_assoc]

theorem total_reverse (ns : List Nat) : total ns.reverse = total ns := by
  induction ns with
  | nil => rfl
  | cons n rest ih => simp [total, total_append, ih, Nat.add_comm]

namespace Graph

/-- The number of paths that lead down from a node, the empty one included. -/
def weight (g : Graph) (id : NodeId) : Nat :=
  1 + total ((g.children id).attach.map fun ⟨child, _⟩ => g.weight child)
termination_by g.acyclic.wrap id
decreasing_by assumption

theorem weight_eq (g : Graph) (id : NodeId) :
    g.weight id = 1 + total ((g.children id).map g.weight) := by
  rw [weight]
  simp

/-- Visit the waiting nodes, each before its children and these before the rest. -/
def walkFrom (g : Graph) : List NodeId → List NodeId
  | [] => []
  | id :: waiting => id :: g.walkFrom (g.children id ++ waiting)
termination_by waiting => total (waiting.map g.weight)
decreasing_by
  simp only [List.map_append, total_append, List.map_cons, total]
  rw [weight_eq g id]
  omega

/-- A node and all nodes below it, once for each path. -/
def walk (g : Graph) (id : NodeId) : List NodeId := g.walkFrom [id]

/-- A node, then its children's subtrees from left to right. -/
def preorder (g : Graph) (id : NodeId) : List NodeId :=
  id :: (g.children id).attach.flatMap fun ⟨child, _⟩ => g.preorder child
termination_by g.acyclic.wrap id
decreasing_by assumption

/-- Look for a node among those that wait, each with the nodes above it, nearest
first.  The last child is looked at first. -/
def ancestorsFrom (g : Graph) (target : NodeId) :
    List (NodeId × List NodeId) → List NodeId
  | [] => []
  | (id, above) :: waiting =>
      if id = target then above
      else
        g.ancestorsFrom target
          ((g.children id).reverse.map (fun child => (child, id :: above)) ++ waiting)
termination_by waiting => total (waiting.map fun entry => g.weight entry.1)
decreasing_by
  have hsum : total ((g.children id).map fun child => g.weight child) + 1 = g.weight id := by
    rw [weight_eq g id, Nat.add_comm]
  simp only [List.map_append, total_append, List.map_cons, total, List.map_map,
    List.map_reverse, total_reverse, Function.comp_def]
  omega

/-- The nodes above `target` within `root`, nearest first; none when it is not
below the root. -/
def ancestors (g : Graph) (root target : NodeId) : List NodeId :=
  g.ancestorsFrom target [(root, [])]

end Graph

end EditorBridge
