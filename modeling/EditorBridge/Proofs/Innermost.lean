/-
What sits at an offset is innermost.  The nodes of a tree that cover an offset lie one inside
another when nodes apart from each other share no offset, and a walk meets them from the
outside in.  The last one is where the offset is located, whatever layers of nodes without a
place lie between.
-/
import EditorBridge.Location
import EditorBridge.Proofs.Walks
import Mathlib.Data.List.Chain
import Mathlib.Data.List.GetD
import Mathlib.Data.List.Nodup
import Mathlib.Logic.Relation

namespace EditorBridge

namespace Span

/-- The offset lies between the ends of the span. -/
def Covers (span : Span) (offset : Int) : Prop := span.start ≤ offset ∧ offset < span.stop

/-- The other span lies between the ends of the span. -/
def Contains (span inner : Span) : Prop := span.start ≤ inner.start ∧ inner.stop ≤ span.stop

instance (span : Span) (offset : Int) : Decidable (span.Covers offset) :=
  inferInstanceAs (Decidable (_ ∧ _))

instance (span inner : Span) : Decidable (span.Contains inner) :=
  inferInstanceAs (Decidable (_ ∧ _))

end Span

theorem Node.covers_iff {node : Node} {offset : Int} :
    node.covers offset = true ↔ ∃ span, node.span = some span ∧ span.Covers offset := by
  rw [Node.covers]
  rcases node.span with _ | span
  · simp
  · simp [Span.Covers]

namespace Graph

variable {g : Graph} {root : NodeId}

/-- Every node of a tree that has a place lies inside all nodes above it that have one. -/
def Nests (g : Graph) (root : NodeId) : Prop :=
  ∀ id above inner outer, g.AtOrBelow above root → g.Below id above →
    (g.node id).span = some inner → (g.node above).span = some outer → outer.Contains inner

/-- Two nodes of a tree of which neither lies below the other share no offset. -/
def Parts (g : Graph) (root : NodeId) : Prop :=
  ∀ id other first second, g.AtOrBelow id root → g.AtOrBelow other root → id ≠ other →
    ¬g.Below id other → ¬g.Below other id → (g.node id).span = some first →
      (g.node other).span = some second → ∀ offset, ¬(first.Covers offset ∧ second.Covers offset)

/-- For every node of the tables, the nodes below it. -/
def ListsBelow (g : Graph) (rows : List (List NodeId)) : Prop :=
  rows.length = g.nodes.size ∧ ∀ above < g.nodes.size,
    rows.getD above [] = (g.children above).flatMap fun child => child :: rows.getD child []

instance (g : Graph) (rows : List (List NodeId)) : Decidable (g.ListsBelow rows) :=
  inferInstanceAs (Decidable (_ ∧ _))

theorem children_of_size_le {id : NodeId} (hid : g.nodes.size ≤ id) : g.children id = [] := by
  rw [children, node, Array.getD, dif_neg (Nat.not_lt.mpr hid)]
  rfl

theorem ListsBelow.below_iff {rows : List (List NodeId)} (hrows : g.ListsBelow rows)
    {id above : NodeId} : g.Below id above ↔ id ∈ rows.getD above [] := by
  induction above using g.acyclic.induction with
  | _ above ih =>
      rcases Nat.lt_or_ge above g.nodes.size with hsize | hsize
      · rw [Graph.below_iff, hrows.2 above hsize, List.mem_flatMap]
        refine exists_congr fun child => and_congr_right fun hchild => ?_
        rw [List.mem_cons, ← ih child hchild, AtOrBelow, Relation.reflTransGen_iff_eq_or_transGen,
          eq_comm]
        rfl
      · rw [Graph.below_iff, children_of_size_le hsize, List.getD_eq_default _ _ (hrows.1 ▸ hsize)]
        simp

theorem ListsBelow.nests {rows : List (List NodeId)} (hrows : g.ListsBelow rows)
    (hspans : ∀ above < g.nodes.size, ∀ id ∈ rows.getD above [], ∀ inner ∈ (g.node id).span,
      ∀ outer ∈ (g.node above).span, outer.Contains inner) : g.Nests root :=
  fun id above inner outer _ hid hinner houter =>
    hspans above (lt_size_of_span houter) id (hrows.below_iff.mp hid) inner hinner outer houter

theorem ListsBelow.parts {rows : List (List NodeId)} (hrows : g.ListsBelow rows)
    (hspans : ∀ id < g.nodes.size, ∀ other < g.nodes.size,
      id = other ∨ id ∈ rows.getD other [] ∨ other ∈ rows.getD id [] ∨
        ∀ first ∈ (g.node id).span, ∀ second ∈ (g.node other).span,
          first.stop ≤ second.start ∨ second.stop ≤ first.start) : g.Parts root := by
  intro id other first second _ _ hne hid hother hfirst hsecond offset
  rcases hspans id (lt_size_of_span hfirst) other (lt_size_of_span hsecond) with
    hsame | hbelow | hbelow | hapart
  · exact absurd hsame hne
  · exact absurd (hrows.below_iff.mpr hbelow) hid
  · exact absurd (hrows.below_iff.mpr hbelow) hother
  · have hends := hapart first hfirst second hsecond
    simp only [Span.Covers]
    omega

theorem unshared_of_children
    (hparent : ∀ above < g.nodes.size, ∀ other < g.nodes.size, ∀ child ∈ g.children above,
      child ∈ g.children other → above = other)
    (honce : ∀ above < g.nodes.size, (g.children above).Nodup) : g.Unshared root where
  parent child above other _ _ habove hother := by
    have hsize : ∀ id, child ∈ g.children id → id < g.nodes.size := by
      intro id hchild
      by_contra hlarge
      rw [children_of_size_le (Nat.not_lt.mp hlarge)] at hchild
      exact nomatch hchild
    exact hparent above (hsize above habove) other (hsize other hother) child habove hother
  once above _ := by
    rcases Nat.lt_or_ge above g.nodes.size with hsize | hsize
    · exact honce above hsize
    · rw [children_of_size_le hsize]
      exact List.nodup_nil

theorem not_below_of_below {id above : NodeId} (hid : g.Below id above) : ¬g.Below above id :=
  fun habove => g.not_below_self id (hid.trans habove)

end Graph

namespace Tree

variable {tree : Tree} {offset : Int} {id above : NodeId} {location : Location}

/-- A node of the tree that covers an offset. -/
def CoveredBy (tree : Tree) (offset : Int) (id : NodeId) : Prop :=
  tree.graph.AtOrBelow id tree.root ∧ (tree.graph.node id).covers offset = true

/-- A node that covers an offset while none below it does. -/
def InnermostAt (tree : Tree) (offset : Int) (id : NodeId) : Prop :=
  tree.CoveredBy offset id ∧
    ∀ below, tree.graph.Below below id → (tree.graph.node below).covers offset = false

theorem mem_covering_iff : id ∈ tree.covering offset ↔ tree.CoveredBy offset id := by
  rw [covering, List.mem_filter, Graph.walk_eq_preorder, Graph.mem_preorder_iff]
  rfl

/-- Of two nodes that cover an offset, one lies below the other. -/
theorem below_or_below (hparts : tree.graph.Parts tree.root) {other : NodeId}
    (hid : tree.CoveredBy offset id) (hother : tree.CoveredBy offset other) (hne : id ≠ other) :
    tree.graph.Below id other ∨ tree.graph.Below other id := by
  by_contra hapart
  obtain ⟨first, hfirst, hcovers⟩ := Node.covers_iff.mp hid.2
  obtain ⟨second, hsecond, hshared⟩ := Node.covers_iff.mp hother.2
  exact hparts id other first second hid.1 hother.1 hne (fun h => hapart (Or.inl h))
    (fun h => hapart (Or.inr h)) hfirst hsecond offset ⟨hcovers, hshared⟩

/-- The nodes that cover an offset are met from the outside in. -/
theorem pairwise_covering (hunshared : tree.graph.Unshared tree.root)
    (hparts : tree.graph.Parts tree.root) (offset : Int) :
    (tree.covering offset).Pairwise fun above id => tree.graph.Below id above := by
  have horder : (tree.covering offset).Pairwise fun above id =>
      ¬tree.graph.Below above id ∧ above ≠ id := by
    rw [covering, Graph.walk_eq_preorder]
    exact ((Graph.pairwise_preorder hunshared).and (Graph.nodup_preorder hunshared)).filter _
  refine horder.imp_of_mem fun habove hid hfirst => ?_
  exact (below_or_below hparts (mem_covering_iff.mp habove) (mem_covering_iff.mp hid)
    hfirst.2).resolve_left hfirst.1

theorem locationAt_eq_none_iff :
    tree.locationAt offset = none ↔ ∀ id, ¬tree.CoveredBy offset id := by
  rw [locationAt, Option.map_eq_none_iff, List.getLast?_eq_none_iff, List.eq_nil_iff_forall_not_mem]
  simp only [mem_covering_iff]

/-- The located node covers the offset, and no node below it does, whatever the shape of the
tree. -/
theorem innermostAt_of_locationAt (hlocation : tree.locationAt offset = some location) :
    tree.InnermostAt offset location.node := by
  obtain ⟨leaf, hleaf, rfl⟩ := Option.map_eq_some_iff.mp hlocation
  obtain ⟨front, hfront⟩ := List.getLast?_eq_some_iff.mp hleaf
  refine ⟨mem_covering_iff.mp (List.mem_of_getLast? hleaf), fun below hbelow => ?_⟩
  rw [covering, Graph.walk_eq_preorder, List.filter_eq_append_iff] at hfront
  obtain ⟨first, second, hwalk, -, hsecond⟩ := hfront
  obtain ⟨between, behind, rfl, -, -, hbehind⟩ := List.filter_eq_cons_iff.mp hsecond
  have hsplit := hwalk.trans (List.append_assoc first between (leaf :: behind)).symm
  have hmem := Graph.mem_behind_of_below hsplit hbelow
  simpa using List.filter_eq_nil_iff.mp hbehind below hmem

/-- A node that covers the offset while none below it does is where the offset is located. -/
theorem innermostAt_iff (hparts : tree.graph.Parts tree.root)
    (hlocation : tree.locationAt offset = some location) :
    tree.InnermostAt offset id ↔ id = location.node := by
  have hlocated := innermostAt_of_locationAt hlocation
  constructor
  · rintro ⟨hid, hinner⟩
    by_contra hne
    rcases below_or_below hparts hid hlocated.1 hne with hbelow | hbelow
    · exact absurd hid.2 (Bool.eq_false_iff.mp (hlocated.2 id hbelow))
    · exact absurd hlocated.1.2 (Bool.eq_false_iff.mp (hinner _ hbelow))
  · rintro rfl
    exact hlocated

/-- The scope around some nodes, given from the outside in, is that of the deepest one that has
a scope. -/
theorem scopeAround_eq_some_iff {nodes : List NodeId} {scope : ScopeId}
    (hnodes : nodes.Pairwise fun above id => tree.graph.Below id above) :
    tree.scopeAround nodes = some scope ↔
      ∃ id ∈ nodes, tree.graph.scopeOf? id = some scope ∧
        ∀ below ∈ nodes, tree.graph.Below below id → tree.graph.scopeOf? below = none := by
  have hinward := List.pairwise_reverse.mpr hnodes
  have hmem : ∀ id, id ∈ nodes ↔ id ∈ nodes.reverse := fun id => List.mem_reverse.symm
  simp only [scopeAround, List.findSome?_eq_some_iff, hmem]
  constructor
  · rintro ⟨deeper, id, outer, hsplit, hscope, hnone⟩
    rw [hsplit] at hinward ⊢
    obtain ⟨-, houter, -⟩ := List.pairwise_append.mp hinward
    have hid : id ∈ deeper ++ id :: outer := List.mem_append_right deeper List.mem_cons_self
    refine ⟨id, hid, hscope, fun below hbelow hdeep => ?_⟩
    rcases List.mem_append.mp hbelow with hdeeper | hrest
    · exact hnone below hdeeper
    · rcases List.mem_cons.mp hrest with rfl | hrest
      · exact absurd hdeep (tree.graph.not_below_self below)
      · have habove := (List.pairwise_cons.mp houter).1 below hrest
        exact absurd hdeep (Graph.not_below_of_below habove)
  · rintro ⟨id, hid, hscope, hnone⟩
    obtain ⟨deeper, outer, hsplit⟩ := List.append_of_mem hid
    rw [hsplit] at hinward
    refine ⟨deeper, id, outer, hsplit, hscope, fun below hdeeper => ?_⟩
    refine hnone below (hsplit ▸ List.mem_append_left _ hdeeper) ?_
    exact (List.pairwise_append.mp hinward).2.2 below hdeeper id List.mem_cons_self

theorem scopeAround_eq_none_iff {nodes : List NodeId} :
    tree.scopeAround nodes = none ↔ ∀ id ∈ nodes, tree.graph.scopeOf? id = none := by
  rw [scopeAround, List.findSome?_eq_none_iff]
  simp only [List.mem_reverse]

/-- What is found at an offset: the innermost node there with all that cover the offset, the
symbol it stands for, and the scope of the deepest node there that has one. -/
structure Finds (tree : Tree) (offset : Int) (location : Location) : Prop where
  node : ∀ id, tree.InnermostAt offset id ↔ id = location.node
  nodes : location.nodes = tree.covering offset
  symbol : location.symbol = match (tree.graph.node location.node).attr with
    | .symbol symbol => some symbol
    | .own attr => attr.symbol
  scope : ∀ scope, location.scope = some scope ↔
    ∃ id, tree.CoveredBy offset id ∧ tree.graph.scopeOf? id = some scope ∧
      ∀ below, tree.CoveredBy offset below → tree.graph.Below below id →
        tree.graph.scopeOf? below = none
  noScope : location.scope = none ↔
    ∀ id, tree.CoveredBy offset id → tree.graph.scopeOf? id = none

theorem finds_of_locationAt (hunshared : tree.graph.Unshared tree.root)
    (hparts : tree.graph.Parts tree.root) (hlocation : tree.locationAt offset = some location) :
    tree.Finds offset location := by
  have hnode : ∀ id, tree.InnermostAt offset id ↔ id = location.node :=
    fun id => innermostAt_iff hparts hlocation
  obtain ⟨leaf, -, rfl⟩ := Option.map_eq_some_iff.mp hlocation
  refine ⟨hnode, rfl, rfl, fun scope => ?_, ?_⟩
  · rw [scopeAround_eq_some_iff (pairwise_covering hunshared hparts offset)]
    simp only [mem_covering_iff]
  · rw [scopeAround_eq_none_iff]
    simp only [mem_covering_iff]

/-- The nodes that cover an offset are listed once each, each one below the one before and
inside it; and when there are any, the offset is located at the innermost one. -/
theorem location_is_innermost (tree : Tree) (hunshared : tree.graph.Unshared tree.root)
    (hnests : tree.graph.Nests tree.root) (hparts : tree.graph.Parts tree.root) (offset : Int) :
    ((∀ id, id ∈ tree.covering offset ↔ tree.CoveredBy offset id) ∧
      (tree.covering offset).Nodup ∧
      (tree.covering offset).IsChain fun above id => tree.graph.Below id above ∧
        ∃ outer inner, (tree.graph.node above).span = some outer ∧
          (tree.graph.node id).span = some inner ∧ outer.Contains inner) ∧
    (tree.locationAt offset = none ↔ ∀ id, ¬tree.CoveredBy offset id) ∧
    ∀ location, tree.locationAt offset = some location → tree.Finds offset location := by
  refine ⟨⟨fun id => mem_covering_iff, ?_, ?_⟩, locationAt_eq_none_iff,
    fun location => finds_of_locationAt hunshared hparts⟩
  · rw [covering, Graph.walk_eq_preorder]
    exact (Graph.nodup_preorder hunshared).filter _
  · refine ((pairwise_covering hunshared hparts offset).imp_of_mem
      fun {above id} habove hid hbelow => ?_).isChain
    obtain ⟨hinside, hcovers⟩ := mem_covering_iff.mp habove
    obtain ⟨outer, houter, -⟩ := Node.covers_iff.mp hcovers
    obtain ⟨inner, hinner, -⟩ := Node.covers_iff.mp (mem_covering_iff.mp hid).2
    have hcontains := hnests id above inner outer hinside hbelow hinner houter
    exact ⟨hbelow, outer, inner, houter, hinner, hcontains⟩

/-- A call with a name in brackets, and another name; the brackets have no place. -/
def callTree : Tree where
  graph := (Graph.ofTables? #[] #[{ name := some "x" }]
    #[{ tag := Tag.block, span := some ⟨0, 6⟩, children := [1, 4] },
      { tag := Tag.call, span := some ⟨0, 4⟩, children := [2] },
      { tag := "Paren", children := [3] },
      { tag := Tag.id, span := some ⟨2, 3⟩, attr := .symbol 0 },
      { tag := Tag.id, span := some ⟨5, 6⟩ }]
    ((ScopeForest.empty.push (some 0) none).push (some 2) (some 0))).get (by decide +kernel)
  root := 0

theorem location_is_innermost_in_call :
    callTree.graph.Unshared callTree.root ∧ callTree.graph.Nests callTree.root ∧
      callTree.graph.Parts callTree.root ∧
      callTree.Finds 2 { node := 3, nodes := [0, 1, 3], symbol := some 0, scope := some 0 } := by
  have hrows : callTree.graph.ListsBelow [[1, 2, 3, 4], [2, 3], [3], [], []] := by decide +kernel
  have hunshared : callTree.graph.Unshared callTree.root :=
    Graph.unshared_of_children (by decide +kernel) (by decide +kernel)
  have hnests : callTree.graph.Nests callTree.root := hrows.nests (by decide +kernel)
  have hparts : callTree.graph.Parts callTree.root := hrows.parts (by decide +kernel)
  have hlocation : callTree.locationAt 2 =
      some { node := 3, nodes := [0, 1, 3], symbol := some 0, scope := some 0 } := by cbv
  exact ⟨hunshared, hnests, hparts,
    (callTree.location_is_innermost hunshared hnests hparts 2).2.2 _ hlocation⟩

end Tree

end EditorBridge
